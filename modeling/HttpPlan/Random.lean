/-! A small reproducible source of random words: xoshiro256++ over four 64-bit words, seeded from
one word by a permuted congruential generator. -/
namespace HttpPlan

structure Random where
  s0 : UInt64
  s1 : UInt64
  s2 : UInt64
  s3 : UInt64
deriving DecidableEq, Repr

namespace Random

def rotateLeft64 (x : UInt64) (n : UInt64) : UInt64 := (x <<< n) ||| (x >>> (64 - n))

def rotateRight32 (x n : UInt32) : UInt32 := if n = 0 then x else (x >>> n) ||| (x <<< (32 - n))

def stir (state : UInt64) : UInt64 := state * 6364136223846793005 + 11634580027462260723

/-- The 32-bit word that a seeding state gives. -/
def output (state : UInt64) : UInt32 :=
  rotateRight32 (((state >>> 18) ^^^ state) >>> 27).toUInt32 (state >>> 59).toUInt32

/-- Two seeding words make one word of the state, the low half first. -/
def seedWord (state : UInt64) : UInt64 × UInt64 :=
  let first := stir state
  let second := stir first
  ((output first).toUInt64 ||| ((output second).toUInt64 <<< 32), second)

def ofSeed (seed : UInt64) : Random :=
  let (s0, state) := seedWord seed
  let (s1, state) := seedWord state
  let (s2, state) := seedWord state
  let (s3, _) := seedWord state
  ⟨s0, s1, s2, s3⟩

def next (r : Random) : UInt64 × Random :=
  let word := rotateLeft64 (r.s0 + r.s3) 23 + r.s0
  let s2 := r.s2 ^^^ r.s0
  let s3 := r.s3 ^^^ r.s1
  (word, ⟨r.s0 ^^^ s3, r.s1 ^^^ s2, s2 ^^^ (r.s1 <<< 17), rotateLeft64 s3 45⟩)

/-- The upper half of a word. -/
def next32 (r : Random) : UInt32 × Random :=
  let (word, r) := r.next
  ((word >>> 32).toUInt32, r)

/-- The low half of the upper half of a word. -/
def next16 (r : Random) : UInt16 × Random :=
  let (word, r) := r.next32
  (word.toUInt16, r)

/-- How words of a width become numbers below a bound: the upper half of the product with the
bound. Words whose lower half lies past the last full multiple are refused. -/
def spread (width bound word : Nat) : Option (Nat) :=
  let product := word * bound
  let zone := (bound <<< (width - 1 - bound.log2)) - 1
  if product % (1 <<< width) ≤ zone then some (product >>> width) else none

/-- Draws until a word is accepted. `tries` bounds the refusals, which come one draw in two at
most; after so many of them the answer is zero. -/
def below (draw : Random → Nat × Random) (width bound : Nat) : Nat → Random → Nat × Random
  | 0, r => (0, r)
  | tries + 1, r =>
    let (word, r) := draw r
    match spread width bound word with
    | some n => (n, r)
    | none => below draw width bound tries r

def tries : Nat := 1000

def below32 (bound : Nat) : Random → Nat × Random :=
  below (fun r => let (w, r) := r.next32; (w.toNat, r)) 32 bound tries

def below64 (bound : Nat) : Random → Nat × Random :=
  below (fun r => let (w, r) := r.next; (w.toNat, r)) 64 bound tries

end Random

end HttpPlan
