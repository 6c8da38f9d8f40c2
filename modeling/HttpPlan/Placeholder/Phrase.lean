import HttpPlan.Random

/-! Pronounceable filler text: words of two or three syllables, each a consonant and a vowel,
separated by spaces and cut to an exact length. -/
namespace HttpPlan

structure Syllable where
  consonant : Fin 14
  vowel : Fin 5
deriving DecidableEq, Repr

structure Word where
  first : Syllable
  second : Syllable
  third : Option Syllable
deriving DecidableEq, Repr

namespace Syllable

def consonants : Vector Char 14 :=
  #v['b', 'd', 'f', 'g', 'k', 'l', 'm', 'n', 'p', 'r', 's', 't', 'v', 'z']

def vowels : Vector Char 5 := #v['a', 'e', 'i', 'o', 'u']

def letters (s : Syllable) : List Char := [consonants[s.consonant], vowels[s.vowel]]

def draw (r : Random) : Syllable × Random :=
  let (consonant, r) := r.below64 14
  let (vowel, r) := r.below64 5
  (⟨Fin.ofNat 14 consonant, Fin.ofNat 5 vowel⟩, r)

end Syllable

namespace Word

def letters (w : Word) : List Char :=
  w.first.letters ++ w.second.letters ++ (w.third.map Syllable.letters).getD []

theorem letters_pos (w : Word) : 0 < w.letters.length := by
  simp [letters, Syllable.letters]

def draw (r : Random) : Word × Random :=
  let (more, r) := r.below32 2
  let (first, r) := Syllable.draw r
  let (second, r) := Syllable.draw r
  if more = 0 then (⟨first, second, none⟩, r)
  else
    let (third, r) := Syllable.draw r
    (⟨first, second, some third⟩, r)

end Word

namespace Phrase

variable {σ : Type}

/-- Words from a source until `length` characters are full. A separator that fills the last one
is still followed by a word, which is cut off whole. -/
def words (draw : σ → Word × σ) (length : Nat) (s : σ) : List Char × σ :=
  let next := draw s
  let letters := next.1.letters
  if length ≤ letters.length then (letters.take length, next.2)
  else
    let more := words draw (length - letters.length - 1) next.2
    (letters ++ ' ' :: more.1, more.2)
termination_by length
decreasing_by
  have := Word.letters_pos (draw s).1
  omega

/-- A separator at the end gives way to a letter. -/
def closeEnd (cs : List Char) : List Char :=
  if cs.getLast? = some ' ' then cs.dropLast ++ ['a'] else cs

def chars (draw : σ → Word × σ) (length : Nat) (s : σ) : List Char × σ :=
  if length = 0 then ([], s)
  else
    let (cs, s) := words draw length s
    (closeEnd cs, s)

def draw (length : Nat) (r : Random) : String × Random :=
  let (cs, r) := chars Word.draw length r
  (String.ofList cs, r)

end Phrase

end HttpPlan
