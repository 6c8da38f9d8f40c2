/-! The tokens of YAML text. Block collections open where their first entry stands and close where
the indentation ends. -/
namespace HttpPlan.Yaml

inductive Token where
  | version (major minor : Nat)
  /-- Declares what a tag handle stands for. -/
  | tagHandle (handle expansion : String)
  | documentStart
  | documentEnd
  | blockSequence
  | blockMapping
  | blockEnd
  | flowSequence
  | flowSequenceEnd
  | flowMapping
  | flowMappingEnd
  /-- The dash before an entry. -/
  | entry
  | comma
  | key
  | value
  | aliasOf (name : String)
  | anchor (name : String)
  | tag (handle suffix : String)
  | scalar (plain : Bool) (text : String)
deriving DecidableEq, Repr

/-! YAML nodes. Anchors are written by names, which may be used again; `numbered` replaces the names
by numbers. -/

/-- What may be said of a node in front of it. `ι` is the type of anchors. -/
structure Properties (ι : Type) where
  anchor : Option ι := none
  tag : Option String := none

inductive Node (ι : Type) where
  | aliasOf (anchor : ι)
  | scalar (properties : Properties ι) (plain : Bool) (text : String)
  | sequence (properties : Properties ι) (items : List (Node ι))
  | mapping (properties : Properties ι) (fields : List (Node ι × Node ι))

namespace Node

/-- The node that stands where nothing is written. -/
def absent {ι : Type} : Node ι := .scalar {} true ""

mutual
/-- How many marks it takes to describe a node: one for a scalar or an alias, and two around the
contents of a collection. -/
def size {ι : Type} : Node ι → Nat
  | aliasOf _ | scalar .. => 1
  | sequence _ items => sizeOfItems items + 2
  | mapping _ fields => sizeOfFields fields + 2
def sizeOfItems {ι : Type} : List (Node ι) → Nat
  | [] => 0
  | v :: rest => size v + sizeOfItems rest
def sizeOfFields {ι : Type} : List (Node ι × Node ι) → Nat
  | [] => 0
  | (k, v) :: rest => size k + size v + sizeOfFields rest
end

mutual
/-- The nodes that have an anchor, in the order in which they begin. -/
def anchored {ι : Type} : Node ι → List (ι × Node ι)
  | aliasOf _ => []
  | scalar p plain text => p.anchor.toList.map (·, scalar p plain text)
  | sequence p items => p.anchor.toList.map (·, sequence p items) ++ anchoredItems items
  | mapping p fields => p.anchor.toList.map (·, mapping p fields) ++ anchoredFields fields
def anchoredItems {ι : Type} : List (Node ι) → List (ι × Node ι)
  | [] => []
  | v :: rest => anchored v ++ anchoredItems rest
def anchoredFields {ι : Type} : List (Node ι × Node ι) → List (ι × Node ι)
  | [] => []
  | (k, v) :: rest => anchored k ++ anchored v ++ anchoredFields rest
end

/-- The numbers of anchor names. -/
abbrev Numbering := List (String × Nat)

namespace Numbering

/-- An anchor is numbered by how many names came before it; a name that is used again takes the
new number. -/
def declare (name : String) (n : Numbering) : Numbering :=
  (name, n.length) :: n.filter (·.1 ≠ name)

end Numbering

def numberProperties (p : Properties String) : StateT Numbering Option (Properties Nat) := do
  match p.anchor with
  | none => return { tag := p.tag }
  | some name =>
    let n ← get
    set (n.declare name)
    return { anchor := some n.length, tag := p.tag }

mutual
/-- Replaces names by numbers. An alias of a name not met before makes it fail. -/
def number : Node String → StateT Numbering Option (Node Nat)
  | aliasOf name => do return aliasOf (← (← get).lookup name)
  | scalar p plain text => do return scalar (← numberProperties p) plain text
  | sequence p items => do
    let p ← numberProperties p
    return sequence p (← numberItems items)
  | mapping p fields => do
    let p ← numberProperties p
    return mapping p (← numberFields fields)
def numberItems : List (Node String) → StateT Numbering Option (List (Node Nat))
  | [] => return []
  | v :: rest => do
    let v ← number v
    return v :: (← numberItems rest)
def numberFields : List (Node String × Node String) →
    StateT Numbering Option (List (Node Nat × Node Nat))
  | [] => return []
  | (k, v) :: rest => do
    let k ← number k
    let v ← number v
    return (k, v) :: (← numberFields rest)
end

def numbered? (v : Node String) : Option (Node Nat) := (v.number.run []).map (·.1)

end Node

end HttpPlan.Yaml
