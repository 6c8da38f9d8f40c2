/-! Finite maps that keep the order in which their keys were first inserted. -/
namespace HttpPlan

structure OrderedMap (κ α : Type) where
  entries : List (κ × α)
  distinct : (entries.map Prod.fst).Nodup

namespace OrderedMap

variable {κ α : Type}

instance [DecidableEq κ] [DecidableEq α] : DecidableEq (OrderedMap κ α) := fun a b =>
  if h : a.entries = b.entries then
    isTrue (by cases a; cases b; cases h; rfl)
  else
    isFalse (fun e => h (e ▸ rfl))

def empty : OrderedMap κ α := ⟨[], List.nodup_nil⟩

instance : Inhabited (OrderedMap κ α) := ⟨empty⟩
instance : EmptyCollection (OrderedMap κ α) := ⟨empty⟩

def keys (m : OrderedMap κ α) : List κ := m.entries.map Prod.fst
def values (m : OrderedMap κ α) : List α := m.entries.map Prod.snd
def isEmpty (m : OrderedMap κ α) : Bool := m.entries.isEmpty
def size (m : OrderedMap κ α) : Nat := m.entries.length

/-- Keeps the entries whose key passes. -/
def filterKeys (keep : κ → Bool) (m : OrderedMap κ α) : OrderedMap κ α :=
  ⟨m.entries.filter (keep ·.1),
    ((List.filter_sublist (l := m.entries)).map Prod.fst).nodup m.distinct⟩

variable [DecidableEq κ]

def get? (m : OrderedMap κ α) (key : κ) : Option α := m.entries.lookup key

def contains (m : OrderedMap κ α) (key : κ) : Bool := m.keys.contains key

/-- Replaces the value at a key; other entries stay. -/
def replace (key : κ) (value : α) (entries : List (κ × α)) : List (κ × α) :=
  entries.map fun e => if e.1 = key then (key, value) else e

theorem map_fst_replace (key : κ) (value : α) (entries : List (κ × α)) :
    (replace key value entries).map Prod.fst = entries.map Prod.fst := by
  simp only [replace, List.map_map]
  refine List.map_congr_left fun e _ => ?_
  by_cases h : e.1 = key <;> simp [h]

/-- An existing key keeps its place and takes the new value; a new key goes to the end. -/
def insert (m : OrderedMap κ α) (key : κ) (value : α) : OrderedMap κ α :=
  if h : key ∈ m.entries.map Prod.fst then
    ⟨replace key value m.entries, by rw [map_fst_replace]; exact m.distinct⟩
  else
    ⟨m.entries ++ [(key, value)], by
      rw [List.map_append]
      refine List.nodup_append.2 ⟨m.distinct, by simp, ?_⟩
      rintro a ha b hb rfl
      simp only [List.map_cons, List.map_nil, List.mem_singleton] at hb
      exact h (hb ▸ ha)⟩

def erase (m : OrderedMap κ α) (key : κ) : OrderedMap κ α := m.filterKeys (· ≠ key)

def ofList (entries : List (κ × α)) : OrderedMap κ α :=
  entries.foldl (fun m e => m.insert e.1 e.2) empty

end OrderedMap

end HttpPlan
