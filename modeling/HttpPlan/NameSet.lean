/-! Sets of names, kept in ascending order of their code points, which is also the order of their
UTF-8 bytes. -/
namespace HttpPlan

structure NameSet where
  names : List String
  ascending : names.Pairwise (· < ·)
deriving DecidableEq

namespace NameSet

def empty : NameSet := ⟨[], .nil⟩

instance : Inhabited NameSet := ⟨empty⟩
instance : EmptyCollection NameSet := ⟨empty⟩
instance : Membership String NameSet := ⟨fun s name => name ∈ s.names⟩
instance (s : NameSet) (name : String) : Decidable (name ∈ s) :=
  inferInstanceAs (Decidable (name ∈ s.names))

def isEmpty (s : NameSet) : Bool := s.names.isEmpty

/-- Puts a name before the first greater one, unless it is there already. -/
def place (name : String) : List String → List String
  | [] => [name]
  | other :: rest =>
    if name < other then name :: other :: rest
    else if name = other then other :: rest
    else other :: place name rest

theorem mem_place {name other : String} {names : List String} :
    other ∈ place name names ↔ other = name ∨ other ∈ names := by
  induction names with
  | nil => simp [place]
  | cons first rest ih =>
    rw [place]
    split
    · simp
    · split
      · next same => subst same; simp
      · simp only [List.mem_cons, ih]; grind

theorem place_ascending {name : String} {names : List String} (h : names.Pairwise (· < ·)) :
    (place name names).Pairwise (· < ·) := by
  induction names with
  | nil => simp [place]
  | cons first rest ih =>
    obtain ⟨before, tail⟩ := List.pairwise_cons.1 h
    rw [place]
    split
    · next less =>
      refine List.pairwise_cons.2 ⟨fun other mem => ?_, h⟩
      rcases List.mem_cons.1 mem with rfl | mem
      · exact less
      · exact String.lt_trans less (before other mem)
    · split
      · exact h
      · next notLess notSame =>
        refine List.pairwise_cons.2 ⟨fun other mem => ?_, ih tail⟩
        rcases mem_place.1 mem with rfl | mem
        · exact Std.not_le.1 fun le => notSame (String.le_antisymm le (String.not_lt.1 notLess))
        · exact before other mem

def insert (s : NameSet) (name : String) : NameSet :=
  ⟨place name s.names, place_ascending s.ascending⟩

def ofList (names : List String) : NameSet := names.foldl insert empty

theorem mem_ofList {name : String} {names : List String} :
    name ∈ (ofList names).names ↔ name ∈ names := by
  suffices whole : ∀ s : NameSet, name ∈ (names.foldl insert s).names ↔ name ∈ s.names ∨ name ∈ names by
    exact (whole empty).trans (by simp [empty])
  induction names with
  | nil => simp
  | cons first rest ih =>
    intro s
    rw [List.foldl_cons, ih, insert, mem_place, List.mem_cons]
    grind

def union (s t : NameSet) : NameSet := t.names.foldl insert s

end NameSet

end HttpPlan
