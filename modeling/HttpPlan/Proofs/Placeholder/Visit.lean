import HttpPlan.Proofs.Placeholder.Conformance
import HttpPlan.Proofs.Placeholder.Renumbering

/-! The calls that a placeholder is made of. Each begins with the notes of those before it, so what
it notes is one piece of the notes of the whole, and none of them runs out of fuel. -/
namespace HttpPlan.Synthesizer

open Relation (ReflTransGen)

/-- One call of `value`. -/
structure Visit where
  fuel : Nat
  inside : List SchemaId := []
  id : SchemaId
  name : String
  random : Random
  state : Synthesizer

namespace Visit

/-- The call that `synthesize` comes down to. -/
def root (arena : SchemaArena) (id : SchemaId) (name : String) (s : Synthesizer) : Visit where
  fuel := arena.size + 1
  id := id
  name := name
  random := .ofSeed (seed name)
  state := s

def outcome (arena : SchemaArena) (v : Visit) : Json × Random × Synthesizer :=
  value arena v.fuel v.inside v.id v.name v.random v.state

def result (arena : SchemaArena) (v : Visit) : Json := (v.outcome arena).1

/-- What the call adds to the notes. -/
def noted (arena : SchemaArena) (v : Visit) : List Diagnostic :=
  (v.outcome arena).2.2.notes.drop v.state.notes.length

def inner (v : Visit) (id : SchemaId) (name : String) (r : Random) (s : Synthesizer) : Visit :=
  ⟨v.fuel - 1, v.id :: v.inside, id, name, r, s⟩

/-- The fields that are made before a field of an object. -/
def fieldsBefore (arena : SchemaArena) (v : Visit) (entries : List (String × SchemaId)) :
    List (String × Json) × Random × Synthesizer :=
  entries.foldl (addField (value arena (v.fuel - 1) (v.id :: v.inside)) v.name)
    ([], v.random, v.state)

/-- A call that looks into its node: the value does not stand in it, and it documents none. -/
structure Enters (arena : SchemaArena) (v : Visit) : Prop where
  fuel : v.fuel ≠ 0
  fresh : v.id ∉ v.inside
  undocumented : documented? (arena.node v.id) = none

/-- The calls that a call makes in turn. -/
inductive Makes (arena : SchemaArena) (v : Visit) : Visit → Prop
  | item {child : SchemaId} (enters : v.Enters arena) (kind : (arena.node v.id).kind = .typed .array)
      (items : (arena.node v.id).items = some child) :
      Makes arena v (v.inner child (v.name ++ "[0]") v.random v.state)
  | field {before after : List (String × SchemaId)} {key : String} {child : SchemaId}
      (enters : v.Enters arena) (kind : (arena.node v.id).kind = .typed .object)
      (required : (arena.node v.id).properties.entries.filter (·.1 ∈ (arena.node v.id).required) =
        before ++ (key, child) :: after) :
      Makes arena v (v.inner child (v.name ++ "." ++ key) (v.fieldsBefore arena before).2.1
        (v.fieldsBefore arena before).2.2)
  | variant {child : SchemaId} (enters : v.Enters arena) (kind : (arena.node v.id).kind = .union)
      (first : arena.concrete? v.id = some child) :
      Makes arena v (v.inner child v.name v.random v.state)

variable {arena : SchemaArena} {v w : Visit} {id : SchemaId} {name : String} {s : Synthesizer}

theorem synthesize_eq_root : s.synthesize arena id name =
    ((root arena id name s).result arena, ((root arena id name s).outcome arena).2.2) := rfl

theorem notes_outcome : (v.outcome arena).2.2.notes = v.state.notes ++ v.noted arena := by
  obtain ⟨added, notes⟩ : v.state.notes <+: (v.outcome arena).2.2.notes := notes_value v.fuel
  rw [noted, ← notes, List.drop_left]

theorem notes_field_within
    {part : SchemaId → String → Random → Synthesizer → Json × Random × Synthesizer}
    {before after : List (String × SchemaId)} {key : String} {child : SchemaId}
    {made : List (String × Json) × Random × Synthesizer}
    (grows : ∀ id name r s, s.notes <+: (part id name r s).2.2.notes) :
    (part child (name ++ "." ++ key) (before.foldl (addField part name) made).2.1
      (before.foldl (addField part name) made).2.2).2.2.notes <+:
        ((before ++ (key, child) :: after).foldl (addField part name) made).2.2.notes := by
  rw [List.foldl_append, List.foldl_cons]
  exact @notes_fields name part after
    (addField part name (before.foldl (addField part name) made) (key, child)) grows

/-- What an inner call starts from and ends with lies between what the outer one does. -/
structure Between (arena : SchemaArena) (v w : Visit) : Prop where
  start : v.state.notes <+: w.state.notes
  finish : (w.outcome arena).2.2.notes <+: (v.outcome arena).2.2.notes

theorem Makes.between (makes : v.Makes arena w) : v.Between arena w := by
  obtain ⟨fuel, inside, id, name, r, s⟩ := v
  cases fuel with
  | zero => cases makes <;> exact absurd rfl (Enters.fuel ‹_›)
  | succ fuel =>
    cases makes with
    | item enters kind items =>
      refine ⟨List.prefix_rfl, ?_⟩
      simp only [outcome, inner, value_of_items enters.fresh enters.undocumented kind items,
        Nat.add_sub_cancel]
      exact List.prefix_rfl
    | variant enters kind first =>
      refine ⟨List.prefix_rfl, ?_⟩
      simp only [outcome, inner, value_of_variant enters.fresh enters.undocumented kind first,
        Nat.add_sub_cancel]
      exact List.prefix_rfl
    | @field before after key child enters kind required =>
      have grows : ∀ child name r s,
          s.notes <+: (value arena fuel (id :: inside) child name r s).2.2.notes :=
        fun _ _ _ _ => notes_value fuel
      have whole : (value arena (fuel + 1) inside id name r s).2.2 =
          ((before ++ (key, child) :: after).foldl
            (addField (value arena fuel (id :: inside)) name) ([], r, s)).2.2 := by
        rw [← required, value_of_object enters.fresh enters.undocumented kind]
      refine ⟨@notes_fields name _ before ([], r, s) grows, ?_⟩
      simp only [outcome, whole]
      exact notes_field_within grows

theorem between_of_reached (reached : ReflTransGen (Makes arena) v w) : v.Between arena w := by
  induction reached with
  | refl => exact ⟨List.prefix_rfl, List.prefix_rfl⟩
  | tail _ makes ih => exact ⟨ih.start.trans makes.between.start, makes.between.finish.trans ih.finish⟩

/-- The notes of an inner call are one piece of those of the outer one. -/
theorem noted_infix (reached : ReflTransGen (Makes arena) v w) : w.noted arena <:+: v.noted arena := by
  obtain ⟨before, start⟩ := (between_of_reached reached).start
  obtain ⟨after, finish⟩ := (between_of_reached reached).finish
  refine ⟨before, after, (List.append_right_inj v.state.notes).mp ?_⟩
  rw [← notes_outcome, ← finish, notes_outcome, ← start]
  simp only [List.append_assoc]

/-- A call for a node of the arena, which has fuel for all the nodes that its value does not stand
in yet. -/
structure Fuelled (arena : SchemaArena) (v : Visit) : Prop where
  stack : Stack arena v.inside
  bound : v.id < arena.size
  room : arena.size < v.fuel + v.inside.length

theorem Makes.fuelled (closed : arena.Closed) (fuelled : v.Fuelled arena) (makes : v.Makes arena w) :
    w.Fuelled arena := by
  have below := closed.below_node v.id
  have inner : ∀ child name r s, v.Enters arena → child ∈ (arena.node v.id).children →
      (v.inner child name r s).Fuelled arena := by
    intro child name r s enters member
    have some_fuel := enters.fuel
    have room := fuelled.room
    refine ⟨fuelled.stack.push enters.fresh fuelled.bound, below child member, ?_⟩
    simp only [Visit.inner, List.length_cons]
    omega
  cases makes with
  | item enters kind items =>
    exact inner _ _ _ _ enters (SchemaArena.Follows.items enters.undocumented kind items).mem_children
  | variant enters kind first =>
    exact inner _ _ _ _ enters (SchemaArena.Follows.variant enters.undocumented kind first).mem_children
  | @field before after key child enters kind required =>
    have member : (key, child) ∈ (arena.node v.id).properties.entries.filter
        (·.1 ∈ (arena.node v.id).required) := by simp [required]
    obtain ⟨declared, wanted⟩ := List.mem_filter.mp member
    exact inner _ _ _ _ enters (SchemaArena.Follows.property enters.undocumented kind declared
      (of_decide_eq_true wanted)).mem_children

theorem fuelled_root (bound : id < arena.size) : (root arena id name s).Fuelled arena :=
  ⟨⟨.nil, nofun⟩, bound, Nat.lt_succ_self _⟩

theorem fuelled_of_reached (closed : arena.Closed) (fuelled : v.Fuelled arena)
    (reached : ReflTransGen (Makes arena) v w) : w.Fuelled arena := by
  induction reached with
  | refl => exact fuelled
  | tail _ makes ih => exact makes.fuelled closed ih

/-- A call stands in calls for nodes that hold other values. -/
theorem nests_of_reached (reached : ReflTransGen (Makes arena) (root arena id name s) v) :
    ∀ outer ∈ v.inside, (arena.node outer).kind = .typed .array ∨
      (arena.node outer).kind = .typed .object ∨ (arena.node outer).kind = .union := by
  induction reached with
  | refl => exact fun outer member => absurd member List.not_mem_nil
  | tail _ makes ih =>
    intro outer member
    cases makes with
    | item enters kind items =>
      rcases List.mem_cons.mp member with rfl | above
      · exact Or.inl kind
      · exact ih outer above
    | field enters kind required =>
      rcases List.mem_cons.mp member with rfl | above
      · exact Or.inr (Or.inl kind)
      · exact ih outer above
    | variant enters kind first =>
      rcases List.mem_cons.mp member with rfl | above
      · exact Or.inr (Or.inr kind)
      · exact ih outer above

theorem Fuelled.enters (fuelled : v.Fuelled arena) (fresh : v.id ∉ v.inside)
    (undocumented : documented? (arena.node v.id) = none) : v.Enters arena := by
  refine ⟨fun none => ?_, fresh, undocumented⟩
  have few := fuelled.stack.length_le
  have room := fuelled.room
  omega

end Visit

end HttpPlan.Synthesizer
