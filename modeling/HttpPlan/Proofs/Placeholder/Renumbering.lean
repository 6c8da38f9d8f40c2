import HttpPlan.Placeholder
import HttpPlan.Proofs.Schema.Renumbering
import Mathlib.Data.List.Nodup
import Mathlib.Data.List.Perm.Subperm

/-! A value does not depend on the numbers of nodes, nor on how much fuel is left over: an arena's
size is enough of it, since a value stands in no node twice. -/
namespace HttpPlan.Synthesizer

open SchemaArena

variable {arena other : SchemaArena} {f : SchemaId → SchemaId} {roots inside : List SchemaId}
  {id : SchemaId} {name : String} {r : Random} {s : Synthesizer} {fuel : Nat}

/-- Nodes of the arena that a value stands in, no two of them the same. -/
structure Stack (arena : SchemaArena) (inside : List SchemaId) : Prop where
  distinct : inside.Nodup
  bound : ∀ id ∈ inside, id < arena.size

theorem Stack.push (stack : Stack arena inside) (fresh : id ∉ inside) (bound : id < arena.size) :
    Stack arena (id :: inside) :=
  ⟨List.nodup_cons.mpr ⟨fresh, stack.distinct⟩, List.forall_mem_cons.mpr ⟨bound, stack.bound⟩⟩

theorem Stack.length_le (stack : Stack arena inside) : inside.length ≤ arena.size := by
  have subset : inside ⊆ List.range arena.size :=
    fun a member => List.mem_range.mpr (stack.bound a member)
  simpa using (stack.distinct.subperm subset).length_le

/-- A stack of all nodes has every node on it. -/
theorem Stack.mem_of_full (stack : Stack arena inside) (full : arena.size ≤ inside.length)
    (bound : id < arena.size) : id ∈ inside := by
  by_contra fresh
  have more := (stack.push fresh bound).length_le
  rw [List.length_cons] at more
  omega

theorem value_of_mem (member : id ∈ inside) :
    value arena fuel inside id name r s = (cut (arena.node id), r, s) := by
  cases fuel with
  | zero => rfl
  | succ fuel => rw [value, if_pos member]

theorem required_renumber {node : SchemaNode} :
    (node.renumber f).properties.entries.filter (·.1 ∈ (node.renumber f).required) =
      (node.properties.entries.filter (·.1 ∈ node.required)).map fun e => (e.1, f e.2) := by
  rw [SchemaNode.entries_renumber, List.filter_map]
  rfl

theorem concrete_renumber (renumbers : arena.Renumbers other f roots)
    (leads : arena.Leads roots id) :
    ((arena.node id).variants.map f).find? (fun v => (other.node v).kind ≠ .typed .null) =
      ((arena.node id).variants.find? fun v => (arena.node v).kind ≠ .typed .null).map f := by
  rw [List.find?_map, ← List.head?_filter, ← List.head?_filter]
  refine congrArg (fun ids : List SchemaId => ids.head?.map f) (List.filter_congr fun v member => ?_)
  have led := leads.onward (SchemaNode.mem_children.mpr (Or.inr (Or.inr member)))
  simp [renumbers.nodes v led]

/-- Where the parts of two nodes come to the same values, so do the nodes. -/
theorem value_succ_renumber {beside : List SchemaId} {more : Nat}
    (renumbers : arena.Renumbers other f roots) (leads : arena.Leads roots id) (fresh : id ∉ inside)
    (unseen : f id ∉ beside)
    (parts : ∀ c ∈ (arena.node id).children, ∀ name r s,
      value other more (f id :: beside) (f c) name r s = value arena fuel (id :: inside) c name r s) :
    value other (more + 1) beside (f id) name r s = value arena (fuel + 1) inside id name r s := by
  have concrete := concrete_renumber renumbers leads
  rw [value, value, if_neg fresh, if_neg unseen, renumbers.nodes id leads]
  have documented : documented? ((arena.node id).renumber f) = documented? (arena.node id) := rfl
  dsimp only
  rw [documented, SchemaNode.kind_renumber]
  cases documented? (arena.node id) with
  | some v => rfl
  | none =>
    dsimp only
    cases (arena.node id).kind with
    | unknown => rfl
    | union =>
      rw [SchemaNode.variants_renumber, concrete]
      cases found : (arena.node id).variants.find? fun v => (arena.node v).kind ≠ .typed .null with
      | none => rfl
      | some v =>
        have variant : v ∈ (arena.node id).variants := List.mem_of_find?_eq_some found
        exact parts v (SchemaNode.mem_children.mpr (Or.inr (Or.inr variant))) name r s
    | typed type =>
      cases type with
      | object =>
        rw [required_renumber, List.foldl_map]
        refine congrArg (fun made : List (String × Json) × Random × Synthesizer =>
          (Json.object made.1, made.2.1, made.2.2)) (List.foldl_ext _ _ _ fun made e part => ?_)
        have declared : e.2 ∈ (arena.node id).properties.values :=
          List.mem_map_of_mem (List.mem_of_mem_filter part)
        dsimp only
        rw [parts e.2 (SchemaNode.mem_children.mpr (Or.inl declared))]
      | array =>
        rw [SchemaNode.items_renumber]
        cases items : (arena.node id).items with
        | none => rfl
        | some c =>
          dsimp only [Option.map_some]
          rw [parts c (SchemaNode.mem_children.mpr (Or.inr (Or.inl items)))]
      | _ => rfl

/-- The two stacks hold the same nodes, so a value is cut in the one arena where it is cut in the
other, whatever fuel is left in each. -/
theorem value_renumber {more : Nat} (renumbers : arena.Renumbers other f roots)
    (bound : ∀ id, arena.Leads roots id → id < arena.size)
    (within : ∀ id, arena.Leads roots id → f id < other.size) (leads : arena.Leads roots id)
    (led : ∀ i ∈ inside, arena.Leads roots i) (distinct : inside.Nodup)
    (enough : arena.size ≤ fuel + inside.length) (also : other.size ≤ more + inside.length) :
    value other more (inside.map f) (f id) name r s = value arena fuel inside id name r s := by
  induction fuel generalizing more inside id name r s with
  | zero =>
    have stack : Stack arena inside := ⟨distinct, fun i member => bound i (led i member)⟩
    have member := stack.mem_of_full (by omega) (bound id leads)
    rw [value_of_mem member, value_of_mem (List.mem_map_of_mem member), renumbers.nodes id leads]
    rfl
  | succ fuel ih =>
    by_cases member : id ∈ inside
    · rw [value_of_mem member, value_of_mem (List.mem_map_of_mem member), renumbers.nodes id leads]
      rfl
    have unseen : f id ∉ inside.map f := fun twin =>
      member ((renumbers.mem_map_iff leads led).mp twin)
    cases more with
    | zero =>
      have image : Stack other (inside.map f) := by
        refine ⟨distinct.map_on fun i one j two => renumbers.apart i j (led i one) (led j two),
          fun j twin => ?_⟩
        obtain ⟨i, one, rfl⟩ := List.mem_map.mp twin
        exact within i (led i one)
      exact absurd (image.mem_of_full (by simpa using also) (within id leads)) unseen
    | succ more =>
      refine value_succ_renumber renumbers leads member unseen fun c below name r s => ?_
      rw [← List.map_cons]
      exact ih (leads.onward below) (List.forall_mem_cons.mpr ⟨leads, led⟩)
        (List.nodup_cons.mpr ⟨member, distinct⟩) (by simp only [List.length_cons]; omega)
        (by simp only [List.length_cons]; omega)

/-- A name has the same value, with the same notes, under other numbers. -/
theorem synthesize_renumber {root : SchemaId} (renumbers : arena.Renumbers other f roots)
    (closed : arena.Closed) (inside : ∀ root ∈ roots, root < arena.size) (also : other.Closed)
    (beside : ∀ root ∈ roots, f root < other.size) (given : root ∈ roots) :
    s.synthesize other (f root) name = s.synthesize arena root name := by
  have empty : ([] : List SchemaId).map f = [] := rfl
  unfold synthesize
  dsimp only
  rw [← empty, value_renumber renumbers (fun _ leads => leads.bound closed inside)
    (fun _ leads => leads.image renumbers also beside) (.of_mem given)
    (fun _ member => absurd member List.not_mem_nil) List.nodup_nil
    (show arena.size ≤ arena.size + 1 + 0 by omega) (show other.size ≤ other.size + 1 + 0 by omega)]
  rfl

end HttpPlan.Synthesizer
