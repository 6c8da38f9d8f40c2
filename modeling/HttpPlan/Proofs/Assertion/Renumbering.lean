import HttpPlan.Proofs.Assertion.Termination
import HttpPlan.Proofs.Schema.Renumbering

/-! A derivation does not depend on the numbers of nodes. A run from one arena, renumbered step by
step, is a run from the other, and both come to the same assertions. -/
namespace HttpPlan

namespace SchemaArena

variable {arena other : SchemaArena} {f : SchemaId → SchemaId} {roots : List SchemaId}
  {id : SchemaId}

/-- Variants are looked at for their kinds alone. -/
theorem Renumbers.kinds (renumbers : arena.Renumbers other f roots) (leads : arena.Leads roots id) :
    ((arena.node id).variants.map f).map (fun v => (other.node v).kind) =
      (arena.node id).variants.map fun v => (arena.node v).kind := by
  rw [List.map_map]
  refine List.map_congr_left fun v member => ?_
  have led := leads.onward (SchemaNode.mem_children.mpr (Or.inr (Or.inr member)))
  rw [Function.comp, renumbers.nodes v led, SchemaNode.kind_renumber]

theorem any_isNull (ids : List SchemaId) :
    ids.any arena.isNull = (ids.map fun v => (arena.node v).kind).any (· = .typed .null) := by
  rw [List.any_map]
  rfl

theorem mapM_typeOf? (ids : List SchemaId) :
    ids.mapM (fun v => typeOf? (arena.node v).kind) =
      (ids.map fun v => (arena.node v).kind).mapM typeOf? := by
  rw [List.mapM_map]
  rfl

theorem Renumbers.acceptsNull (renumbers : arena.Renumbers other f roots)
    (leads : arena.Leads roots id) :
    other.acceptsNull (other.node (f id)) = arena.acceptsNull (arena.node id) := by
  rw [renumbers.nodes id leads]
  simp only [SchemaArena.acceptsNull, any_isNull, SchemaNode.kind_renumber,
    SchemaNode.nullable_renumber, SchemaNode.variants_renumber, renumbers.kinds leads]

theorem Renumbers.acceptedTypes? (renumbers : arena.Renumbers other f roots)
    (leads : arena.Leads roots id) :
    other.acceptedTypes? (other.node (f id)) = arena.acceptedTypes? (arena.node id) := by
  rw [renumbers.nodes id leads]
  simp only [SchemaArena.acceptedTypes?, mapM_typeOf?, SchemaNode.kind_renumber,
    SchemaNode.nullable_renumber, SchemaNode.variants_renumber, renumbers.kinds leads]
  rfl

end SchemaArena

namespace Derivation

open SchemaArena

variable {arena other : SchemaArena} {f : SchemaId → SchemaId} {roots : List SchemaId}
  {id : SchemaId} {node : SchemaNode} {place : Locator} {typed : Bool} {slot : List Nat}
  {d e : Draft} {task : Task} {log first later : List Expansion}

theorem concreteVariants_renumber (renumbers : arena.Renumbers other f roots)
    (leads : arena.Leads roots id) : concreteVariants other (other.node (f id)) =
      (concreteVariants arena (arena.node id)).map f := by
  rw [renumbers.nodes id leads, concreteVariants, SchemaNode.variants_renumber, List.filter_map]
  refine congrArg (List.map f) (List.filter_congr fun v member => ?_)
  have led := leads.onward (SchemaNode.mem_children.mpr (Or.inr (Or.inr member)))
  simp [SchemaArena.isNull, renumbers.nodes v led]

theorem soleVariant?_renumber (renumbers : arena.Renumbers other f roots)
    (leads : arena.Leads roots id) : soleVariant? other (other.node (f id)) =
      (soleVariant? arena (arena.node id)).map f := by
  have variants := concreteVariants_renumber renumbers leads
  rw [renumbers.nodes id leads] at variants ⊢
  unfold soleVariant?
  rw [variants, SchemaNode.enumeration_renumber, SchemaNode.kind_renumber]
  rcases concreteVariants arena (arena.node id) with _ | ⟨v, _ | _⟩ <;>
    cases (arena.node id).enumeration <;> cases (arena.node id).kind <;> rfl

theorem shallowChecks_renumber (renumbers : arena.Renumbers other f roots)
    (leads : arena.Leads roots id) : shallowChecks other (other.node (f id)) typed =
      shallowChecks arena (arena.node id) typed := by
  rw [shallowChecks, shallowChecks, renumbers.acceptedTypes? leads]

theorem ownChecks_renumber (renumbers : arena.Renumbers other f roots)
    (leads : arena.Leads roots id) : ownChecks other (other.node (f id)) typed =
      ownChecks arena (arena.node id) typed := by
  unfold ownChecks
  rw [soleVariant?_renumber renumbers leads, shallowChecks_renumber renumbers leads,
    renumbers.nodes id leads, Option.isSome_map]
  rfl

/-- The same draft with its visits and guards under other numbers. -/
def Draft.renumber (f : SchemaId → SchemaId) (d : Draft) : Draft :=
  { d with
    queue := d.queue.map fun entry => (f entry.1, entry.2)
    visited := d.visited.map f
    deferred := d.deferred.map fun δ => { δ with schema := f δ.schema } }

def Task.renumber (f : SchemaId → SchemaId) : Task → Task
  | .visit id place typed => .visit (f id) place typed
  | .drain => .drain

def Expansion.renumber (f : SchemaId → SchemaId) (x : Expansion) : Expansion :=
  { x with schema := f x.schema }

theorem enqueue_renumber {child : SchemaId} : (d.enqueue child place).renumber f =
    (d.renumber f).enqueue (f child) place := by simp [Draft.enqueue, Draft.renumber]

theorem defer_renumber {child : SchemaId} {guard : Guard} {inside : Locator} :
    (d.defer slot place guard child inside).renumber f =
      (d.renumber f).defer slot place guard (f child) inside := by
  simp [Draft.defer, Draft.renumber]

theorem property_renumber (entry : String × SchemaId) :
    property (node.renumber f) slot place (d.renumber f) (entry.1, f entry.2) =
      (property node slot place d entry).renumber f := by
  unfold property
  dsimp only
  by_cases required : entry.1 ∈ node.required
  · have also : entry.1 ∈ (node.renumber f).required := required
    rw [if_pos required, if_pos also, enqueue_renumber]
  · have also : entry.1 ∉ (node.renumber f).required := required
    rw [if_neg required, if_neg also, defer_renumber]

theorem openBranches_renumber :
    openBranches (node.renumber f) slot place (d.renumber f) =
      (openBranches node slot place d).renumber f := by
  have properties (entries : List (String × SchemaId)) :
      (entries.map fun e => (e.1, f e.2)).foldl (property (node.renumber f) slot place) (d.renumber f) =
        (entries.foldl (property node slot place) d).renumber f := by
    induction entries generalizing d with
    | nil => rfl
    | cons entry rest ih => rw [List.map_cons, List.foldl_cons, property_renumber, ih, List.foldl_cons]
  unfold openBranches
  rw [SchemaNode.enumeration_renumber, SchemaNode.kind_renumber]
  split
  · exact properties _
  · rw [SchemaNode.items_renumber]
    cases node.items with
    | none => rfl
    | some items => exact defer_renumber.symm
  · rfl

theorem expandHere_renumber (renumbers : arena.Renumbers other f roots)
    (leads : arena.Leads roots id) :
    expandHere other (f id) place typed slot (d.renumber f) =
      (expandHere arena id place typed slot d).renumber f := by
  rw [expandHere, expandHere, ← openBranches_renumber, ownChecks_renumber renumbers leads,
    renumbers.nodes id leads]
  rfl

/-- A draft that names only what the roots lead to. -/
structure Draft.Led (arena : SchemaArena) (roots : List SchemaId) (d : Draft) : Prop where
  visited : ∀ id ∈ d.visited, arena.Leads roots id
  queue : ∀ entry ∈ d.queue, arena.Leads roots entry.1
  deferred : ∀ δ ∈ d.deferred, arena.Leads roots δ.schema

theorem Run.led (run : Run arena task slot d e log) (here : task.Meets (arena.Leads roots))
    (led : d.Led arena roots) : e.Led arena roots := by
  obtain ⟨logged, queued, owed⟩ := run.within (P := arena.Leads roots) (Q := arena.Leads roots)
    (fun _ _ leads needs => leads.onward needs.child_mem)
    (fun _ _ leads defers => leads.onward defers.child_mem) here led.queue led.deferred
  refine ⟨fun id member => ?_, queued, owed⟩
  rcases run.mem_visited.mp member with ⟨x, inside, rfl⟩ | earlier
  · exact logged x inside
  · exact led.visited id earlier

/-- A run goes the same way under other numbers. -/
theorem Run.renumber (renumbers : arena.Renumbers other f roots)
    (run : Run arena task slot d e log) (here : task.Meets (arena.Leads roots))
    (led : d.Led arena roots) :
    Run other (task.renumber f) slot (d.renumber f) (e.renumber f) (log.map (·.renumber f)) := by
  have unseen {i : SchemaId} {ids : List SchemaId} (leads : arena.Leads roots i)
      (all : ∀ j ∈ ids, arena.Leads roots j) (fresh : i ∉ ids) : f i ∉ ids.map f :=
    fun member => fresh ((renumbers.mem_map_iff leads all).mp member)
  induction run with
  | again seen =>
    rw [← shallowChecks_renumber renumbers here]
    exact .again (List.mem_map_of_mem seen)
  | @guarded id place slot d start opened body first later fresh nullable begun visit _ inside behind =>
    have inner : start.inner.Led arena roots := by
      subst begun
      exact ⟨led.visited, nofun, led.deferred⟩
    have also : start.renumber f =
        (d.renumber f).check place (shallowChecks other (other.node (f id)) false) := by
      rw [shallowChecks_renumber renumbers here, begun]
      rfl
    rw [List.map_append]
    exact .guarded (unseen here led.visited fresh) ((renumbers.acceptsNull here).trans nullable) also
      (inside here inner) (behind trivial (visit.led here inner))
  | plain fresh solid ends =>
    rw [← expandHere_renumber renumbers here]
    refine .plain (unseen here led.visited fresh) ?_ ?_
    · rwa [renumbers.acceptsNull here]
    · rw [soleVariant?_renumber renumbers here, ends]
      rfl
  | variant fresh solid sole _ inside =>
    have led_other := here.onward (SchemaArena.Needs.child_mem
      ((needs_iff .root).mpr (Or.inl sole)))
    have marked : Draft.Led arena roots (Draft.mark _ _) :=
      ⟨List.forall_mem_cons.mpr ⟨here, led.visited⟩, led.queue, led.deferred⟩
    refine .variant (unseen here led.visited fresh) ?_ ?_ (inside led_other marked)
    · rwa [renumbers.acceptsNull here]
    · rw [soleVariant?_renumber renumbers here, sole]
      rfl
  | done empty => exact .done (by simp [Draft.renumber, empty])
  | @next id place queue slot d e f first later ahead visit _ inside behind =>
    obtain ⟨first_led, rest_led⟩ := List.forall_mem_cons.mp (ahead ▸ led.queue)
    have shorter : Draft.Led arena roots { d with queue } := ⟨led.visited, rest_led, led.deferred⟩
    rw [List.map_append]
    refine .next ?_ (inside first_led shorter) (behind trivial (visit.led first_led shorter))
    simp [Draft.renumber, ahead]

theorem Settles.renumber {out settled : List Assertion} (renumbers : arena.Renumbers other f roots)
    (settles : Settles arena out d settled log) (led : d.Led arena roots) :
    Settles other out (d.renumber f) settled (log.map (·.renumber f)) := by
  induction settles with
  | done empty => exact .done (by simp [Draft.renumber, empty])
  | @next out settled next deferred d e first later ahead body _ ih =>
    obtain ⟨next_led, rest_led⟩ := List.forall_mem_cons.mp (ahead ▸ led.deferred)
    have start : Draft.Led arena roots { d with deferred, out := [], queue := [next.entry] } :=
      ⟨led.visited, List.forall_mem_singleton.mpr next_led, rest_led⟩
    have also : (d.renumber f).deferred = { next with schema := f next.schema } ::
        deferred.map fun δ => { δ with schema := f δ.schema } := by simp [Draft.renumber, ahead]
    rw [List.map_append]
    exact .next also (body.renumber renumbers trivial start) (ih (body.led trivial start))

/-- A schema has the same assertions under other numbers. -/
theorem Derives.renumber {root : SchemaId} {list : List Assertion}
    (renumbers : arena.Renumbers other f roots) (given : root ∈ roots)
    (derives : Derives arena root list first later) :
    Derives other (f root) list (first.map (·.renumber f)) (later.map (·.renumber f)) := by
  obtain ⟨d, settled, run, settles, rfl⟩ := derives
  have start : Draft.Led arena roots { queue := [(root, .root)] } :=
    ⟨nofun, List.forall_mem_singleton.mpr (.of_mem given), nofun⟩
  exact ⟨_, settled, run.renumber renumbers trivial start,
    settles.renumber renumbers (run.led trivial start), rfl⟩

end Derivation

namespace SchemaArena

variable {arena other : SchemaArena} {f : SchemaId → SchemaId} {roots : List SchemaId}
  {root : SchemaId}

/-- The steps granted to the two derivations differ, but both come to their end. -/
theorem Renumbers.assertions (renumbers : arena.Renumbers other f roots) (given : root ∈ roots)
    (closed : arena.Closed) (bound : root < arena.size) (also : other.Closed)
    (within : f root < other.size) : other.assertions (f root) = arena.assertions root := by
  obtain ⟨first, later, derives⟩ := derives_assertions closed bound
  obtain ⟨once, again, twin⟩ := derives_assertions also within
  exact (twin.unique (derives.renumber renumbers given)).1

end SchemaArena

end HttpPlan
