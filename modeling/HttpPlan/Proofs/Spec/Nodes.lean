import HttpPlan.Proofs.Resolution.Walk
import HttpPlan.Spec.Building

/-! What every node of a document has in common. A property that building a node gives it, whatever
the walks of its parts come to, belongs to every node of the document. -/
namespace HttpPlan

variable {P : SchemaNode → Prop}

namespace Resolver

variable {α β : Type} {r : Resolver} {pointer : String} {id : SchemaId} {node : SchemaNode}

/-- Every node in the arena has the property. -/
def Uniform (P : SchemaNode → Prop) (r : Resolver) : Prop := ∀ node ∈ r.arena.nodes, P node

/-- A step that keeps the property of every node, also when it fails, and whose result has another. -/
def Upholds (P : SchemaNode → Prop) (result : α → Prop) (x : Resolve α) : Prop :=
  ∀ r, Uniform P r → Yields x r (fun a t => result a ∧ Uniform P t) (fun _ t => Uniform P t)

/-- A property that every node has once it is built. -/
structure Lasting (P : SchemaNode → Prop) : Prop where
  blank : P {}
  text : P (.ofKind (.typed .string))
  named : ∀ pointer node, P node → P (definitionNode pointer node)
  built : ∀ walk schema location, (∀ value location, Upholds P (fun _ => True) (walk value location)) →
    Upholds P P (buildNode walk schema location)

theorem Uniform.push (uniform : Uniform P r) (given : P node) : Uniform P (r.push node) := by
  intro other member
  rcases List.mem_append.mp member with old | new
  · exact uniform other old
  · exact List.mem_singleton.mp new ▸ given

theorem Uniform.closed (uniform : Uniform P r) (given : P node) : Uniform P (r.closed id node) := by
  intro other member
  rcases List.mem_or_eq_of_mem_set member with old | rfl
  · exact uniform other old
  · exact given

theorem Uniform.rollback {m : Mark} (uniform : Uniform P r) : Uniform P (r.rollback m) :=
  fun node member => uniform node (List.mem_of_mem_take member)

theorem upholds_pure {result : α → Prop} {a : α} (given : result a) :
    Upholds P result (pure a) := fun _ uniform => ⟨given, uniform⟩

theorem upholds_throw {result : α → Prop} (error : BuildError) :
    Upholds P result (throw error) := fun _ uniform => uniform

theorem Upholds.bind {mid : α → Prop} {last : β → Prop} {x : Resolve α} {f : α → Resolve β}
    (first : Upholds P mid x) (next : ∀ a, mid a → Upholds P last (f a)) :
    Upholds P last (x >>= f) :=
  fun r uniform => (first r uniform).bind fun a t now => next a now.1 t now.2

theorem upholds_foldlM {σ ι : Type} {step : σ → ι → Resolve σ} {items : List ι}
    (each : ∀ item ∈ items, ∀ s, Upholds P (fun _ => True) (step s item)) (start : σ) :
    Upholds P (fun _ => True) (items.foldlM step start) := by
  induction items generalizing start with
  | nil => exact upholds_pure trivial
  | cons item rest ih =>
    rw [List.foldlM_cons]
    exact (each item (by simp) start).bind fun s _ => ih (fun i member => each i (by simp [member])) s

theorem upholds_alloc (given : P node) : Upholds P (fun _ => True) (alloc node) :=
  fun _ uniform => ⟨trivial, uniform.push given⟩

theorem Upholds.following {x : Resolve α} {result : α → Prop} (inner : Upholds P result x) :
    Upholds P result (following pointer x) :=
  fun r uniform => yields_following.mpr (inner (r.entered pointer) uniform)

variable {root : Json}

theorem upholds_reference {fuel : Nat} (lasting : Lasting P)
    (references : ∀ pointer, Upholds P (fun _ => True) (reference root fuel pointer))
    (schemas : ∀ value location, Upholds P (fun _ => True) (schema root fuel value location))
    (pointer : String) : Upholds P (fun _ => True) (reference root (fuel + 1) pointer) := by
  intro r uniform
  cases absent : r.memo.get? pointer with
  | some id =>
    rw [Yields, reference_met absent]
    exact ⟨trivial, uniform⟩
  | none =>
    cases found : root.lookup pointer with
    | error e =>
      rw [Yields, reference_missing absent found]
      exact uniform
    | ok target =>
      cases follows : target.reference? with
      | none =>
        have opened : Uniform P (r.opened pointer) :=
          Uniform.push (r := r) uniform lasting.blank
        apply yields_of_run (reference_definition absent found follows)
        refine (lasting.built _ target pointer schemas _ opened).bind ?_
        rintro node t ⟨given, now⟩
        exact ⟨trivial, now.closed (lasting.named pointer node given)⟩
      | some next =>
        by_cases met : pointer ∈ r.aliases
        · rw [Yields, reference_circular absent found follows met]
          exact uniform
        · apply yields_of_run (reference_alias absent found follows met)
          exact ((references next).following r uniform).bind fun id t now => ⟨trivial, now.2⟩

theorem upholds_schema {fuel : Nat} (lasting : Lasting P)
    (references : ∀ pointer, Upholds P (fun _ => True) (reference root fuel pointer))
    (schemas : ∀ value location, Upholds P (fun _ => True) (schema root fuel value location))
    (value : Json) (location : String) :
    Upholds P (fun _ => True) (schema root (fuel + 1) value location) := by
  unfold schema
  split
  · next pointer _ => exact references pointer
  · exact (lasting.built _ value location schemas).bind fun node given => upholds_alloc given

theorem upholds_walks (lasting : Lasting P) (fuel : Nat) :
    (∀ value location, Upholds P (fun _ => True) (schema root fuel value location)) ∧
      ∀ pointer, Upholds P (fun _ => True) (reference root fuel pointer) := by
  induction fuel with
  | zero =>
    constructor
    · intro value location
      unfold schema
      exact upholds_throw _
    · intro pointer
      unfold reference
      exact upholds_throw _
  | succ fuel ih =>
    exact ⟨upholds_schema lasting ih.2 ih.1, upholds_reference lasting ih.2 ih.1⟩

end Resolver

namespace Building

open Resolver

variable {root : Json} {label name path method : String} {source : Source} {p : Progress}

theorem upholds_schemaId (lasting : Lasting P) (value : Json) (location : String) :
    Upholds P (fun _ => True) (schemaId root value location) :=
  (upholds_walks lasting _).1 value location

theorem upholds_parameter (lasting : Lasting P) (place : ParameterLocation) (param : Json) :
    Upholds P (fun _ => True) (parameter root label name place param) := by
  have schema : ∀ location, Upholds P (fun _ => True) (parameterSchema root param location) := by
    intro location
    unfold parameterSchema
    split
    · exact upholds_schemaId lasting _ _
    · split
      · exact (lasting.built _ param location (upholds_walks lasting _).1).bind
          fun node given => upholds_alloc given
      · exact upholds_alloc lasting.text
  exact (schema _).bind fun id _ r uniform => ⟨trivial, uniform⟩

theorem upholds_addParameter (lasting : Lasting P) (inputs : Inputs) (raw : Json) :
    Upholds P (fun _ => True) (addParameter root label inputs raw) := by
  unfold addParameter
  split
  · exact upholds_throw _
  · split
    · exact upholds_pure trivial
    · dsimp only
      split
      · split
        · exact upholds_pure trivial
        · exact (upholds_schemaId lasting _ _).bind fun id _ => upholds_pure trivial
      · split
        · exact upholds_pure trivial
        · exact (upholds_parameter lasting _ _).bind fun q _ => upholds_pure trivial

theorem upholds_requestBody (lasting : Lasting P) (operation : Json) (body : Option SchemaId) :
    Upholds P (fun _ => True) (requestBody root label operation body) := by
  unfold requestBody
  split
  · exact upholds_pure trivial
  · split
    · exact upholds_throw _
    · split
      · exact upholds_pure trivial
      · exact (upholds_schemaId lasting _ _).bind fun id _ => upholds_pure trivial

theorem upholds_addResponse (lasting : Lasting P) (done : Responses × List Diagnostic)
    (entry : String × Json) :
    Upholds P (fun _ => True) (addResponse root label done entry) := by
  unfold addResponse
  dsimp only
  split
  · split
    · exact upholds_pure trivial
    · exact upholds_pure trivial
  · split
    · exact upholds_throw _
    · split
      · intro r uniform
        exact yields_bind.mpr ((upholds_schemaId lasting _ _ r uniform).bind
          fun id t now => ⟨trivial, now.2⟩)
      · exact upholds_pure trivial

theorem upholds_operation (lasting : Lasting P) (method path : String) (item operation : Json) :
    Upholds P (fun _ => True) (Building.operation source method path item operation) := by
  unfold Building.operation
  split
  · exact upholds_throw _
  · dsimp only
    refine (upholds_foldlM (fun raw _ inputs => upholds_addParameter lasting inputs raw) _).bind ?_
    intro inputs _
    split
    · exact upholds_throw _
    · refine (upholds_requestBody lasting operation inputs.body).bind fun body _ => ?_
      refine (upholds_foldlM (fun entry _ done => upholds_addResponse lasting done entry) _).bind ?_
      intro done _
      exact upholds_pure trivial

theorem uniform_addOperation (lasting : Lasting P) (item : Json) (entry : String × Json)
    (uniform : Uniform P p.resolver) :
    Uniform P (addOperation source path item p entry).resolver := by
  obtain ⟨method, raw⟩ := entry
  have reading : Upholds P (fun _ => True) (Building.operation source method path item raw) :=
    upholds_operation lasting method path item raw
  unfold addOperation
  dsimp only
  split
  · exact uniform
  · split
    · next run => exact (yields_ok run (reading _ uniform)).2
    · next run => exact (yields_error run (reading _ uniform)).rollback

theorem uniform_addPath (lasting : Lasting P) (entry : String × Json)
    (uniform : Uniform P p.resolver) : Uniform P (addPath source p entry).resolver := by
  unfold addPath
  dsimp only
  split
  · exact uniform
  · next item _ =>
    induction item.fields?.getD [] generalizing p with
    | nil => exact uniform
    | cons first rest ih => exact ih (uniform_addOperation lasting item first uniform)

theorem uniform_addPaths (lasting : Lasting P) (entries : List (String × Json))
    (uniform : Uniform P p.resolver) :
    Uniform P (entries.foldl (addPath source) p).resolver := by
  induction entries generalizing p with
  | nil => exact uniform
  | cons first rest ih => exact ih (uniform_addPath lasting first uniform)

theorem uniform_allPaths (lasting : Lasting P) : Uniform P (allPaths source).resolver := by
  have start : Uniform P ({} : Progress).resolver := fun node member => by cases member
  unfold allPaths
  split
  · exact uniform_addPaths lasting _ start
  · exact start

end Building

open Resolver in
theorem SpecDocument.forall_node {root : Json} {document : SpecDocument} (lasting : Lasting P)
    (built : ofJson root = .ok document) : ∀ node ∈ document.schemas.nodes, P node := by
  cases root with
  | object fields =>
    cases built
    exact Building.uniform_allPaths lasting
  | _ => cases built

end HttpPlan
