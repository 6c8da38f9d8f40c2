import HttpPlan.Proofs.Resolution.Shape
import HttpPlan.Proofs.Spec.Provenance

/-! The nodes of a document are in shape, but for the variants that are only the type of arrays. A
document has one of these just where an operation that it kept needs a schema with a list of types
that names arrays beside another type. -/
namespace HttpPlan

namespace Building

open Resolver

variable {source : Source} {root item raw param value operation : Json} {r s t u : Resolver}
  {label name method path location : String} {inputs : Inputs} {lax : Prop} {p : Progress}

/-- Walks of schemas that are spared keep the nodes in shape. -/
theorem upkeep_shaping
    (spared : ∀ value, Requests root item operation value → Spared root lax value) :
    Upkeep root item operation (Shaping root lax r) where
  place value location s requests within shaping :=
    ((formations root lax _).1 value location s within (spared value requests) shaping.1.valid
      shaping.2 (allowance_le_budget within s)).imp fun _ _ now => shaping.trans now.1
  own param location s requests plain within shaping := by
    have room := Nat.le_of_succ_le (allowance_le_budget within s)
    have built := leaves_buildNode_formed location (spared param requests) plain shaping.1.valid
      shaping.2 ((formations root lax _).1.parts within room)
    have ready : Yields (inlineNode root param location) s (Ready root s) (Stranded root s) :=
      yields_inlineNode within shaping.1.valid
    refine (built.and ready).imp fun node t ⟨⟨now, shaped⟩, _, below⟩ => ?_
    exact shaping.trans (now.push below (Or.inl shaped))
  text s shaping := shaping.push (SchemaNode.below_of_childless (SchemaNode.children_ofKind _) _)
    (Or.inl (SchemaNode.shaped_ofKind.mpr ⟨by simp, by simp⟩))

theorem shaping_operation {built : Operation × List Diagnostic}
    (spared : ∀ value, Requests source.root item operation value → Spared source.root lax value)
    (item_within : item.Within source.root) (within : operation.Within source.root)
    (valid : r.Valid source.root) (formed : Formed lax r)
    (run : Building.operation source method path item operation r = .ok built s) : Formed lax s :=
  ((upkeep_shaping spared).reading item_within within (.refl valid formed) run).2

/-- What one entry of a list leaves behind is there when the whole list has been gone through. -/
theorem EachMoves.knows {σ ι : Type} {step : σ → ι → Resolve σ} {items : List ι} {entry : ι}
    {start last : σ} (each : EachMoves root step items) (moved : Moved root r r)
    (run : items.foldlM step start r = .ok last s) (member : entry ∈ items)
    (leaves : ∀ mid t next v, Moved root t t → step mid entry t = .ok next v →
      ∃ u, u.Knows value ∧ Retains u v) : s.Knows value := by
  obtain ⟨before, after, rfl⟩ := List.append_of_mem member
  rw [List.foldlM_append] at run
  obtain ⟨mid, t, first, onward⟩ := run_bind run
  rw [List.foldlM_cons] at onward
  obtain ⟨next, v, taken, rest⟩ := run_bind onward
  have earlier : EachMoves root step before :=
    fun item inside => each item (List.mem_append_left _ inside)
  have later : EachMoves root step after :=
    fun item inside => each item (List.mem_append_right _ (List.mem_cons_of_mem _ inside))
  have reached := (earlier.moved moved first).here
  have passed := (moved_of_run (each entry member mid t t reached) taken).here
  obtain ⟨u, knows, retains⟩ := leaves mid t next v reached taken
  exact (knows.mono retains).mono (later.moved passed rest).1.retains

/-- Whatever an operation needs has left its place, or its node, once the operation has been read. -/
theorem Requests.knows {built : Operation × List Diagnostic} (moved : Moved source.root r r)
    (item_within : item.Within source.root) (within : operation.Within source.root)
    (requests : Requests source.root item operation value)
    (run : Building.operation source method path item operation r = .ok built s) :
    s.Knows value := by
  obtain ⟨inputs, t, body, u, done, listed, requested, answered⟩ := operation_runs run
  have each_parameter : EachMoves source.root
      (addParameter source.root (Building.label method path)) (parametersOf item operation) :=
    parameters_move item_within within
  have each_response : EachMoves source.root
      (addResponse source.root (Building.label method path)) (responsesOf operation) :=
    responses_move within
  have parameters := (each_parameter.moved moved listed).here
  have onward := moved_of_run (leaves_requestBody within parameters) requested
  have bodies := onward.here
  have told : Retains t u := onward.1.retains
  have answers : Retains u s := (each_response.moved bodies answered).1.retains
  cases requests with
  | @parameter raw param schema member found named place given =>
    obtain ⟨name, named⟩ := Option.isSome_iff_exists.mp named
    have inside := (Json.deref_within (mem_parameters item_within within member) found).field given
    suffices t.Knows _ from (this.mono told).mono answers
    refine each_parameter.knows moved listed member fun mid v next w now taken => ?_
    by_cases at_body : (param.stringField? "in").getD "" = "body"
    · have sends : ParameterErrand source.root (Building.label method path) raw _ :=
        .body found named at_body given
      obtain ⟨x, ends, retains⟩ := sends.ends taken
      exact ⟨x, ends.knows_place (fits_place inside) now.1.valid now.2, retains⟩
    · obtain ⟨place, known⟩ := Option.isSome_iff_exists.mp (place.resolve_left at_body)
      have sends : ParameterErrand source.root (Building.label method path) raw _ :=
        .schema found named at_body known given
      obtain ⟨x, ends, retains⟩ := sends.ends taken
      exact ⟨x, ends.knows_place (fits_place inside) now.1.valid now.2, retains⟩
  | @own raw param member found named apart place absent typed =>
    obtain ⟨name, named⟩ := Option.isSome_iff_exists.mp named
    obtain ⟨place, known⟩ := Option.isSome_iff_exists.mp place
    have inside := Json.deref_within (mem_parameters item_within within member) found
    suffices t.Knows _ from (this.mono told).mono answers
    refine each_parameter.knows moved listed member fun mid v next w now taken => ?_
    have sends : ParameterErrand source.root (Building.label method path) raw _ :=
      .own found named apart known absent typed
    obtain ⟨x, ends, retains⟩ := sends.ends taken
    exact ⟨x, ends.knows_build (Json.deref_isPlain found) inside
      (Nat.le_of_succ_le (allowance_le_budget inside v)) now.1.valid now.2, retains⟩
  | body field found given =>
    have sends : BodyErrand source.root (Building.label method path) operation _ :=
      .intro field found given
    have ends := sends.ends requested
    exact (ends.knows_place (sends.fits within) parameters.1.valid parameters.2).mono answers
  | @response entry response schema member status found given =>
    obtain ⟨code, status⟩ := Option.isSome_iff_exists.mp status
    refine each_response.knows bodies answered member fun mid v next w now taken => ?_
    have sends : ResponseErrand source.root (Building.label method path) entry _ :=
      .intro status found given
    have inside := mem_responses within member
    exact ⟨w, (sends.ends taken).knows_place (sends.fits inside) now.1.valid now.2, .refl w⟩

/-- What holds of the resolver at the start and not at the end was broken by an operation that was
kept. -/
theorem exists_breaking {motive : Resolver → Prop} (start : motive {})
    (broken : ¬ motive (allPaths source).resolver) :
    ∃ path item method raw p built after, Met source path item method raw p ∧ motive p.resolver ∧
      Building.operation source method path item raw p.resolver = .ok built after ∧
      ¬ motive after := by
  cases paths : source.root.field? "paths" with
  | none => exact absurd start (by simpa [allPaths, paths] using broken)
  | some given =>
    cases given with
    | object entries =>
      simp only [allPaths, paths] at broken
      obtain ⟨before, ⟨path, raw⟩, rest, rfl, held, breaks⟩ :=
        exists_step (motive := fun p : Progress => ¬ motive p.resolver)
          (Classical.not_not.mpr start) broken
      cases found : source.root.deref raw with
      | error error =>
        simp only [addPath, found] at breaks
        exact absurd breaks held
      | ok item =>
        simp only [addPath, found] at breaks
        obtain ⟨done, ⟨method, operation⟩, others, split, held, breaks⟩ :=
          exists_step (motive := fun p : Progress => ¬ motive p.resolver) held breaks
        have fields : item.fields? = some (done ++ (method, operation) :: others) := by
          cases fields : item.fields? with
          | none => simp [fields] at split
          | some entries => simpa [fields] using split
        by_cases known : method ∈ methods
        · have met : Met source path item method operation _ := .intro paths found fields known
          have within := met.within
          have settled := met.settled
          generalize done.foldl (addOperation source path item)
            (before.foldl (addPath source) {}) = p at held breaks met settled
          have reading := yields_operation method path within.1 within.2 settled.valid
          cases run : Building.operation source method path item operation p.resolver with
          | ok built after =>
            rw [addOperation_ok known run] at breaks
            exact ⟨path, item, method, operation, p, built, after, met, Classical.not_not.mp held,
              run, breaks⟩
          | error error after =>
            have undone := settled.rollback (yields_error run reading)
            rw [addOperation_error known run undone] at breaks
            exact absurd breaks held
        · exact absurd (by simpa [addOperation, known] using breaks) held
    | _ => exact absurd start (by simpa [allPaths, paths] using broken)

/-- An operation that a document keeps. -/
def Kept (source : Source) (item operation : Json) : Prop :=
  ∃ path method p built after, Met source path item method operation p ∧
    Building.operation source method path item operation p.resolver = .ok built after

theorem formed_allPaths
    (spared : ∀ item operation, Kept source item operation →
      ∀ value, Requests source.root item operation value → Spared source.root lax value) :
    Formed lax (allPaths source).resolver := by
  refine Classical.byContradiction fun broken => ?_
  obtain ⟨path, item, method, raw, p, built, after, met, formed, run, breaks⟩ :=
    exists_breaking formed_empty broken
  exact breaks (shaping_operation (spared item raw ⟨path, method, p, built, after, met, run⟩)
    met.within.1 met.within.2 met.settled.valid formed run)

/-- An operation that was kept and that needs a list of types that names arrays leaves its mark. -/
theorem Kept.mixed {part : Json} (kept : Kept source item operation)
    (requests : Requests source.root item operation value)
    (reaches : source.root.Reaches value part) (mixes : part.MixesArrays) :
    .ofKind (.typed .array) ∈ (allPaths source).resolver.arena.nodes := by
  obtain ⟨path, method, p, ⟨op, notes⟩, after, met, run⟩ := kept
  have accountable := met.accountable
  have moved := moved_operation (.refl accountable.valid accountable.recorded) met.within.1
    met.within.2 run
  have knows := requests.knows (.refl accountable.valid accountable.recorded) met.within.1
    met.within.2 run
  have finished : after.unfinished = [] := moved.1.unfinished.trans accountable.finished
  obtain ⟨id, stands⟩ := knows.mixed moved.2 finished reaches mixes
  exact ((met.retains run).stands id _ stands).mem

end Building

open Building Resolver in
/-- Arrays, and nothing else, have an element type, and unions, and nothing else, have variants,
whatever keywords a node was made of. What is out of shape is only the type of arrays, and some node
of a document is, just where an operation that it keeps needs a list of types that names arrays
beside another type. -/
theorem SpecDocument.ofJson_shaped {root : Json} {document : SpecDocument}
    (read : ofJson root = .ok document) :
    (∀ node ∈ document.schemas.nodes, node.Shaped ∨ node = .ofKind (.typed .array)) ∧
    ((∀ node ∈ document.schemas.nodes, node.Shaped) ↔
      ∀ item operation, Kept (.ofJson root) item operation →
        ∀ schema, Requests root item operation schema →
          ∀ part, root.Reaches schema part → ¬ part.MixesArrays) := by
  have schemas : document.schemas = (allPaths (.ofJson root)).resolver.arena := by
    cases root with
    | object fields => cases read; rfl
    | _ => cases read
  rw [schemas]
  have formed : Formed True (allPaths (.ofJson root)).resolver :=
    formed_allPaths fun _ _ _ _ _ _ _ _ => trivial
  refine ⟨fun node member => (formed.nodes node member).imp_right And.right, ?_, ?_⟩
  · intro shaped item operation kept schema requests part reaches mixes
    have bare := shaped _ (Kept.mixed kept requests reaches mixes)
    exact (SchemaNode.shaped_ofKind.mp bare).1 rfl
  · intro spared node member
    have strict : Formed False (allPaths (.ofJson root)).resolver :=
      formed_allPaths fun item operation kept value requests part reaches mixes =>
        spared item operation kept value requests part reaches mixes
    exact (strict.nodes node member).resolve_right And.left

/-- A document with one schema, which takes arrays and strings. -/
def mixedDocument : Json := .object [("paths", .object [("/a", .object [("get",
  Building.respondingWith (.object [("type", .array [.string "array", .string "string"])]))])])]

/-- An array without an element type. -/
theorem SpecDocument.array_without_items : ∃ document, ofJson mixedDocument = .ok document ∧
    ∃ node ∈ document.schemas.nodes, node.kind = .typed .array ∧ node.items = none :=
  ⟨_, rfl, .ofKind (.typed .array), List.mem_cons_self, rfl, rfl⟩

/-- Its one operation needs the list of types, which the arrays out of shape tell. -/
theorem SpecDocument.ofJson_shaped_mixed : ∃ document, ofJson mixedDocument = .ok document ∧
    (∀ node ∈ document.schemas.nodes, node.Shaped ∨ node = .ofKind (.typed .array)) ∧
    ∃ item operation schema part, Building.Kept (.ofJson mixedDocument) item operation ∧
      Building.Requests mixedDocument item operation schema ∧ mixedDocument.Reaches schema part ∧
      part.MixesArrays := by
  obtain ⟨document, read, array⟩ : ∃ document, ofJson mixedDocument = .ok document ∧
      .ofKind (.typed .array) ∈ document.schemas.nodes := ⟨_, rfl, List.mem_cons_self⟩
  obtain ⟨nodes, told⟩ := ofJson_shaped read
  refine ⟨document, read, nodes, Classical.byContradiction fun none => ?_⟩
  have shaped := told.mpr fun item operation kept schema requests part reaches mixes =>
    none ⟨item, operation, schema, part, kept, requests, reaches, mixes⟩
  exact (SchemaNode.shaped_ofKind.mp (shaped _ array)).1 rfl

end HttpPlan
