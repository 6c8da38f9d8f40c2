import HttpPlan.Proofs.Resolution.Calls
import HttpPlan.Proofs.Spec.Building

/-! The schemas that the reading of an operation asks the resolver for. When the operation has been
read, every answer is the place of a translation. -/
namespace HttpPlan.Building

open Resolver

variable {source : Source} {root item raw param value operation : Json} {r s t : Resolver}
  {label name method path location : String} {inputs : Inputs} {id : SchemaId} {errand : Errand}

/-- What an entry of a parameter list sends the resolver for. -/
inductive ParameterErrand (root : Json) (label : String) (raw : Json) : Errand → Prop
  | body {param schema : Json} {name : String} (found : root.deref raw = .ok param)
      (named : param.stringField? "name" = some name)
      (place : (param.stringField? "in").getD "" = "body")
      (given : param.field? "schema" = some schema) :
      ParameterErrand root label raw
        (.place schema (label ++ " body parameter '" ++ name ++ "'"))
  | schema {param schema : Json} {name : String} {place : ParameterLocation}
      (found : root.deref raw = .ok param) (named : param.stringField? "name" = some name)
      (apart : (param.stringField? "in").getD "" ≠ "body")
      (known : ParameterLocation.ofName? ((param.stringField? "in").getD "") = some place)
      (given : param.field? "schema" = some schema) :
      ParameterErrand root label raw (.place schema (label ++ " parameter '" ++ name ++ "'"))
  | own {param : Json} {name : String} {place : ParameterLocation}
      (found : root.deref raw = .ok param) (named : param.stringField? "name" = some name)
      (apart : (param.stringField? "in").getD "" ≠ "body")
      (known : ParameterLocation.ofName? ((param.stringField? "in").getD "") = some place)
      (absent : param.field? "schema" = none) (typed : (param.field? "type").isSome) :
      ParameterErrand root label raw (.build param (label ++ " parameter '" ++ name ++ "'"))

inductive BodyErrand (root : Json) (label : String) (operation : Json) : Errand → Prop
  | intro {raw declared schema : Json} (field : operation.field? "requestBody" = some raw)
      (found : root.deref raw = .ok declared)
      (given : (declared.field? "content" >>= mediaSchema?) = some schema) :
      BodyErrand root label operation (.place schema (label ++ " requestBody"))

inductive ResponseErrand (root : Json) (label : String) : String × Json → Errand → Prop
  | intro {key : String} {raw response schema : Json} {code : Nat}
      (status : statusCode? key = some code) (found : root.deref raw = .ok response)
      (given : responseSchema? response = some schema) :
      ResponseErrand root label (key, raw) (.place schema (label ++ " response " ++ toString code))

/-- The parameters of an operation, those of its path item first. -/
abbrev parametersOf (item operation : Json) : List Json :=
  parameterList item ++ parameterList operation

abbrev responsesOf (operation : Json) : List (String × Json) :=
  (operation.field? "responses" >>= Json.fields?).getD []

/-- The schemas that an operation needs the places of. -/
inductive Requests (root item operation : Json) : Json → Prop
  | parameter {raw param schema : Json} (listed : raw ∈ parametersOf item operation)
      (found : root.deref raw = .ok param) (named : (param.stringField? "name").isSome)
      (place : (param.stringField? "in").getD "" = "body" ∨
        (ParameterLocation.ofName? ((param.stringField? "in").getD "")).isSome)
      (given : param.field? "schema" = some schema) : Requests root item operation schema
  | own {raw param : Json} (listed : raw ∈ parametersOf item operation)
      (found : root.deref raw = .ok param) (named : (param.stringField? "name").isSome)
      (apart : (param.stringField? "in").getD "" ≠ "body")
      (place : (ParameterLocation.ofName? ((param.stringField? "in").getD "")).isSome)
      (absent : param.field? "schema" = none) (typed : (param.field? "type").isSome) :
      Requests root item operation param
  | body {raw declared schema : Json} (field : operation.field? "requestBody" = some raw)
      (found : root.deref raw = .ok declared)
      (given : (declared.field? "content" >>= mediaSchema?) = some schema) :
      Requests root item operation schema
  | response {entry : String × Json} {response schema : Json}
      (listed : entry ∈ responsesOf operation) (status : (statusCode? entry.1).isSome)
      (found : root.deref entry.2 = .ok response)
      (given : responseSchema? response = some schema) : Requests root item operation schema

/-- In the course of reading an operation, the place of a schema is asked for, and `id` is the
answer. -/
inductive Asked (root : Json) (label : String) (item operation : Json) (r : Resolver) :
    Json → SchemaId → Prop
  | parameter {before after : List Json} {raw value : Json} {inputs : Inputs} {s : Resolver}
      {errand : Errand} {id : SchemaId}
      (list : parametersOf item operation = before ++ raw :: after)
      (run : before.foldlM (addParameter root label) {} r = .ok inputs s)
      (sends : ParameterErrand root label raw errand)
      (asks : Asks root (budget root) errand s value id) :
      Asked root label item operation r value id
  | body {value : Json} {inputs : Inputs} {s : Resolver} {errand : Errand} {id : SchemaId}
      (run : (parametersOf item operation).foldlM (addParameter root label) {} r = .ok inputs s)
      (sends : BodyErrand root label operation errand)
      (asks : Asks root (budget root) errand s value id) :
      Asked root label item operation r value id
  | response {value : Json} {inputs : Inputs} {s t u : Resolver} {body : Option SchemaId}
      {before after : List (String × Json)} {entry : String × Json}
      {done : Responses × List Diagnostic} {errand : Errand} {id : SchemaId}
      (run : (parametersOf item operation).foldlM (addParameter root label) {} r = .ok inputs s)
      (requested : requestBody root label operation inputs.body s = .ok body t)
      (list : responsesOf operation = before ++ entry :: after)
      (answered : before.foldlM (addResponse root label) ([], []) t = .ok done u)
      (sends : ResponseErrand root label entry errand)
      (asks : Asks root (budget root) errand u value id) :
      Asked root label item operation r value id

theorem fits_place (within : value.Within root) :
    (Errand.place value location).Fits root (budget root) r :=
  ⟨within, allowance_le_budget within r⟩

theorem fits_whole (within : value.Within root) :
    (Errand.build value location).Fits root (budget root) r :=
  Errand.fits_build within (Nat.le_of_succ_le (allowance_le_budget within r))

theorem ParameterErrand.fits (sends : ParameterErrand root label raw errand)
    (within : raw.Within root) : errand.Fits root (budget root) r := by
  cases sends with
  | body found _ _ given => exact fits_place ((Json.deref_within within found).field given)
  | schema found _ _ _ given =>
    exact fits_place ((Json.deref_within within found).field given)
  | own found => exact fits_whole (Json.deref_within within found)

theorem BodyErrand.fits (sends : BodyErrand root label operation errand)
    (within : operation.Within root) : errand.Fits root (budget root) r := by
  cases sends with
  | intro field found given =>
    obtain ⟨content, field', media⟩ := Option.bind_eq_some_iff.mp given
    have declared := Json.deref_within (within.field field) found
    exact fits_place (mediaSchema?_within (declared.field field') media)

theorem ResponseErrand.fits {entry : String × Json} (sends : ResponseErrand root label entry errand)
    (within : entry.2.Within root) : errand.Fits root (budget root) r := by
  cases sends with
  | intro _ found given =>
    exact fits_place (responseSchema?_within (Json.deref_within within found) given)

theorem ParameterErrand.ends {now : Inputs} (sends : ParameterErrand root label raw errand)
    (run : addParameter root label inputs raw r = .ok now s) :
    ∃ t, errand.Ends root (budget root) r t ∧ Retains t s := by
  cases sends with
  | body found named place given =>
    unfold addParameter at run
    simp only [found, named, place, if_pos, given] at run
    obtain ⟨id, t, placed, rest⟩ := run_bind run
    cases rest
    exact ⟨_, ⟨id, placed⟩, .refl _⟩
  | schema found named apart known given =>
    unfold addParameter at run
    simp only [found, named, if_neg apart, known] at run
    obtain ⟨p, t, read, rest⟩ := run_bind run
    cases rest
    obtain ⟨id, u, placed, rest⟩ := run_bind read
    cases rest
    unfold parameterSchema at placed
    simp only [given] at placed
    exact ⟨_, ⟨id, placed⟩, .refl _⟩
  | own found named apart known absent typed =>
    unfold addParameter at run
    simp only [found, named, if_neg apart, known] at run
    obtain ⟨p, t, read, rest⟩ := run_bind run
    cases rest
    obtain ⟨id, u, placed, rest⟩ := run_bind read
    cases rest
    unfold parameterSchema at placed
    simp only [absent, if_pos typed] at placed
    obtain ⟨node, u, built, rest⟩ := run_bind placed
    cases rest
    exact ⟨u, ⟨node, built⟩, grows_push.retains fun _ _ member => member⟩

theorem BodyErrand.ends {body now : Option SchemaId}
    (sends : BodyErrand root label operation errand)
    (run : requestBody root label operation body r = .ok now s) :
    errand.Ends root (budget root) r s := by
  cases sends with
  | intro field found given =>
    unfold requestBody at run
    simp only [field, found, given] at run
    obtain ⟨id, t, placed, rest⟩ := run_bind run
    cases rest
    exact ⟨id, placed⟩

theorem ResponseErrand.ends {entry : String × Json} {before now : Responses × List Diagnostic}
    (sends : ResponseErrand root label entry errand)
    (run : addResponse root label before entry r = .ok now s) :
    errand.Ends root (budget root) r s := by
  cases sends with
  | intro status found given =>
    unfold addResponse at run
    simp only [status, found, given] at run
    obtain ⟨answer, t, placed, rest⟩ := run_bind run
    cases rest
    obtain ⟨id, u, placed, rest⟩ := run_bind placed
    cases rest
    exact ⟨id, placed⟩

section Lists

variable {σ ι : Type} {step : σ → ι → Resolve σ} {items before after : List ι} {entry : ι}
  {start mid last : σ}

/-- A step for each entry of a list that moves the state on. -/
def EachMoves (root : Json) (step : σ → ι → Resolve σ) (items : List ι) : Prop :=
  ∀ item ∈ items, ∀ now r s, Moved root r s → Leaves (step now item) s fun _ t => Moved root r t

theorem EachMoves.moved (each : EachMoves root step items) (moved : Moved root t r)
    (run : items.foldlM step start r = .ok last s) : Moved root t s :=
  moved_of_run (yields_foldlM (fun item member now u => each item member now t u) moved) run

/-- A list that was gone through was gone through entry by entry. -/
theorem run_entry (run : (before ++ entry :: after).foldlM step start r = .ok last s)
    (first : before.foldlM step start r = .ok mid t) :
    ∃ next u, step mid entry t = .ok next u ∧ after.foldlM step next u = .ok last s := by
  rw [List.foldlM_append] at run
  obtain ⟨again, u, same, onward⟩ := run_bind run
  cases first.symm.trans same
  rw [List.foldlM_cons] at onward
  exact run_bind onward

/-- What is asked for at one entry is translated when the whole list has been gone through. -/
theorem EachMoves.translates (each : EachMoves root step (before ++ entry :: after))
    (moved : Moved root r r) (run : (before ++ entry :: after).foldlM step start r = .ok last s)
    (first : before.foldlM step start r = .ok mid t) (fits : errand.Fits root (budget root) t)
    (asks : Asks root (budget root) errand t value id)
    (ends : ∀ next v, step mid entry t = .ok next v →
      ∃ u, errand.Ends root (budget root) t u ∧ Retains u v) : s.Translates value id := by
  obtain ⟨next, v, taken, rest⟩ := run_entry run first
  obtain ⟨u, ended, retains⟩ := ends next v taken
  have earlier : EachMoves root step before :=
    fun item member => each item (List.mem_append_left _ member)
  have later : EachMoves root step after :=
    fun item member => each item (List.mem_append_right _ (List.mem_cons_of_mem _ member))
  have reached := earlier.moved moved first
  have passed := moved_of_run
    (each entry (List.mem_append_right _ List.mem_cons_self) mid t t reached.here) taken
  have answered := asks.translates fits reached.1.valid reached.2 ended
  exact (answered.mono retains).mono (later.moved passed.here rest).1.retains

end Lists

/-- What stays true while an operation is read, as long as it stays true wherever the place of a
schema that the operation needs is asked for. -/
structure Upkeep (root item operation : Json) (kept : Resolver → Prop) : Prop where
  place : ∀ value location s, Requests root item operation value → value.Within root → kept s →
    Leaves (schemaId root value location) s fun _ t => kept t
  own : ∀ param location s, Requests root item operation param → param.reference? = none →
    param.Within root → kept s →
    Leaves (inlineNode root param location) s fun node t => kept (t.push node)
  text : ∀ s, kept s → kept (s.push (.ofKind (.typed .string)))

namespace Upkeep

variable {kept : Resolver → Prop} (upkeep : Upkeep root item operation kept)
include upkeep

theorem parameterSchema (plain : param.reference? = none) (within : param.Within root)
    (given : ∀ schema, param.field? "schema" = some schema → Requests root item operation schema)
    (own : param.field? "schema" = none → (param.field? "type").isSome →
      Requests root item operation param) (here : kept s) :
    Leaves (Building.parameterSchema root param location) s fun _ t => kept t := by
  unfold Building.parameterSchema
  split
  · next schema found =>
    exact upkeep.place schema _ s (given schema found) (within.field found) here
  · next absent =>
    split
    · next typed =>
      exact (upkeep.own param _ s (own absent typed) plain within here).bind fun node t now => now
    · exact upkeep.text s here

theorem addParameter (listed : raw ∈ parametersOf item operation) (within : raw.Within root)
    (here : kept s) :
    Leaves (Building.addParameter root label inputs raw) s fun _ t => kept t := by
  unfold Building.addParameter
  split
  · trivial
  · next param found =>
    have inside := Json.deref_within within found
    split
    · exact here
    · next name named =>
      have named : (param.stringField? "name").isSome := by rw [named]; rfl
      dsimp only
      split
      · next body =>
        split
        · exact here
        · next schema given =>
          have needed : Requests root item operation schema :=
            .parameter listed found named (Or.inl body) given
          exact (upkeep.place schema _ s needed (inside.field given) here).bind fun id t now => now
      · next apart =>
        split
        · exact here
        · next place known =>
          have known : (ParameterLocation.ofName? ((param.stringField? "in").getD "")).isSome := by
            rw [known]; rfl
          refine Yields.bind ?_ fun p t now => now
          refine Yields.bind ?_ fun id t now => now
          exact upkeep.parameterSchema (Json.deref_isPlain found) inside
            (fun schema given => .parameter listed found named (Or.inr known) given)
            (fun absent typed => .own listed found named apart known absent typed) here

theorem requestBody {body : Option SchemaId} (within : operation.Within root) (here : kept s) :
    Leaves (Building.requestBody root label operation body) s fun _ t => kept t := by
  unfold Building.requestBody
  split
  · exact here
  · next raw field =>
    split
    · trivial
    · next declared found =>
      split
      · exact here
      · next schema given =>
        obtain ⟨content, listed, media⟩ := Option.bind_eq_some_iff.mp given
        have inside := (Json.deref_within (within.field field) found).field listed
        exact (upkeep.place schema _ s (.body field found given)
          (mediaSchema?_within inside media) here).bind fun id t now => now

theorem addResponse {entry : String × Json} {done : Responses × List Diagnostic}
    (listed : entry ∈ responsesOf operation) (within : entry.2.Within root) (here : kept s) :
    Leaves (Building.addResponse root label done entry) s fun _ t => kept t := by
  unfold Building.addResponse
  dsimp only
  split
  · split
    · exact here
    · exact here
  · next code status =>
    split
    · trivial
    · next response found =>
      split
      · next schema given =>
        have inside := responseSchema?_within (Json.deref_within within found) given
        have needed : Requests root item operation schema :=
          .response listed (by rw [status]; rfl) found given
        exact yields_bind.mpr
          ((upkeep.place schema _ s needed inside here).bind fun id t now => now)
      · exact here

end Upkeep

theorem operation_runs {built : Operation × List Diagnostic}
    (run : Building.operation source method path item operation r = .ok built s) :
    ∃ inputs t body u done,
      (parametersOf item operation).foldlM
        (addParameter source.root (Building.label method path)) {} r = .ok inputs t ∧
      requestBody source.root (Building.label method path) operation inputs.body t = .ok body u ∧
      (responsesOf operation).foldlM (addResponse source.root (Building.label method path))
        ([], []) u = .ok done s := by
  unfold Building.operation at run
  cases parsed : PathTemplate.parse path with
  | error error => rw [parsed] at run; cases run
  | ok template =>
    rw [parsed] at run
    obtain ⟨inputs, t, listed, run⟩ := run_bind run
    dsimp only at run
    cases checked : template.checkParameters
        ((inputs.parameters.values.filter (·.location = .path)).map Parameter.name) with
    | error error => rw [checked] at run; cases run
    | ok _ =>
      rw [checked] at run
      obtain ⟨body, u, requested, run⟩ := run_bind run
      obtain ⟨⟨responses, notes⟩, w, answered, run⟩ := run_bind run
      cases run
      exact ⟨inputs, t, body, u, _, listed, requested, answered⟩

theorem Upkeep.reading {kept : Resolver → Prop} {built : Operation × List Diagnostic}
    (upkeep : Upkeep source.root item operation kept) (item_within : item.Within source.root)
    (within : operation.Within source.root) (here : kept r)
    (run : Building.operation source method path item operation r = .ok built s) : kept s := by
  obtain ⟨inputs, t, body, u, done, listed, requested, answered⟩ := operation_runs run
  have parameters : Leaves ((parametersOf item operation).foldlM
      (Building.addParameter source.root (Building.label method path)) {}) r fun _ t => kept t :=
    yields_foldlM (fun raw member _ _ now =>
      upkeep.addParameter member (mem_parameters item_within within member) now) here
  have bodies := yields_ok requested (upkeep.requestBody within (yields_ok listed parameters))
  have responses : Leaves ((responsesOf operation).foldlM
      (Building.addResponse source.root (Building.label method path)) ([], [])) u
      fun _ t => kept t :=
    yields_foldlM (fun entry member _ _ now =>
      upkeep.addResponse member (mem_responses within member) now) bodies
  exact yields_ok answered responses

/-- Walks move the state on, whatever the schemas are. -/
theorem upkeep_moved : Upkeep root item operation (Moved root t) where
  place value location s _ within moved :=
    ((translations root _).1 value location s within moved.1.valid moved.2
      (allowance_le_budget within s)).imp fun _ _ now => moved.trans now.1
  own param location s _ _ within moved := by
    have room := Nat.le_of_succ_le (allowance_le_budget within s)
    have built := leaves_buildNode location moved.1.valid moved.2
      ((translations root _).1.parts within room)
    have ready : Yields (inlineNode root param location) s (Ready root s) (Stranded root s) :=
      yields_inlineNode within moved.1.valid
    refine (built.and ready).imp fun node u ⟨⟨now, _⟩, _, below⟩ => ?_
    exact moved.trans ⟨now.1.push below, now.2.push⟩
  text s moved := moved.trans ⟨(Advances.refl moved.1.valid).push
    (SchemaNode.below_of_childless (SchemaNode.children_ofKind _) _), moved.2.push⟩

theorem parameters_move (item_within : item.Within root) (within : operation.Within root) :
    EachMoves root (addParameter root label) (parametersOf item operation) :=
  fun _ member _ _ _ moved =>
    upkeep_moved.addParameter member (mem_parameters item_within within member) moved

theorem leaves_requestBody {body : Option SchemaId} (within : operation.Within root)
    (moved : Moved root t r) :
    Leaves (requestBody root label operation body) r fun _ s => Moved root t s := by
  have upkeep : Upkeep root .null operation (Moved root t) := upkeep_moved
  exact upkeep.requestBody within moved

theorem responses_move (within : operation.Within root) :
    EachMoves root (addResponse root label) (responsesOf operation) := by
  have upkeep (t : Resolver) : Upkeep root .null operation (Moved root t) := upkeep_moved
  exact fun _ member _ t _ moved =>
    (upkeep t).addResponse member (mem_responses within member) moved

theorem moved_operation {built : Operation × List Diagnostic} (moved : Moved source.root r r)
    (item_within : item.Within source.root) (within : operation.Within source.root)
    (run : Building.operation source method path item operation r = .ok built s) :
    Moved source.root r s :=
  upkeep_moved.reading item_within within moved run

/-- Whatever is asked for while an operation is read, the answer is the place of a translation once
the operation has been read. -/
theorem Asked.translates {built : Operation × List Diagnostic} (moved : Moved source.root r r)
    (item_within : item.Within source.root) (within : operation.Within source.root)
    (asked : Asked source.root (Building.label method path) item operation r value id)
    (run : Building.operation source method path item operation r = .ok built s) :
    s.Translates value id := by
  obtain ⟨inputs, t, body, u, done, listed, requested, answered⟩ := operation_runs run
  have each_parameter : EachMoves source.root
      (addParameter source.root (Building.label method path)) (parametersOf item operation) :=
    parameters_move item_within within
  have each_response : EachMoves source.root
      (addResponse source.root (Building.label method path)) (responsesOf operation) :=
    responses_move within
  have parameters := each_parameter.moved moved listed
  have bodies := moved_of_run (leaves_requestBody within parameters.here) requested
  have answers := each_response.moved bodies.here answered
  cases asked with
  | @parameter before after raw value inputs v errand id list first sends asks =>
    have entry := mem_parameters item_within within
      (list ▸ List.mem_append_right before List.mem_cons_self)
    rw [list] at listed each_parameter
    have told := each_parameter.translates moved listed first (sends.fits entry) asks
      fun next w taken => sends.ends taken
    exact told.mono (bodies.1.retains.trans answers.1.retains)
  | body first sends asks =>
    cases first.symm.trans listed
    have told := asks.translates (sends.fits within) parameters.1.valid parameters.2
      (sends.ends requested)
    exact told.mono answers.1.retains
  | @response value inputs v w x body before after entry done errand id first again list earlier
      sends asks =>
    cases first.symm.trans listed
    cases again.symm.trans requested
    have inside := mem_responses within (list ▸ List.mem_append_right before List.mem_cons_self)
    rw [list] at answered each_response
    exact each_response.translates bodies.here answered earlier (sends.fits inside) asks
      fun next y taken => ⟨y, sends.ends taken, .refl y⟩

end HttpPlan.Building
