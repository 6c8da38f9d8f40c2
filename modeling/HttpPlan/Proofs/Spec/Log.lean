import HttpPlan.Proofs.Resolution.Log
import HttpPlan.Proofs.Spec.Provenance

/-! The log of a document: the schemas that the operations it keeps ask for the places of, one after
another. An operation that fails is rolled back and logs nothing. -/
namespace HttpPlan.Building

open Resolver

variable {source : Source} {root item raw param value operation : Json} {r s t : Resolver}
  {label method path location : String} {inputs : Inputs} {id : SchemaId} {errand : Errand}
  {p : Progress}

/-- What the schema of a parameter logs. A parameter without one stands for a schema of its own. -/
def parameterSchemaLog (root param : Json) (location : String) (r : Resolver) : Log :=
  match param.field? "schema" with
  | some schema => schemaLog root (budget root) schema location r
  | none =>
    (if (param.field? "type").isSome then
      nodeLog (schema root (budget root)) (schemaLog root (budget root)) param location r
    else []) ++ answer param (parameterSchema root param location) r

/-- What an entry of a parameter list logs. -/
def parameterLog (root : Json) (label : String) (raw : Json) (r : Resolver) : Log :=
  match root.deref raw with
  | .error _ => []
  | .ok param =>
    match param.stringField? "name" with
    | none => []
    | some name =>
      if (param.stringField? "in").getD "" = "body" then
        match param.field? "schema" with
        | none => []
        | some schema =>
          schemaLog root (budget root) schema (label ++ " body parameter '" ++ name ++ "'") r
      else
        match ParameterLocation.ofName? ((param.stringField? "in").getD "") with
        | none => []
        | some _ => parameterSchemaLog root param (label ++ " parameter '" ++ name ++ "'") r

def bodyLog (root : Json) (label : String) (operation : Json) (r : Resolver) : Log :=
  match operation.field? "requestBody" with
  | none => []
  | some raw =>
    match root.deref raw with
    | .error _ => []
    | .ok declared =>
      match declared.field? "content" >>= mediaSchema? with
      | none => []
      | some schema => schemaLog root (budget root) schema (label ++ " requestBody") r

def responseLog (root : Json) (label : String) (entry : String × Json) (r : Resolver) : Log :=
  match statusCode? entry.1 with
  | none => []
  | some code =>
    match root.deref entry.2 with
    | .error _ => []
    | .ok response =>
      match responseSchema? response with
      | none => []
      | some schema =>
        schemaLog root (budget root) schema (label ++ " response " ++ toString code) r

/-- What the reading of an operation logs: its parameters, its body and its responses. -/
def operationLog (root : Json) (label : String) (item operation : Json) : Resolver → Log :=
  thenLog ((parametersOf item operation).foldlM (addParameter root label) {})
    (foldLog (addParameter root label) (parameterLog root label) {} (parametersOf item operation))
    fun inputs =>
      thenLog (requestBody root label operation inputs.body) (bodyLog root label operation)
        fun _ => foldLog (addResponse root label) (responseLog root label) ([], [])
          (responsesOf operation)

/-- What the steps of a fold log that cannot fail. -/
def foldLogs {σ ι : Type} (step : σ → ι → σ) (log : σ → ι → Log) : σ → List ι → Log
  | _, [] => []
  | now, item :: rest => log now item ++ foldLogs step log (step now item) rest

def addOperationLog (source : Source) (path : String) (item : Json) (p : Progress)
    (entry : String × Json) : Log :=
  if methods.contains entry.1 then
    match Building.operation source entry.1 path item entry.2 p.resolver with
    | .ok _ _ => operationLog source.root (Building.label entry.1 path) item entry.2 p.resolver
    | .error _ _ => []
  else []

def addPathLog (source : Source) (p : Progress) (entry : String × Json) : Log :=
  match source.root.deref entry.2 with
  | .error _ => []
  | .ok item =>
    foldLogs (addOperation source entry.1 item) (addOperationLog source entry.1 item) p
      (item.fields?.getD [])

/-- What the whole document logs. -/
def pathsLog (source : Source) : Log :=
  match source.root.field? "paths" with
  | some (.object paths) => foldLogs (addPath source) (addPathLog source) {} paths
  | _ => []

section Members

variable {σ ι : Type} {before after : List ι} {entry : ι} {start mid : σ} {e : Json × SchemaId}

theorem mem_foldLog {step : σ → ι → Resolve σ} {log : ι → Resolver → Log}
    (run : before.foldlM step start r = .ok mid s) (member : e ∈ log entry s) :
    e ∈ foldLog step log start (before ++ entry :: after) r := by
  induction before generalizing start r with
  | nil =>
    cases run
    exact List.mem_append_left _ member
  | cons first rest ih =>
    rw [List.foldlM_cons] at run
    obtain ⟨next, t, taken, onward⟩ := run_bind run
    rw [List.cons_append, foldLog, thenLog_of_run taken]
    exact List.mem_append_right _ (ih onward)

theorem mem_foldLogs {step : σ → ι → σ} {log : σ → ι → Log}
    (member : e ∈ log (before.foldl step start) entry) :
    e ∈ foldLogs step log start (before ++ entry :: after) := by
  induction before generalizing start with
  | nil => exact List.mem_append_left _ member
  | cons first rest ih => exact List.mem_append_right _ (ih member)

end Members

theorem ParameterErrand.mem_log (sends : ParameterErrand root label raw errand)
    (asks : Asks root (budget root) errand r value id) :
    (value, id) ∈ parameterLog root label raw r := by
  have logged := asks.mem_log
  unfold parameterLog
  cases sends with
  | body found named place given =>
    simp only [found, named, if_pos place, given]
    exact logged
  | schema found named apart known given =>
    simp only [found, named, if_neg apart, known, parameterSchemaLog, given]
    exact logged
  | own found named apart known absent typed =>
    simp only [found, named, if_neg apart, known, parameterSchemaLog, absent, if_pos typed]
    exact List.mem_append_left _ logged

theorem BodyErrand.mem_log (sends : BodyErrand root label operation errand)
    (asks : Asks root (budget root) errand r value id) :
    (value, id) ∈ bodyLog root label operation r := by
  have logged := asks.mem_log
  unfold bodyLog
  cases sends with
  | intro field found given =>
    simp only [field, found, given]
    exact logged

theorem ResponseErrand.mem_log {entry : String × Json}
    (sends : ResponseErrand root label entry errand)
    (asks : Asks root (budget root) errand r value id) :
    (value, id) ∈ responseLog root label entry r := by
  have logged := asks.mem_log
  unfold responseLog
  cases sends with
  | intro status found given =>
    simp only [status, found, given]
    exact logged

/-- Whatever is asked for while an operation is read is in its log. -/
theorem Asked.mem_log (asked : Asked root label item operation r value id) :
    (value, id) ∈ operationLog root label item operation r := by
  unfold operationLog
  cases asked with
  | parameter list run sends asks =>
    rw [list]
    exact List.mem_append_left _ (mem_foldLog run (sends.mem_log asks))
  | body run sends asks =>
    rw [thenLog_of_run run]
    exact List.mem_append_right _ (List.mem_append_left _ (sends.mem_log asks))
  | response run requested list answered sends asks =>
    rw [thenLog_of_run run, thenLog_of_run requested, list]
    exact List.mem_append_right _ (List.mem_append_right _
      (mem_foldLog answered (sends.mem_log asks)))

/-- An operation that was kept has its log in that of the document. -/
theorem Met.mem_log {e : Json × SchemaId} {built : Operation × List Diagnostic} {after : Resolver}
    (met : Met source path item method operation p)
    (run : Building.operation source method path item operation p.resolver = .ok built after)
    (member : e ∈ operationLog source.root (Building.label method path) item operation p.resolver) :
    e ∈ pathsLog source := by
  cases met with
  | intro paths found fields known =>
    unfold pathsLog
    simp only [paths]
    refine mem_foldLogs ?_
    simp only [addPathLog, found, fields, Option.getD_some]
    refine mem_foldLogs ?_
    simp only [addOperationLog, List.contains_iff_mem.mpr known, if_true, run]
    exact member

theorem logged_schemaId (within : value.Within root) (here : Moved root r r)
    (run : schemaId root value location r = .ok id s) :
    Logged r s (schemaLog root (budget root) value location r) :=
  (logs root _).1 value location r s (fits_place within) here.1.valid here.2 ⟨id, run⟩

theorem logged_parameterSchema (plain : param.reference? = none) (within : param.Within root)
    (here : Moved root r r) (run : parameterSchema root param location r = .ok id s) :
    Logged r s (parameterSchemaLog root param location r) := by
  have found : answer param (parameterSchema root param location) r = [(param, id)] :=
    answer_of_run run
  unfold parameterSchemaLog
  unfold parameterSchema at run
  cases given : param.field? "schema" with
  | some schema =>
    simp only [given] at run ⊢
    exact logged_schemaId (within.field given) here run
  | none =>
    rw [found]
    simp only [given] at run ⊢
    cases typed : (param.field? "type").isSome with
    | true =>
      rw [typed] at run
      obtain ⟨node, t, built, placed⟩ := run_bind run
      cases placed
      have ends : (Errand.build param location).Ends root (budget root) r t := ⟨node, built⟩
      have moved := ends.moved (fits_whole within) here.1.valid here.2
      have parts := logs_finish (logs root _).1 _ _ r t (fits_whole within) here.1.valid here.2 ends
      exact parts.trans (logged_inline moved.1.valid plain)
    | false =>
      rw [typed] at run
      cases run
      exact logged_inline here.1.valid plain

theorem logged_parameter {now : Inputs} (within : raw.Within root) (here : Moved root r r)
    (run : addParameter root label inputs raw r = .ok now s) :
    Logged r s (parameterLog root label raw r) := by
  unfold addParameter at run
  unfold parameterLog
  cases found : root.deref raw with
  | error e => rw [found] at run; cases run
  | ok param =>
    have inside := Json.deref_within within found
    simp only [found] at run ⊢
    cases named : param.stringField? "name" with
    | none =>
      rw [named] at run
      cases run
      exact .refl r
    | some name =>
      simp only [named] at run ⊢
      by_cases place : (param.stringField? "in").getD "" = "body"
      · simp only [if_pos place] at run ⊢
        cases given : param.field? "schema" with
        | none =>
          rw [given] at run
          cases run
          exact .refl r
        | some schema =>
          rw [given] at run
          obtain ⟨id, t, placed, rest⟩ := run_bind run
          cases rest
          exact logged_schemaId (inside.field given) here placed
      · simp only [if_neg place] at run ⊢
        cases known : ParameterLocation.ofName? ((param.stringField? "in").getD "") with
        | none =>
          rw [known] at run
          cases run
          exact .refl r
        | some location =>
          rw [known] at run
          obtain ⟨p, t, read, rest⟩ := run_bind run
          cases rest
          obtain ⟨id, u, placed, rest⟩ := run_bind read
          cases rest
          exact logged_parameterSchema (Json.deref_isPlain found) inside here placed

theorem logged_requestBody {body now : Option SchemaId} (within : operation.Within root)
    (here : Moved root r r) (run : requestBody root label operation body r = .ok now s) :
    Logged r s (bodyLog root label operation r) := by
  unfold requestBody at run
  unfold bodyLog
  cases field : operation.field? "requestBody" with
  | none =>
    rw [field] at run
    cases run
    exact .refl r
  | some raw =>
    simp only [field] at run ⊢
    cases found : root.deref raw with
    | error e => rw [found] at run; cases run
    | ok declared =>
      simp only [found] at run ⊢
      cases given : declared.field? "content" >>= mediaSchema? with
      | none =>
        rw [given] at run
        cases run
        exact .refl r
      | some schema =>
        rw [given] at run
        obtain ⟨content, listed, media⟩ := Option.bind_eq_some_iff.mp given
        have inside := (Json.deref_within (within.field field) found).field listed
        obtain ⟨id, t, placed, rest⟩ := run_bind run
        cases rest
        exact logged_schemaId (mediaSchema?_within inside media) here placed

theorem logged_response {entry : String × Json} {before now : Responses × List Diagnostic}
    (within : entry.2.Within root) (here : Moved root r r)
    (run : addResponse root label before entry r = .ok now s) :
    Logged r s (responseLog root label entry r) := by
  unfold addResponse at run
  unfold responseLog
  cases status : statusCode? entry.1 with
  | none =>
    simp only [status] at run
    split at run
    · cases run; exact .refl r
    · cases run; exact .refl r
  | some code =>
    simp only [status] at run ⊢
    cases found : root.deref entry.2 with
    | error e => rw [found] at run; cases run
    | ok response =>
      simp only [found] at run ⊢
      cases given : responseSchema? response with
      | none =>
        rw [given] at run
        cases run
        exact .refl r
      | some schema =>
        rw [given] at run
        have inside := responseSchema?_within (Json.deref_within within found) given
        obtain ⟨answer, t, placed, rest⟩ := run_bind run
        cases rest
        obtain ⟨id, u, placed, rest⟩ := run_bind placed
        cases rest
        exact logged_schemaId inside here placed

theorem logged_foldLog {σ ι : Type} {step : σ → ι → Resolve σ} {log : ι → Resolver → Log}
    {items : List ι} {start last : σ} (moves : EachMoves root step items)
    (each : ∀ item ∈ items, ∀ now next s t, Moved root s s → step now item s = .ok next t →
      Logged s t (log item s))
    (here : Moved root r r) (run : items.foldlM step start r = .ok last s) :
    Logged r s (foldLog step log start items r) := by
  induction items generalizing start r with
  | nil =>
    cases run
    exact .refl _
  | cons item rest ih =>
    rw [List.foldlM_cons] at run
    obtain ⟨next, t, taken, onward⟩ := run_bind run
    have moved := moved_of_run (moves item List.mem_cons_self start r r here) taken
    rw [foldLog, thenLog_of_run taken]
    exact (each item List.mem_cons_self start next r t here taken).trans
      (ih (fun other member => moves other (List.mem_cons_of_mem _ member))
        (fun other member => each other (List.mem_cons_of_mem _ member)) moved.here onward)

/-- Reading an operation logs what the state that it comes to bears out. -/
theorem logged_operation {built : Operation × List Diagnostic} (here : Moved source.root r r)
    (item_within : item.Within source.root) (within : operation.Within source.root)
    (run : Building.operation source method path item operation r = .ok built s) :
    Logged r s (operationLog source.root (Building.label method path) item operation r) := by
  obtain ⟨inputs, t, body, u, done, listed, requested, answered⟩ := operation_runs run
  have each_parameter : EachMoves source.root
      (addParameter source.root (Building.label method path)) (parametersOf item operation) :=
    parameters_move item_within within
  have each_response : EachMoves source.root
      (addResponse source.root (Building.label method path)) (responsesOf operation) :=
    responses_move within
  have parameters := (each_parameter.moved here listed).here
  have bodies := (moved_of_run (leaves_requestBody within parameters) requested).here
  rw [operationLog, thenLog_of_run listed, thenLog_of_run requested]
  refine (logged_foldLog each_parameter (fun raw member now next v w there taken => ?_) here
    listed).trans ((logged_requestBody within parameters requested).trans
      (logged_foldLog each_response (fun entry member now next v w there taken => ?_) bodies
        answered))
  · exact logged_parameter (mem_parameters item_within within member) there taken
  · exact logged_response (mem_responses within member) there taken

theorem logged_addOperation {entry : String × Json} (accountable : Accountable source p)
    (item_within : item.Within source.root) (within : entry.2.Within source.root) :
    Logged p.resolver (addOperation source path item p entry).resolver
      (addOperationLog source path item p entry) := by
  obtain ⟨method, operation⟩ := entry
  have settled := accountable.toSettled
  by_cases known : method ∈ methods
  · cases run : Building.operation source method path item operation p.resolver with
    | error error broken =>
      have reading := yields_operation method path item_within within settled.valid
      rw [addOperation_error known run (settled.rollback (yields_error run reading))]
      simp only [addOperationLog, List.contains_iff_mem.mpr known, if_true, run]
      exact .refl _
    | ok built after =>
      rw [addOperation_ok known run]
      simp only [addOperationLog, List.contains_iff_mem.mpr known, if_true, run]
      exact logged_operation (.refl settled.valid accountable.recorded) item_within within run
  · have unknown : ¬ methods.contains method := fun listed => known (List.contains_iff_mem.mp listed)
    simp only [addOperation, addOperationLog, unknown]
    exact .refl _

theorem logged_foldLogs {ι : Type} {step : Progress → ι → Progress} {log : Progress → ι → Log}
    {items : List ι}
    (each : ∀ item ∈ items, ∀ p, Accountable source p → Accountable source (step p item) ∧
      Logged p.resolver (step p item).resolver (log p item)) (accountable : Accountable source p) :
    Logged p.resolver (items.foldl step p).resolver (foldLogs step log p items) := by
  induction items generalizing p with
  | nil => exact .refl _
  | cons item rest ih =>
    obtain ⟨onward, logged⟩ := each item List.mem_cons_self p accountable
    exact logged.trans (ih (fun other member => each other (List.mem_cons_of_mem _ member)) onward)

theorem logged_addPath {entry : String × Json} (accountable : Accountable source p)
    (within : entry.2.Within source.root) :
    Logged p.resolver (addPath source p entry).resolver (addPathLog source p entry) := by
  obtain ⟨path, raw⟩ := entry
  cases found : source.root.deref raw with
  | error error =>
    simp only [addPath, addPathLog, found]
    exact .refl _
  | ok item =>
    have item_within := Json.deref_within within found
    simp only [addPath, addPathLog, found]
    refine logged_foldLogs (fun entry member q there => ?_) accountable
    have inside := fields_within item_within member
    exact ⟨(there.addOperation item_within inside).accountable,
      logged_addOperation there item_within inside⟩

/-- A whole document logs what its resolver bears out in the end. -/
theorem logged_allPaths (source : Source) :
    Logged {} (allPaths source).resolver (pathsLog source) := by
  cases paths : source.root.field? "paths" with
  | none =>
    simp only [allPaths, pathsLog, paths]
    exact .refl _
  | some given =>
    cases given with
    | object entries =>
      simp only [allPaths, pathsLog, paths]
      refine logged_foldLogs (p := {}) (fun entry member q there => ?_) (.start source)
      have within := paths_within paths member
      exact ⟨(there.addPath within).accountable, logged_addPath there within⟩
    | _ =>
      simp only [allPaths, pathsLog, paths]
      exact .refl _

end HttpPlan.Building
