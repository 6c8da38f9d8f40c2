import HttpPlan.Plan.HttpFile
import HttpPlan.Proofs.Json.Printer
import HttpPlan.Proofs.Plan.Paths

/-! The texts of a plan that its request file takes over as they are: labels, summaries, names and
patterns, and what headers hold. The lines of the file stay lines where these texts do; all other
text is escaped. -/
namespace HttpPlan

open Text

variable {document : SpecDocument} {config : Config} {op : Operation} {baseUrl : String}

theorem Percent.unbroken_encode (s : String) : Unbroken (encode s) :=
  fun inside => absurd ((encoded_encode s).mem inside) (by decide)

/-- The keys of a segment. -/
def LocatorSegment.names : LocatorSegment → List String
  | key name => [name]
  | index _ => []

theorem LocatorSegment.unbroken_text {segment : LocatorSegment} :
    Unbroken segment.text ↔ ∀ name ∈ segment.names, Unbroken name := by
  cases segment with
  | key name => simpa [text, names] using fun _ => show Unbroken "." by decide
  | index position =>
    have brackets : Unbroken "[" ∧ Unbroken "]" := by decide
    simp [text, names, unbroken_repr, brackets]

def Locator.names (l : Locator) : List String := l.segments.flatMap LocatorSegment.names

theorem Locator.unbroken_text {l : Locator} :
    Unbroken l.text ↔ ∀ name ∈ l.names, Unbroken name := by
  have mark : Unbroken "$" := by decide
  simp only [text, names, unbroken_append, mark, true_and, unbroken_join, List.forall_mem_map,
    LocatorSegment.unbroken_text, List.forall_mem_flatMap]

/-- The texts that a check is described with. -/
def Check.names : Check → List String
  | hasRequiredKeys keys => keys
  | matchesPattern pattern => [pattern]
  | _ => []

theorem unbroken_bounds {α : Type} {low high : α → String} (minimum maximum : Option α)
    (below : ∀ m, Unbroken (low m)) (above : ∀ m, Unbroken (high m)) :
    ∀ bound ∈ (minimum.map low).toList ++ (maximum.map high).toList, Unbroken bound := by
  intro bound member
  rcases List.mem_append.mp member with member | member <;>
    obtain ⟨m, -, rfl⟩ := Option.map_eq_some_iff.mp (Option.mem_toList.mp member)
  · exact below m
  · exact above m

theorem Check.unbroken_detail {check : Check} :
    Unbroken check.detail ↔ ∀ name ∈ check.names, Unbroken name := by
  -- Types, bounds and enum values break no line: nothing is asked of these checks.
  have always {separator : String} {parts : List String} (plain : Unbroken separator)
      (each : ∀ part ∈ parts, Unbroken part) :
      Unbroken (separator.intercalate parts) ↔ ∀ name ∈ ([] : List String), Unbroken name :=
    iff_of_true ((unbroken_intercalate plain).mpr each) (List.forall_mem_nil _)
  cases check with
  | hasRequiredKeys keys => exact unbroken_intercalate (by decide)
  | matchesPattern pattern => simp [detail, names]
  | isType types =>
    have named (type : JsonType) : Unbroken type.name := by cases type <;> decide
    exact always (by decide) (List.forall_mem_map.mpr fun type _ => named type)
  | enumMembership allowed =>
    exact always (by decide) (List.forall_mem_map.mpr fun v _ => Json.unbroken_compact v)
  | numericRange minimum maximum exclusiveMinimum exclusiveMaximum =>
    exact always (by decide) (unbroken_bounds minimum maximum
      (fun m => unbroken_append.mpr ⟨by split <;> decide, Layout.unbroken_write _ m⟩)
      (fun m => unbroken_append.mpr ⟨by split <;> decide, Layout.unbroken_write _ m⟩))
  | lengthBound minLength maxLength =>
    exact always (by decide) (unbroken_bounds minLength maxLength
      (fun m => unbroken_append.mpr ⟨by decide, unbroken_repr m⟩)
      (fun m => unbroken_append.mpr ⟨by decide, unbroken_repr m⟩))

def Guard.names : Guard → List String
  | ifPresent key => [key]
  | _ => []

namespace Assertion

/-- The texts that an assertion is described with. What a guard leads to is only counted. -/
def names : Assertion → List String
  | check target c => target.names ++ c.names
  | guarded target guard _ => target.names ++ guard.names

theorem unbroken_describe {a : Assertion} :
    Unbroken a.describe ↔ ∀ name ∈ a.names, Unbroken name := by
  have space : Unbroken " " := by decide
  cases a with
  | check target c =>
    have title : Unbroken c.name := by cases c <;> simp [Check.name, Unbroken]
    simp only [describe, names, unbroken_append, space, title, and_true, List.forall_mem_append,
      Locator.unbroken_text, Check.unbroken_detail]
  | guarded target guard body =>
    have title : Unbroken guard.name := by cases guard <;> simp [Guard.name, Unbroken]
    have nested : Unbroken ("(" ++ toString (count body) ++ " nested)") :=
      unbroken_append.mpr ⟨unbroken_append.mpr ⟨by decide, unbroken_repr _⟩, by decide⟩
    simp only [describe]
    generalize "(" ++ toString (count body) ++ " nested)" = detail at nested ⊢
    cases guard <;>
      simp only [names, Guard.names, unbroken_append, space, title, nested, and_true,
        List.forall_mem_append, List.forall_mem_singleton, List.append_nil, Locator.unbroken_text]

end Assertion

/-- The name of the parameter that a scenario is about. -/
def ScenarioKind.names : ScenarioKind → List String
  | missingRequiredParameter parameter _ => [parameter]
  | notFound parameter => [parameter]
  | _ => []

theorem ScenarioKind.unbroken_describe {kind : ScenarioKind} :
    Unbroken kind.describe ↔ ∀ name ∈ kind.names, Unbroken name := by
  cases kind with
  | missingRequiredParameter parameter location =>
    have place : '\n' ∉ location.name.toList := by cases location <;> decide
    show Unbroken ("rejects missing required " ++ location.name ++ " parameter '" ++ parameter ++
      "'") ↔ ∀ name ∈ [parameter], Unbroken name
    simp [Unbroken, place]
  | notFound parameter =>
    show Unbroken ("returns not found for an absent '" ++ parameter ++ "'") ↔
      ∀ name ∈ [parameter], Unbroken name
    simp [Unbroken]
  | _ => exact iff_of_true (by decide +kernel) (List.forall_mem_nil _)

theorem unbroken_fileVariable (plain : Unbroken baseUrl) : Unbroken (fileVariable baseUrl) :=
  unbroken_append.mpr ⟨unbroken_append.mpr ⟨by decide, plain⟩, by decide⟩

namespace RequestPlan

variable {request : RequestPlan}

def requestLine (baseUrl : String) (request : RequestPlan) : String :=
  request.method ++ " " ++ fileVariable baseUrl ++ request.pathAndQuery

/-- What the header lines hold. -/
def headerTexts (request : RequestPlan) : List String :=
  request.headers.entries.flatMap fun (name, value) => [name, value]

theorem unbroken_pathAndQuery : Unbroken request.pathAndQuery ↔ Unbroken request.path := by
  unfold pathAndQuery
  split
  · exact Iff.rfl
  · have query : Unbroken ("&".intercalate (request.query.entries.map queryEntry)) := by
      refine (unbroken_intercalate (by decide)).mpr (List.forall_mem_map.mpr fun entry _ => ?_)
      exact unbroken_append.mpr ⟨unbroken_append.mpr ⟨Percent.unbroken_encode _, by decide⟩,
        Percent.unbroken_encode _⟩
    have mark : Unbroken "?" := by decide
    simp only [unbroken_append, mark, query, and_true]

theorem unbroken_requestLine (plain : Unbroken baseUrl) :
    Unbroken (request.requestLine baseUrl) ↔ Unbroken request.method ∧ Unbroken request.path := by
  have space : Unbroken " " := by decide
  simp only [requestLine, unbroken_append, space, unbroken_fileVariable plain, and_true,
    unbroken_pathAndQuery]

theorem unbroken_headerLines :
    (∀ line ∈ request.headerLines, Unbroken line) ↔ ∀ text ∈ request.headerTexts, Unbroken text := by
  have colon : Unbroken ": " := by decide
  have json : ∀ line ∈ (if request.body.isSome &&
      !request.headers.keys.any (Text.sameIgnoringCase "content-type") then
      ["Content-Type: application/json"] else []), Unbroken line := by
    intro line member
    split at member
    · exact List.mem_singleton.mp member ▸ by decide +kernel
    · cases member
  simp only [headerLines, headerTexts, List.forall_mem_append, List.forall_mem_map,
    List.forall_mem_flatMap, unbroken_append, colon, and_true, List.forall_mem_cons,
    and_iff_left json, List.not_mem_nil, false_implies, implies_true]

theorem unbroken_bodyLines : ∀ line ∈ request.bodyLines, Unbroken line := by
  unfold bodyLines
  split
  · exact List.forall_mem_cons.mpr ⟨by decide, fun line member =>
      (Json.printed_prettyLines _ line member).unbroken⟩
  · exact List.forall_mem_nil _

end RequestPlan

/-- The texts that the block of a scenario takes over as they are, apart from its label. -/
def ScenarioPlan.texts (s : ScenarioPlan) : List String :=
  s.kind.names ++ s.assertions.flatMap Assertion.names ++ s.request.headerTexts

/-- The comments that stand over a request. -/
def ScenarioPlan.remarks (s : ScenarioPlan) : List String :=
  ["### " ++ s.name, "# expect " ++ toString s.expectedStatus] ++
    s.assertions.map fun a => "# assert " ++ a.describe

theorem ScenarioPlan.httpLines_eq {s : ScenarioPlan} : s.httpLines baseUrl =
    s.remarks ++ [s.request.requestLine baseUrl] ++ s.request.headerLines ++ s.request.bodyLines :=
  rfl

theorem ScenarioPlan.unbroken_httpLines {s : ScenarioPlan} (plain : Unbroken baseUrl) :
    (∀ line ∈ s.httpLines baseUrl, Unbroken line) ↔
      Unbroken s.name ∧ (∀ a ∈ s.assertions, ∀ name ∈ a.names, Unbroken name) ∧
        (Unbroken s.request.method ∧ Unbroken s.request.path) ∧
        ∀ text ∈ s.request.headerTexts, Unbroken text := by
  have lead : Unbroken "### " ∧ Unbroken "# assert " := by decide +kernel
  have status : Unbroken ("# expect " ++ toString s.expectedStatus) :=
    unbroken_append.mpr ⟨by decide +kernel, unbroken_repr _⟩
  simp only [httpLines_eq, remarks, List.forall_mem_append, List.forall_mem_cons,
    List.forall_mem_map, List.not_mem_nil, false_implies, implies_true, status,
    and_iff_left RequestPlan.unbroken_bodyLines, RequestPlan.unbroken_headerLines,
    RequestPlan.unbroken_requestLine plain, unbroken_append, Assertion.unbroken_describe, lead,
    true_and, and_true, and_assoc]

/-- The texts that an operation's part of the file takes over as they are. -/
def OperationPlan.texts (op : OperationPlan) : List String :=
  op.operation :: op.summary.toList ++ op.scenarios.flatMap ScenarioPlan.texts

/-- The comment over an operation with a summary, and a blank line. -/
def OperationPlan.remarks (op : OperationPlan) : List String :=
  match op.summary with
  | some summary => ["# " ++ op.operation ++ ": " ++ summary, ""]
  | none => []

theorem OperationPlan.httpLines_eq {op : OperationPlan} : op.httpLines baseUrl =
    op.remarks ++ op.scenarios.flatMap fun s => s.httpLines baseUrl ++ ["", "###", ""] := rfl

theorem OperationPlan.unbroken_httpLines {op : OperationPlan} :
    (∀ line ∈ op.httpLines baseUrl, Unbroken line) ↔
      (∀ summary ∈ op.summary, Unbroken op.operation ∧ Unbroken summary) ∧
        ∀ s ∈ op.scenarios, ∀ line ∈ s.httpLines baseUrl, Unbroken line := by
  have blank : Unbroken "" ∧ Unbroken "###" ∧ Unbroken "# " ∧ Unbroken ": " := by decide
  have scenarios : (∀ line ∈ op.scenarios.flatMap fun s => s.httpLines baseUrl ++ ["", "###", ""],
      Unbroken line) ↔ ∀ s ∈ op.scenarios, ∀ line ∈ s.httpLines baseUrl, Unbroken line := by
    have close : ∀ line ∈ ["", "###", ""], Unbroken line := by decide
    simp only [List.forall_mem_flatMap, List.forall_mem_append, and_iff_left close]
  rw [httpLines_eq, List.forall_mem_append, scenarios, remarks]
  cases op.summary <;> simp [blank]

/-- The comments at the top of the file. -/
def TestPlan.banner (baseUrl : String) (plan : TestPlan) : List String :=
  ["# Auto-generated test plan (" ++ toString plan.operations.length ++ " operations, " ++
    toString plan.scenarioCount ++ " scenarios)",
    "# Base URL variable: " ++ fileVariable baseUrl, ""]

/-- The lines that the file is put together from. -/
def TestPlan.httpLines (baseUrl : String) (plan : TestPlan) : List String :=
  plan.banner baseUrl ++ plan.operations.flatMap (·.httpLines baseUrl)

theorem TestPlan.httpLines_ne_nil {plan : TestPlan} : plan.httpLines baseUrl ≠ [] := by
  simp [httpLines, banner]

theorem TestPlan.httpText_eq {plan : TestPlan} :
    plan.httpText baseUrl = "\n".intercalate (plan.httpLines baseUrl) := rfl

theorem TestPlan.lines_httpText {plan : TestPlan} :
    lines (plan.httpText baseUrl) = (plan.httpLines baseUrl).flatMap lines := by
  rw [httpText_eq, lines_intercalate httpLines_ne_nil]

theorem TestPlan.lines_httpText_eq {plan : TestPlan} (plain : Unbroken baseUrl) :
    lines (plan.httpText baseUrl) = plan.httpLines baseUrl ↔
      ∀ op ∈ plan.operations, ∀ line ∈ op.httpLines baseUrl, Unbroken line := by
  have banner : ∀ line ∈ plan.banner baseUrl, Unbroken line := by
    have counts : Unbroken ("# Auto-generated test plan (" ++ toString plan.operations.length ++
        " operations, " ++ toString plan.scenarioCount ++ " scenarios)") := by
      simp only [unbroken_append]
      exact ⟨⟨⟨⟨by decide +kernel, unbroken_repr _⟩, by decide +kernel⟩, unbroken_repr _⟩,
        by decide +kernel⟩
    have variableName : Unbroken ("# Base URL variable: " ++ fileVariable baseUrl) :=
      unbroken_append.mpr ⟨by decide +kernel, unbroken_fileVariable plain⟩
    simp only [TestPlan.banner, List.forall_mem_cons]
    exact ⟨counts, variableName, by decide, List.forall_mem_nil _⟩
  rw [httpText_eq, lines_intercalate_eq httpLines_ne_nil, httpLines, List.forall_mem_append,
    and_iff_right banner, List.forall_mem_flatMap]

namespace Compilation

open Planner

variable {s : ScenarioPlan}

theorem name_of_mem (planned : s ∈ (freshPlan document config op).scenarios) :
    s.name = op.label ++ " " ++ s.kind.describe := by
  obtain ⟨scenario, member, rfl⟩ := List.mem_map.mp planned
  obtain ⟨kind, change, credential, status, -, rfl⟩ := mem_freshScenarios.mp member
  rw [withAssertions_eq]
  rfl

theorem method_of_mem (planned : s ∈ (freshPlan document config op).scenarios) :
    s.request.method = op.method := by
  obtain ⟨change, credential, -, request⟩ := arises_of_mem planned
  rw [request]
  rfl

theorem unbroken_path (wellFormed : op.WellFormed)
    (planned : s ∈ (freshPlan document config op).scenarios) (plain : Unbroken op.path.text) :
    Unbroken s.request.path := by
  obtain ⟨change, credential, arises, request⟩ := arises_of_mem planned
  intro broken
  rw [request] at broken
  rcases PathTemplate.mem_spelled (PathTemplate.toList_render ▸ broken) with literal | token
  · exact plain literal
  · obtain ⟨name, inside, written⟩ := token
    obtain ⟨p, declared, -, value⟩ := tokenValue?_base wellFormed inside
    rw [value, encode_rawIn wellFormed declared arises] at written
    exact Percent.unbroken_encode _ written

theorem unbroken_block (wellFormed : op.WellFormed) (plain : Unbroken baseUrl)
    (planned : s ∈ (freshPlan document config op).scenarios) :
    (∀ line ∈ s.httpLines baseUrl, Unbroken line) ↔
      Unbroken op.label ∧ ∀ text ∈ s.texts, Unbroken text := by
  have space : Unbroken " " := by decide
  have label : Unbroken op.label ↔ Unbroken op.method ∧ Unbroken op.path.text := by
    simp only [Operation.label, unbroken_append, space, and_true]
  rw [ScenarioPlan.unbroken_httpLines plain, name_of_mem planned, method_of_mem planned]
  simp only [ScenarioPlan.texts, List.forall_mem_append, List.forall_mem_flatMap, unbroken_append,
    space, and_true, ScenarioKind.unbroken_describe]
  constructor
  · rintro ⟨⟨labelled, kind⟩, assertions, -, headers⟩
    exact ⟨labelled, ⟨kind, assertions⟩, headers⟩
  · rintro ⟨labelled, ⟨kind, assertions⟩, headers⟩
    obtain ⟨method, path⟩ := label.mp labelled
    exact ⟨⟨labelled, kind⟩, assertions, ⟨method, unbroken_path wellFormed planned path⟩, headers⟩

/-- The lines about an operation stay lines where the texts that they take over do. -/
theorem unbroken_passage (wellFormed : op.WellFormed) (plain : Unbroken baseUrl) :
    (∀ line ∈ (freshPlan document config op).httpLines baseUrl, Unbroken line) ↔
      ∀ text ∈ (freshPlan document config op).texts, Unbroken text := by
  have label : (freshPlan document config op).operation = op.label := rfl
  obtain ⟨happy, planned, -⟩ := exists_mem_of_arises (@Arises.happy document config op)
  simp only [OperationPlan.unbroken_httpLines, OperationPlan.texts, List.forall_mem_append,
    List.forall_mem_cons, List.forall_mem_flatMap, label, Option.mem_toList]
  constructor
  · rintro ⟨summary, scenarios⟩
    -- Without a summary the label still stands over the happy path, which is always planned.
    have labelled := ((unbroken_block wellFormed plain planned).mp (scenarios happy planned)).1
    exact ⟨⟨labelled, fun text given => (summary text given).2⟩, fun s planned =>
      ((unbroken_block wellFormed plain planned).mp (scenarios s planned)).2⟩
  · rintro ⟨⟨labelled, summary⟩, scenarios⟩
    exact ⟨fun text given => ⟨labelled, summary text given⟩, fun s planned =>
      (unbroken_block wellFormed plain planned).mpr ⟨labelled, scenarios s planned⟩⟩

end Compilation

end HttpPlan
