import HttpPlan.Proofs.Assertion.Interchange
import HttpPlan.Proofs.OrderedMap

/-! Plans read back as they were written but for one thing: a body that is null is written as a
null field, which reads as no body at all. -/
namespace HttpPlan

theorem OrderedMap.textMap?_textJson (m : OrderedMap String String) :
    textMap? m.textJson = some m := by
  have entries : (m.entries.map fun entry => (entry.1, Json.string entry.2)).mapM
      (fun entry => do return (entry.1, ← SettingFormat.text? entry.2)) = some (m.entries.map id) :=
    Json.mapM_map fun _ _ => rfl
  show (do return .ofList (← _) : Option (OrderedMap String String)) = some m
  rw [entries, List.map_id]
  exact congrArg some (ofList_entries m)

theorem OrderedMap.eq_empty_of_isEmpty {m : OrderedMap String String} (empty : m.isEmpty) : ∅ = m :=
  ext_entries (List.isEmpty_iff.mp empty).symm

theorem Severity.ofName?_name (s : Severity) : ofName? s.name = some s := by
  cases s <;> decide

theorem ParameterLocation.ofName?_name (l : ParameterLocation) : ofName? l.name = some l := by
  cases l <;> decide

/-- Text that may be left out. -/
theorem Json.optional?_text (v : Option String) :
    optional? string? (v.map .string) = some v :=
  optional?_map _ _ v (fun _ _ => rfl) fun _ same => by cases same

theorem Diagnostic.ofJson?_toJson (d : Diagnostic) : ofJson? d.toJson = some d := by
  have severity := Severity.ofName?_name d.severity
  rw [toJson, ofJson?, Json.record?_object]
  · simp [List.lookup_append, List.lookup_cons, lookup_present, Json.optional?_text,
      Json.alternative?, Json.string?, severity]
  · cases d.operation <;> simp
  · decide

namespace ScenarioKind

theorem ofFields?_fields {kind : ScenarioKind} {field : String → Option Json}
    (parameter : field "parameter" = kind.fields.lookup "parameter")
    (location : field "location" = kind.fields.lookup "location") :
    ofFields? kind.tag field = some kind := by
  cases kind with
  | missingRequiredParameter name place =>
    simp [tag, fields, ofFields?, parameter, location, List.lookup_cons, Json.string?,
      Json.alternative?, ParameterLocation.ofName?_name]
  | notFound name => simp [tag, fields, ofFields?, parameter, Json.string?]
  | _ => rfl

theorem lookup_fields {kind : ScenarioKind} {key : String} (other : key ≠ "parameter")
    (another : key ≠ "location") : kind.fields.lookup key = none := by
  cases kind <;>
    simp [fields, List.lookup_cons, beq_eq_false_iff_ne.mpr other, beq_eq_false_iff_ne.mpr another]

end ScenarioKind

namespace RequestPlan

/-- The request without a body that is null. -/
def withoutNull (r : RequestPlan) : RequestPlan := { r with body := r.body.filter (· ≠ .null) }

theorem optional?_body (body : Option Json) :
    Json.optional? some body = some (body.filter (· ≠ .null)) := by
  cases body with
  | none => rfl
  | some v => cases v <;> rfl

theorem ofJson?_toJson (r : RequestPlan) : ofJson? r.toJson = some r.withoutNull := by
  have query := Json.withDefault?_filled textMap? r.query.textMap?_textJson
    OrderedMap.eq_empty_of_isEmpty
  have headers := Json.withDefault?_filled textMap? r.headers.textMap?_textJson
    OrderedMap.eq_empty_of_isEmpty
  rw [toJson, ofJson?, Json.record?_object]
  · simp [List.lookup_append, List.lookup_cons, lookup_filledField, lookup_optionalField,
      Json.string?, query, headers, optional?_body, withoutNull]
  · exact names_append (names_append (names_append (names_given _) names_filledField)
      names_filledField) names_optionalField
  · decide

end RequestPlan

namespace ScenarioPlan

def withoutNull (s : ScenarioPlan) : ScenarioPlan := { s with request := s.request.withoutNull }

/-- A scenario all of whose numbers can be read back. -/
def Readable (s : ScenarioPlan) : Prop :=
  s.expectedStatus < 65536 ∧ Assertion.AllInWords s.assertions

theorem status?_int {n : Nat} (small : n < 65536) : status? (.number (.int n)) = some n := by
  have word : n < UInt64.size := Nat.lt_trans small (by decide)
  simp [status?, Json.word?_int word, small]

theorem listToJson_eq (list : List Assertion) :
    Assertion.listToJson list = list.map Assertion.toJson := by
  induction list with
  | nil => rfl
  | cons a rest ih => rw [Assertion.listToJson, ih, List.map_cons]

theorem ofJson?_toJson {s : ScenarioPlan} (readable : s.Readable) :
    ofJson? s.toJson = some s.withoutNull := by
  obtain ⟨status, inWords⟩ := readable
  have tagged : (Json.string s.kind.tag).tag? ScenarioKind.tags = some s.kind.tag := by
    cases s.kind <;> rfl
  have items := Json.listOf?_map Assertion.ofJson? Assertion.toJson id fun a member =>
    Assertion.ofJson?_toJson a (Assertion.allInWords_iff.mp inWords a member)
  rw [List.map_id, ← listToJson_eq] at items
  have assertions := Json.withDefault?_filled (·.listOf? Assertion.ofJson?) items
    (fun empty => (List.isEmpty_iff.mp empty).symm)
  obtain ⟨fields, written, found⟩ : ∃ fields, s.toJson = .object fields ∧
      ∀ key, fields.lookup key =
        ([("operation", .string s.operation), ("name", .string s.name),
          ("kind", .string s.kind.tag)].lookup key).or
        ((s.kind.fields.lookup key).or
        (([("request", s.request.toJson),
          ("expected_status", Json.number (.int s.expectedStatus))].lookup key).or
        ((filledField "assertions" s.assertions.isEmpty
          (.array (Assertion.listToJson s.assertions))).lookup key))) :=
    ⟨_, rfl, fun key => by simp only [List.lookup_append, Option.or_assoc]⟩
  have kind : ScenarioKind.ofFields? s.kind.tag (fields.lookup ·) = some s.kind := by
    apply ScenarioKind.ofFields?_fields <;>
      simp [found, List.lookup_cons, lookup_filledField]
  have operation : fields.lookup "operation" = some (.string s.operation) := by simp [found]
  have name : fields.lookup "name" = some (.string s.name) := by simp [found, List.lookup_cons]
  have tag : fields.lookup "kind" = some (.string s.kind.tag) := by simp [found, List.lookup_cons]
  have request : fields.lookup "request" = some s.request.toJson := by
    simp [found, List.lookup_cons, ScenarioKind.lookup_fields]
  have expected : fields.lookup "expected_status" = some (.number (.int s.expectedStatus)) := by
    simp [found, List.lookup_cons, ScenarioKind.lookup_fields]
  have list : fields.lookup "assertions" = if s.assertions.isEmpty then none
      else some (.array (Assertion.listToJson s.assertions)) := by
    simp [found, List.lookup_cons, ScenarioKind.lookup_fields, lookup_filledField]
  rw [written, ofJson?]
  -- Left to find these equalities itself, the kernel unfolds the bound on a status.
  simp -implicitDefEqProofs [-List.isEmpty_iff, operation, name, tag, tagged, kind, request,
    expected, list, assertions, Json.string?, RequestPlan.ofJson?_toJson, status?_int status,
    withoutNull]

end ScenarioPlan

namespace OperationPlan

def withoutNull (op : OperationPlan) : OperationPlan :=
  { op with scenarios := op.scenarios.map ScenarioPlan.withoutNull }

theorem ofJson?_toJson {op : OperationPlan} (readable : ∀ s ∈ op.scenarios, s.Readable) :
    ofJson? op.toJson = some op.withoutNull := by
  have scenarios := Json.listOf?_map ScenarioPlan.ofJson? ScenarioPlan.toJson
    ScenarioPlan.withoutNull fun s member => ScenarioPlan.ofJson?_toJson (readable s member)
  have items := Json.listOf?_map Json.string? .string id fun tag (_ : tag ∈ op.tags) => rfl
  rw [List.map_id] at items
  have tags := Json.withDefault?_filled (·.listOf? Json.string?) items
    (fun empty => (List.isEmpty_iff.mp empty).symm)
  rw [toJson, ofJson?, Json.record?_object]
  · simp [-List.isEmpty_iff, List.lookup_append, List.lookup_cons, lookup_filledField,
      lookup_optionalField, Json.optional?_text, Json.string?, tags, scenarios, withoutNull]
  · exact names_append (names_append (names_append (names_append (names_given _)
      names_optionalField) names_optionalField) names_filledField) (names_given _)
  · decide

end OperationPlan

theorem SkippedEntry.ofJson?_toJson (s : SkippedEntry) : ofJson? s.toJson = some s := by
  rw [toJson, ofJson?, Json.record?_object]
  · simp [List.lookup_cons, Json.string?]
  · exact names_given _
  · decide

namespace TestPlan

def withoutNull (plan : TestPlan) : TestPlan :=
  { plan with operations := plan.operations.map OperationPlan.withoutNull }

theorem ofJson?_toJson {plan : TestPlan} (readable : ∀ s ∈ plan.scenarios, s.Readable) :
    ofJson? plan.toJson = some plan.withoutNull := by
  have operations := Json.listOf?_map OperationPlan.ofJson? OperationPlan.toJson
    OperationPlan.withoutNull fun op member => OperationPlan.ofJson?_toJson fun s inside =>
      readable s (List.mem_flatMap.mpr ⟨op, member, inside⟩)
  have skipped := Json.listOf?_map SkippedEntry.ofJson? SkippedEntry.toJson id
    fun s (_ : s ∈ plan.skipped) => s.ofJson?_toJson
  have diagnostics := Json.listOf?_map Diagnostic.ofJson? Diagnostic.toJson id
    fun d (_ : d ∈ plan.diagnostics) => d.ofJson?_toJson
  rw [List.map_id] at skipped diagnostics
  rw [toJson, ofJson?, Json.record?_object]
  · simp [List.lookup_append, List.lookup_cons, lookup_optionalField, Json.optional?_text,
      Json.withDefault?, operations, skipped, diagnostics, withoutNull]
  · exact names_append (names_append names_optionalField names_optionalField) (names_given _)
  · decide

/-- The plan reads back as it was exactly if no request has a body that is null. -/
theorem withoutNull_eq_iff {plan : TestPlan} :
    plan.withoutNull = plan ↔ ∀ s ∈ plan.scenarios, s.request.body ≠ some .null := by
  have kept : ∀ s : ScenarioPlan, s.withoutNull = s ↔ s.request.body ≠ some .null := by
    rintro ⟨_, _, _, ⟨_, _, _, _, body⟩, _, _⟩
    cases body with
    | none => simp [ScenarioPlan.withoutNull, RequestPlan.withoutNull]
    | some v =>
      by_cases same : v = .null <;>
        simp [ScenarioPlan.withoutNull, RequestPlan.withoutNull, Option.filter, same]
  have each : ∀ op : OperationPlan, op.withoutNull = op ↔ ∀ s ∈ op.scenarios, s.withoutNull = s := by
    rintro ⟨_, _, _, _, _, _, scenarios⟩
    have same := List.map_inj_left (l := scenarios) (f := ScenarioPlan.withoutNull) (g := id)
    simpa [OperationPlan.withoutNull] using same
  have whole : plan.withoutNull = plan ↔ ∀ op ∈ plan.operations, op.withoutNull = op := by
    obtain ⟨_, _, operations, _, _⟩ := plan
    have same := List.map_inj_left (l := operations) (f := OperationPlan.withoutNull) (g := id)
    simpa [withoutNull] using same
  simp only [whole, each, kept, scenarios, List.mem_flatMap]
  exact ⟨fun each s ⟨op, member, inside⟩ => each op member s inside,
    fun every op member s inside => every s ⟨op, member, inside⟩⟩

end TestPlan

end HttpPlan
