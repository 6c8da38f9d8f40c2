import HttpPlan.Proofs.Scenario.Planned

/-! One planner serves all the operations of a document. What it was asked for before changes
neither the scenarios of an operation nor what is noted about it. -/
namespace HttpPlan

variable {document : SpecDocument} {arena : SchemaArena} {config : Config} {op : Operation}
  {p : Parameter} {s : Synthesizer} {planner : Planner}

namespace Synthesizer

variable {fresh : Synthesizer}

@[simp] theorem operation_after : (s.after fresh).operation = s.operation := rfl

/-- The notes of a step, behind those of before, are the same as from a state that has none. -/
theorem after_blank :
    s.after fresh = { s with notes := s.notes ++
      (({ operation := s.operation } : Synthesizer).after fresh).notes } := by
  simp [after]

theorem labelled_after {d : Diagnostic}
    (noted : d ∈ (({ operation := s.operation } : Synthesizer).after fresh).notes) :
    d.operation = s.operation := by
  simp only [after, List.nil_append] at noted
  obtain ⟨_, -, rfl⟩ := List.mem_map.mp noted
  rfl

end Synthesizer

namespace Planner

theorem parameterValue_eq : parameterValue arena config p s =
    ((parameterValue arena config p {}).1, s.after (parameterValue arena config p {}).2) := by
  unfold parameterValue
  dsimp only
  split
  · simp
  · simp
  · rw [Synthesizer.synthesize_eq]

theorem bind_eq {parameters : List Parameter} : bind arena config parameters s =
    ((bind arena config parameters {}).1, s.after (bind arena config parameters {}).2) := by
  induction parameters generalizing s with
  | nil => simp [bind]
  | cons p rest ih =>
    unfold bind
    split
    · dsimp only
      rw [parameterValue_eq, ih, ih (s := (parameterValue arena config p {}).2),
        Synthesizer.after_after]
    · exact ih

theorem bodyValue_eq : bodyValue arena op s =
    ((bodyValue arena op {}).1, s.after (bodyValue arena op {}).2) := by
  unfold bodyValue
  split
  · dsimp only
    rw [Synthesizer.synthesize_eq]
  · simp

theorem inputs_eq : inputs arena config op s = ((inputs arena config op {}).1,
    (inputs arena config op {}).2.1, s.after (inputs arena config op {}).2.2) := by
  unfold inputs
  dsimp only
  rw [bind_eq, bodyValue_eq, bodyValue_eq (s := (bind arena config op.parameters {}).2),
    Synthesizer.after_after]

/-- A planner without a past, once it has planned an operation. -/
def freshPlanner (document : SpecDocument) (config : Config) (op : Operation) : Planner :=
  (({} : Planner).plan document config op).2

theorem plan_snd : (planner.plan document config op).2 =
    { notes := planner.notes ++ (freshPlanner document config op).notes
      values :=
        { operation := some op.label
          notes := planner.values.notes ++ (freshPlanner document config op).values.notes } } := by
  simp only [freshPlanner, plan]
  rw [inputs_eq, inputs_eq (s := { operation := some op.label }), Synthesizer.after_blank]
  simp

/-- A note is labelled with the operation that it is about. -/
theorem operation_freshPlanner {d : Diagnostic}
    (noted : d ∈ (freshPlanner document config op).diagnostics) : d.operation = some op.label := by
  rcases List.mem_append.mp noted with noted | noted
  · simp only [freshPlanner, plan, List.nil_append, missingNotes] at noted
    split at noted
    · rw [List.mem_singleton.mp noted]
    · cases noted
  · simp only [freshPlanner, plan] at noted
    rw [inputs_eq] at noted
    exact Synthesizer.labelled_after (s := { operation := some op.label }) noted

/-- Operations planned one after another by one planner. -/
def plans (document : SpecDocument) (config : Config) :
    List Operation → Planner → List (List ScenarioPlan) × Planner
  | [], planner => ([], planner)
  | op :: rest, planner =>
    let (scenarios, planner) := planner.plan document config op
    let (later, planner) := plans document config rest planner
    (scenarios :: later, planner)

theorem plans_fst {calls : List Operation} : (plans document config calls planner).1 =
    calls.map (freshScenarios document config) := by
  induction calls generalizing planner with
  | nil => rfl
  | cons op rest ih => simp only [plans, plan_fst, ih, List.map_cons]

theorem notes_plans {calls : List Operation} : (plans document config calls planner).2.notes =
    planner.notes ++ calls.flatMap fun op => (freshPlanner document config op).notes := by
  induction calls generalizing planner with
  | nil => simp [plans]
  | cons op rest ih =>
    simp only [plans, ih, plan_snd, List.flatMap_cons, List.append_assoc]

theorem values_plans {calls : List Operation} :
    (plans document config calls planner).2.values.notes =
      planner.values.notes ++ calls.flatMap fun op => (freshPlanner document config op).values.notes := by
  induction calls generalizing planner with
  | nil => simp [plans]
  | cons op rest ih =>
    simp only [plans, ih, plan_snd, List.flatMap_cons, List.append_assoc]

/-- Whatever operations are planned by one planner, in whatever order and how often, each has the
scenarios that a planner without a past gives it, and the notes are those of such planners, each
about its own operation: first the notes on scenarios, then those on values. -/
theorem plans_fresh (document : SpecDocument) (config : Config) (calls : List Operation) :
    (plans document config calls {}).1 =
        calls.map (fun op => (({} : Planner).plan document config op).1) ∧
      (plans document config calls {}).2.diagnostics =
        calls.flatMap (fun op => (({} : Planner).plan document config op).2.notes) ++
        calls.flatMap (fun op => (({} : Planner).plan document config op).2.values.notes) ∧
      ∀ op, ∀ d ∈ (({} : Planner).plan document config op).2.diagnostics,
        d.operation = some op.label := by
  refine ⟨?_, ?_, fun op d noted => operation_freshPlanner noted⟩
  · rw [plans_fst]
    exact List.map_congr_left fun op _ => plan_fst.symm
  · rw [diagnostics, notes_plans, values_plans]
    rfl

end Planner

end HttpPlan
