import HttpPlan.Spec.PathTemplate

/-! Printing a template gives back the text that it was read from, and a template passes its check
where its tokens are the declared names, each of them once. -/
namespace HttpPlan.PathTemplate

/-- The characters that parts stand for. -/
def written (parts : List PathPart) : List Char := parts.flatMap fun part => part.text.toList

theorem written_append (first last : List PathPart) :
    written (first ++ last) = written first ++ written last := List.flatMap_append

theorem written_literalPart (cs : List Char) : written (literalPart cs) = cs := by
  unfold literalPart
  split
  · next empty => rw [List.isEmpty_iff.mp empty]; rfl
  · simp [written, PathPart.text]

theorem written_token (name : List Char) (parts : List PathPart) :
    written (.token (String.ofList name) :: parts) =
      '\x7b' :: (name ++ '\x7d' :: written parts) := by
  simp [written, PathPart.text]

/-- Reading outside braces and inside them, in step with each other. -/
theorem written_parsed (cs : List Char) :
    (∀ literal parts, parseLiteral literal cs = .ok parts → written parts = literal ++ cs) ∧
    (∀ name parts, parseToken name cs = .ok parts → written parts = '\x7b' :: (name ++ cs)) := by
  induction cs with
  | nil =>
    constructor
    · intro literal parts read
      rw [parseLiteral] at read
      cases read
      rw [written_literalPart, List.append_nil]
    · intro name parts read
      rw [parseToken] at read
      cases read
  | cons c rest ih =>
    obtain ⟨outside, inside⟩ := ih
    constructor
    · intro literal parts read
      rw [parseLiteral] at read
      split at read
      · next opens =>
        cases token : parseToken [] rest with
        | error fault => rw [token] at read; cases read
        | ok inner =>
          rw [token] at read
          cases read
          rw [written_append, written_literalPart, inside _ _ token, opens, List.nil_append]
      · split at read
        · cases read
        · rw [outside _ _ read, List.append_assoc, List.singleton_append]
    · intro name parts read
      rw [parseToken] at read
      split at read
      · next closes =>
        split at read
        · cases read
        · cases after : parseLiteral [] rest with
          | error fault => rw [after] at read; cases read
          | ok inner =>
            rw [after] at read
            cases read
            rw [written_token, outside _ _ after, closes, List.nil_append]
      · split at read
        · cases read
        · rw [inside _ _ read, List.append_assoc, List.singleton_append]

theorem text_of_parse {raw : String} {template : PathTemplate} (read : parse raw = .ok template) :
    template.text = raw := by
  unfold parse at read
  split at read
  · next parts found =>
    cases read
    have same := (written_parsed raw.toList).1 _ _ found
    apply String.toList_inj.mp
    rw [text, String.toList_join, List.flatMap_map]
    exact same
  · cases read

/-- The characters of a template whose tokens stand for the given text. -/
def spelled (t : PathTemplate) (segment : String → String) : List Char :=
  t.parts.flatMap fun
    | .literal text => text.toList
    | .token name => (segment name).toList

theorem toList_render {t : PathTemplate} {valueOf : String → Option String} :
    (t.render valueOf).toList = t.spelled fun name => (valueOf name).getD "" := by
  rw [render, spelled, String.toList_join, List.flatMap_map]
  exact congrArg (t.parts.flatMap ·) (funext fun part => by cases part <;> rfl)

theorem mem_spelled {t : PathTemplate} {segment : String → String} {c : Char}
    (member : c ∈ t.spelled segment) :
    c ∈ t.text.toList ∨ ∃ name ∈ t.tokens, c ∈ (segment name).toList := by
  obtain ⟨part, inside, written⟩ := List.mem_flatMap.mp member
  cases part with
  | literal text =>
    refine .inl ?_
    rw [PathTemplate.text, String.toList_join, List.flatMap_map]
    exact List.mem_flatMap.mpr ⟨_, inside, written⟩
  | token name => exact .inr ⟨name, List.mem_filterMap.mpr ⟨_, inside, rfl⟩, written⟩

/-- A character that is in no token's text stands in the literals only. -/
theorem count_spelled {t : PathTemplate} {segment : String → String} {c : Char}
    (apart : ∀ name ∈ t.tokens, c ∉ (segment name).toList) :
    (t.spelled segment).count c = (t.spelled fun _ => "").count c := by
  obtain ⟨parts⟩ := t
  induction parts with
  | nil => rfl
  | cons part rest ih =>
    have tail := ih fun name member => apart name (by cases part <;> simp_all [tokens])
    simp only [spelled, List.flatMap_cons, List.count_append] at tail ⊢
    rw [tail]
    cases part with
    | literal text => rfl
    | token name =>
      have outside := apart name (by simp [tokens, PathPart.token?])
      simp [List.count_eq_zero.mpr outside]

theorem declaredFault?_eq_none {t : PathTemplate} {name : String} :
    t.declaredFault? name = none ↔ t.tokens.count name = 1 := by
  unfold declaredFault?
  split
  · next absent => simp [absent]
  · next once => simp [once]
  · next other => simp_all

theorem parameterFault?_eq_none {t : PathTemplate} {declared : List String} :
    t.parameterFault? declared = none ↔
      (∀ name ∈ declared, t.tokens.count name = 1) ∧ ∀ name ∈ t.tokens, name ∈ declared := by
  simp [parameterFault?, Option.or_eq_none_iff, List.findSome?_eq_none_iff, NameSet.mem_ofList,
    declaredFault?_eq_none]

theorem checkParameters_ok {t : PathTemplate} {declared : List String} :
    t.checkParameters declared = .ok () ↔
      t.tokens.Nodup ∧ ∀ name, name ∈ t.tokens ↔ name ∈ declared := by
  have check : t.checkParameters declared = .ok () ↔ t.parameterFault? declared = none := by
    unfold checkParameters
    split <;> simp_all
  rw [check, parameterFault?_eq_none]
  constructor
  · rintro ⟨once, known⟩
    refine ⟨List.nodup_iff_count.mpr fun name => ?_, fun name => ⟨known name, fun here => ?_⟩⟩
    · by_cases here : name ∈ t.tokens
      · exact Nat.le_of_eq (once name (known name here))
      · simp [List.count_eq_zero.mpr here]
    · exact List.count_pos_iff.mp (by simp [once name here])
  · rintro ⟨distinct, same⟩
    exact ⟨fun name here => by rw [distinct.count, if_pos ((same name).mpr here)],
      fun name => (same name).mp⟩

end HttpPlan.PathTemplate
