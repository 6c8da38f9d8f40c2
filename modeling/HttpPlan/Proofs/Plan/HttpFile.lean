import HttpPlan.Proofs.Plan.Verbatim

/-! Request files line by line. In a file whose texts break no line, each line is blank, a comment,
or part of the request of a scenario, and the scenarios come in plan order. -/
namespace HttpPlan

open Text

variable {document : SpecDocument} {baseUrl : String}

/-- A blank line or a comment. -/
def Remark (line : String) : Prop := line = "" ∨ line.toList.head? = some '#'

/-- The lines that the request of a scenario is written with. -/
inductive ScenarioPlan.Owns (baseUrl : String) (s : ScenarioPlan) : String → Prop
  | request : Owns baseUrl s (s.request.requestLine baseUrl)
  | header {name value : String} (carried : (name, value) ∈ s.request.headers.entries) :
      Owns baseUrl s (name ++ ": " ++ value)
  | contentType (sent : s.request.body.isSome)
      (untyped : ∀ name ∈ s.request.headers.keys, ¬ Text.sameIgnoringCase "content-type" name) :
      Owns baseUrl s "Content-Type: application/json"
  | body {v : Json} {line : String} (sent : s.request.body = some v)
      (inside : line ∈ lines v.pretty) : Owns baseUrl s line

/-- The lines about a scenario: comments, one request line, headers, a body and the end mark. -/
inductive ScenarioPlan.Block (baseUrl : String) (s : ScenarioPlan) : List String → Prop
  | mk {remarks : List String} (comments : ∀ line ∈ remarks, Remark line) :
      Block baseUrl s (remarks ++ [s.request.requestLine baseUrl] ++ s.request.headerLines ++
        s.request.bodyLines ++ ["", "###", ""])

/-- The lines about an operation: comments, and a block for each scenario in turn. -/
inductive OperationPlan.Passage (baseUrl : String) (op : OperationPlan) : List String → Prop
  | mk {remarks : List String} {blocks : List (List String)}
      (comments : ∀ line ∈ remarks, Remark line)
      (each : List.Forall₂ (ScenarioPlan.Block baseUrl) op.scenarios blocks) :
      Passage baseUrl op (remarks ++ blocks.flatten)

/-- A request file whose every line is blank, a comment or part of a request, with an end mark for
each scenario, and with the scenarios in plan order. -/
structure TestPlan.Filed (baseUrl : String) (plan : TestPlan) (file : List String) : Prop where
  accounted : ∀ line ∈ file, Remark line ∨ ∃ s ∈ plan.scenarios, s.Owns baseUrl line
  marks : file.count "###" = plan.scenarioCount
  ordered : ∃ remarks passages, (∀ line ∈ remarks, Remark line) ∧
    List.Forall₂ (OperationPlan.Passage baseUrl) plan.operations passages ∧
    file = remarks ++ passages.flatten

theorem remark_sign {text : String} (sign : text.toList.head? = some '#') (s : String) :
    Remark (text ++ s) := by
  refine .inr ?_
  rw [String.toList_append, List.head?_append, sign, Option.some_or]

theorem ne_mark {line : String} (space : ' ' ∈ line.toList) : line ≠ "###" :=
  ne_of_mem space (by decide)

namespace ScenarioPlan

variable {s : ScenarioPlan}

theorem remark_remarks : ∀ line ∈ s.remarks, Remark line := by
  simp only [remarks, List.forall_mem_append, List.forall_mem_cons, List.forall_mem_map]
  exact ⟨⟨remark_sign (by decide) _, remark_sign (by decide) _, List.forall_mem_nil _⟩,
    fun a _ => remark_sign (by decide) _⟩

theorem owns_headerLines : ∀ line ∈ s.request.headerLines, s.Owns baseUrl line := by
  intro line member
  rcases List.mem_append.mp member with member | member
  · obtain ⟨⟨name, value⟩, carried, rfl⟩ := List.mem_map.mp member
    exact .header carried
  · split at member
    · next default =>
      rw [List.mem_singleton.mp member]
      rw [Bool.and_eq_true, Bool.not_eq_true', List.any_eq_false] at default
      exact .contentType default.1 fun name carried => default.2 name carried
    · cases member

theorem owns_bodyLines : ∀ line ∈ s.request.bodyLines, Remark line ∨ s.Owns baseUrl line := by
  unfold RequestPlan.bodyLines
  split
  · next body sent =>
    refine List.forall_mem_cons.mpr ⟨.inl (.inl rfl), fun line inside => .inr ?_⟩
    exact .body sent (Json.lines_pretty ▸ inside)
  · exact List.forall_mem_nil _

theorem accounted : ∀ line ∈ s.httpLines baseUrl, Remark line ∨ s.Owns baseUrl line := by
  simp only [httpLines_eq, List.forall_mem_append, List.forall_mem_singleton]
  exact ⟨⟨⟨fun line member => .inl (remark_remarks line member), .inr .request⟩,
    fun line member => .inr (owns_headerLines line member)⟩, owns_bodyLines⟩

theorem block : s.Block baseUrl (s.httpLines baseUrl ++ ["", "###", ""]) := .mk remark_remarks

/-- All lines but those of the body hold a space. -/
theorem mark_not_mem : "###" ∉ s.httpLines baseUrl := by
  have remarks : ∀ line ∈ s.remarks, line ≠ "###" := by
    simp only [ScenarioPlan.remarks, List.forall_mem_append, List.forall_mem_cons,
      List.forall_mem_map]
    exact ⟨⟨ne_mark (by simp), ne_mark (by simp), List.forall_mem_nil _⟩,
      fun a _ => ne_mark (by simp)⟩
  have headers : ∀ line ∈ s.request.headerLines, line ≠ "###" := by
    intro line member
    rcases List.mem_append.mp member with member | member
    · obtain ⟨header, -, rfl⟩ := List.mem_map.mp member
      exact ne_mark (by simp)
    · split at member
      · exact List.mem_singleton.mp member ▸ ne_mark (by simp)
      · cases member
  have body : ∀ line ∈ s.request.bodyLines, line ≠ "###" := by
    unfold RequestPlan.bodyLines
    split
    · exact List.forall_mem_cons.mpr ⟨by decide, fun line member =>
        (Json.printed_prettyLines _ line member).distinct⟩
    · exact List.forall_mem_nil _
  have all : ∀ line ∈ s.httpLines baseUrl, line ≠ "###" := by
    simp only [httpLines_eq, List.forall_mem_append, List.forall_mem_singleton]
    exact ⟨⟨⟨remarks, ne_mark (by simp [RequestPlan.requestLine])⟩, headers⟩, body⟩
  exact fun member => all _ member rfl

end ScenarioPlan

namespace OperationPlan

variable {op : OperationPlan}

theorem remark_remarks : ∀ line ∈ op.remarks, Remark line := by
  unfold remarks
  split
  · refine List.forall_mem_cons.mpr ⟨?_, List.forall_mem_singleton.mpr (.inl rfl)⟩
    rw [String.append_assoc, String.append_assoc]
    exact remark_sign (by decide) _
  · exact List.forall_mem_nil _

theorem passage : op.Passage baseUrl (op.httpLines baseUrl) := by
  rw [httpLines_eq, List.flatMap_def]
  refine .mk remark_remarks ?_
  rw [List.forall₂_map_right_iff, List.forall₂_same]
  exact fun s _ => ScenarioPlan.block

theorem accounted : ∀ line ∈ op.httpLines baseUrl,
    Remark line ∨ ∃ s ∈ op.scenarios, s.Owns baseUrl line := by
  have close : ∀ line ∈ ["", "###", ""], Remark line := by
    simp [Remark]
  rw [httpLines_eq, List.forall_mem_append, List.forall_mem_flatMap]
  refine ⟨fun line member => .inl (remark_remarks line member), fun s member => ?_⟩
  refine List.forall_mem_append.mpr ⟨fun line inside => ?_, fun line last => .inl (close line last)⟩
  exact (ScenarioPlan.accounted line inside).imp id fun owned => ⟨s, member, owned⟩

theorem count_mark : (op.httpLines baseUrl).count "###" = op.scenarios.length := by
  have remarks : op.remarks.count "###" = 0 := by
    refine List.count_eq_zero.mpr fun member => ?_
    unfold OperationPlan.remarks at member
    split at member
    · rcases List.mem_cons.mp member with same | member
      · exact ne_mark (by simp) same.symm
      · exact absurd member (by decide)
    · cases member
  have block (s : ScenarioPlan) : (s.httpLines baseUrl ++ ["", "###", ""]).count "###" = 1 := by
    rw [List.count_append, List.count_eq_zero.mpr ScenarioPlan.mark_not_mem]
    rfl
  rw [httpLines_eq, List.count_append, remarks, Nat.zero_add, List.count_flatMap]
  induction op.scenarios with
  | nil => rfl
  | cons s rest ih => rw [List.map_cons, List.sum_cons, ih, Function.comp, block, List.length_cons,
      Nat.add_comm]

end OperationPlan

namespace TestPlan

variable {plan : TestPlan}

theorem remark_banner : ∀ line ∈ plan.banner baseUrl, Remark line := by
  simp only [banner, List.forall_mem_cons, String.append_assoc]
  exact ⟨remark_sign (by decide) _, remark_sign (by decide) _, .inl rfl, List.forall_mem_nil _⟩

theorem count_mark : (plan.httpLines baseUrl).count "###" = plan.scenarioCount := by
  have banner : (plan.banner baseUrl).count "###" = 0 := by
    refine List.count_eq_zero.mpr fun member => ?_
    have other : ∀ line ∈ plan.banner baseUrl, line ≠ "###" := by
      simp only [TestPlan.banner, List.forall_mem_cons]
      exact ⟨ne_mark (by simp), ne_mark (by simp), by decide, List.forall_mem_nil _⟩
    exact other _ member rfl
  rw [httpLines, List.count_append, banner, Nat.zero_add, List.count_flatMap, scenarioCount,
    scenarios, List.length_flatMap]
  exact congrArg List.sum (List.map_congr_left fun op _ => OperationPlan.count_mark)

theorem filed : plan.Filed baseUrl (plan.httpLines baseUrl) where
  accounted := by
    rw [httpLines, List.forall_mem_append, List.forall_mem_flatMap]
    refine ⟨fun line member => .inl (remark_banner line member), fun op member line inside => ?_⟩
    refine (OperationPlan.accounted line inside).imp id ?_
    rintro ⟨s, held, owned⟩
    exact ⟨s, List.mem_flatMap.mpr ⟨op, member, held⟩, owned⟩
  marks := count_mark
  ordered := by
    refine ⟨plan.banner baseUrl, plan.operations.map (·.httpLines baseUrl), remark_banner, ?_, rfl⟩
    rw [List.forall₂_map_right_iff, List.forall₂_same]
    exact fun op _ => op.passage

end TestPlan

namespace SpecDocument

open Compilation

/-- The file of a compiled document has the lines that it is put together from just where the
labels, summaries, names, patterns and headers of its plan hold no line break. Then each line is
blank, a comment, or part of the request of a scenario, and the scenarios come in plan order, each
with one request line and one end mark. Paths, queries, enum values and bodies break no line. -/
theorem compile_file {root : Json} (read : ofJson root = .ok document) (config : Config)
    {baseUrl : String} (plain : Unbroken baseUrl) :
    (lines ((document.compile config).httpText baseUrl) =
        (document.compile config).httpLines baseUrl ↔
      ∀ op ∈ (document.compile config).operations, ∀ text ∈ op.texts, Unbroken text) ∧
    ((∀ op ∈ (document.compile config).operations, ∀ text ∈ op.texts, Unbroken text) →
      (document.compile config).Filed baseUrl
        (lines ((document.compile config).httpText baseUrl))) := by
  have whole : lines ((document.compile config).httpText baseUrl) =
      (document.compile config).httpLines baseUrl ↔
      ∀ op ∈ (document.compile config).operations, ∀ text ∈ op.texts, Unbroken text := by
    rw [TestPlan.lines_httpText_eq plain, operations_compile, List.forall_mem_map,
      List.forall_mem_map]
    exact forall₂_congr fun op member => unbroken_passage (ofJson_wellFormed read op member) plain
  exact ⟨whole, fun unbroken => whole.mpr unbroken ▸ TestPlan.filed⟩

/-- Adding a note, with a line break in the body, in a listed value and in a query value. -/
def notesDocument : Json := .object [("paths", .object [("/notes", .object [("post", .object [
  ("summary", .string "Adds a note"),
  ("parameters", .array [.object [("name", .string "X-Trace"), ("in", .string "header"),
    ("example", .string "on")],
    .object [("name", .string "mark"), ("in", .string "query"), ("example", .string "a\nb")]]),
  ("requestBody", .object [("content", .object [("application/json", .object [
    ("schema", .object [("example", .object [("text", .string "one\n###")])])])])]),
  ("responses", .object [("201", .object [("schema", .object [
    ("enum", .array [.string "one\ntwo"])])])])])])])]

theorem compile_file_notes : ∃ document, ofJson notesDocument = .ok document ∧
    (document.compile {}).scenarioCount = 1 ∧
    (∀ op ∈ (document.compile {}).operations, ∀ text ∈ op.texts, Unbroken text) ∧
    (document.compile {}).Filed "base_url" (lines ((document.compile {}).httpText "base_url")) := by
  obtain ⟨document, built⟩ : ∃ document, ofJson notesDocument = .ok document := ⟨_, rfl⟩
  have evaluated : (ofJson notesDocument).toOption.map (fun document =>
      ((document.compile {}).scenarioCount, (document.compile {}).operations.all fun op =>
        op.texts.all fun text => decide (Unbroken text))) = some (1, true) := by
    decide +kernel
  rw [built] at evaluated
  obtain ⟨single, texts⟩ := Prod.mk.inj (Option.some_inj.mp evaluated)
  have unbroken : ∀ op ∈ (document.compile {}).operations, ∀ text ∈ op.texts, Unbroken text :=
    fun op member text inside =>
      of_decide_eq_true (List.all_eq_true.mp (List.all_eq_true.mp texts op member) text inside)
  exact ⟨document, built, single, unbroken, (compile_file built {} (by decide)).2 unbroken⟩

/-- A summary of two lines, the second of which is a request. -/
def forgedDocument : Json := .object [("paths", .object [("/a", .object [("get", .object [
  ("summary", .string "Lists\nDELETE \x7b\x7bbase_url\x7d\x7d/a"),
  ("responses", .object [])])])])]

/-- A line of the file that no scenario asks for is read as a request. -/
theorem forged_request : ∃ document, ofJson forgedDocument = .ok document ∧
    ∃ line ∈ lines ((document.compile {}).httpText "base_url"), ¬ Remark line ∧
      ∀ s ∈ (document.compile {}).scenarios, ¬ s.Owns "base_url" line := by
  obtain ⟨document, built⟩ : ∃ document, ofJson forgedDocument = .ok document := ⟨_, rfl⟩
  have evaluated : (ofJson forgedDocument).toOption.map (fun document =>
      ((document.compile {}).scenarios.map (·.request),
        decide ("DELETE \x7b\x7bbase_url\x7d\x7d/a" ∈
          ((document.compile {}).httpLines "base_url").flatMap lines))) =
      some ([{ method := "GET", path := "/a" }], true) := by
    decide +kernel
  rw [built] at evaluated
  obtain ⟨requests, written⟩ := Prod.mk.inj (Option.some_inj.mp evaluated)
  have written := of_decide_eq_true written
  rw [← TestPlan.lines_httpText] at written
  refine ⟨document, built, _, written, by unfold Remark; decide, fun s member owned => ?_⟩
  have request : s.request = { method := "GET", path := "/a" } := by
    have inside := List.mem_map_of_mem (f := (·.request)) member
    rwa [requests, List.mem_singleton] at inside
  generalize same : "DELETE \x7b\x7bbase_url\x7d\x7d/a" = line at owned
  cases owned with
  | request => rw [request] at same; exact absurd same (by decide)
  | header carried => rw [request] at carried; cases carried
  | contentType sent _ => rw [request] at sent; cases sent
  | body sent _ => rw [request] at sent; cases sent

end SpecDocument

end HttpPlan
