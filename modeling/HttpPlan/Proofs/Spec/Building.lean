import HttpPlan.Proofs.Spec.Operation

/-! Reading a document operation by operation. Between two operations nothing is unfinished, and
the memo and the arena hold what the operations that were kept have resolved. -/
namespace HttpPlan.Building

open Resolver

variable {source : Source} {p : Progress} {path : String} {item : Json}

/-- An operation that the reading comes to, with what has been read by then. -/
inductive Met (source : Source) : String → Json → String → Json → Progress → Prop
  | intro {path method : String} {raw item operation : Json}
      {before after done rest : List (String × Json)}
      (paths : source.root.field? "paths" = some (.object (before ++ (path, raw) :: after)))
      (found : source.root.deref raw = .ok item)
      (fields : item.fields? = some (done ++ (method, operation) :: rest))
      (known : method ∈ methods) :
      Met source path item method operation
        (done.foldl (addOperation source path item) (before.foldl (addPath source) {}))

/-- A moment between two operations. -/
structure Settled (source : Source) (p : Progress) : Prop where
  valid : p.resolver.Valid source.root
  finished : p.resolver.unfinished = []
  idle : p.resolver.aliases = []
  held : ∀ op ∈ p.operations, ∀ id ∈ op.schemas, id < p.resolver.arena.size

theorem Settled.start (source : Source) : Settled source {} :=
  ⟨.empty _, rfl, rfl, fun _ member => by cases member⟩

theorem Settled.rollback {error : BuildError} {after : Resolver} (settled : Settled source p)
    (stranded : Stranded source.root p.resolver error after) :
    after.rollback p.resolver.mark = p.resolver :=
  rollback_mark settled.valid stranded.1.valid stranded.1.toGrows settled.finished settled.idle

theorem addOperation_error {method : String} {operation : Json} {error : BuildError}
    {after : Resolver} (known : method ∈ methods)
    (fails : Building.operation source method path item operation p.resolver = .error error after)
    (undone : after.rollback p.resolver.mark = p.resolver) :
    addOperation source path item p (method, operation) =
      p.skip (label method path) (label method path) error := by
  simp [addOperation, fails, undone, known]

theorem addOperation_ok {method : String} {operation : Json}
    {built : Operation × List Diagnostic} {after : Resolver} (known : method ∈ methods)
    (succeeds : Building.operation source method path item operation p.resolver = .ok built after) :
    addOperation source path item p (method, operation) =
      { p with
        resolver := after
        operations := p.operations ++ [built.1]
        diagnostics := p.diagnostics ++ built.2 } := by
  simp [addOperation, succeeds, known]

theorem Settled.addOperation {entry : String × Json} (settled : Settled source p)
    (item_within : item.Within source.root) (within : entry.2.Within source.root) :
    Settled source (addOperation source path item p entry) := by
  obtain ⟨method, operation⟩ := entry
  by_cases known : method ∈ methods
  · have reading := yields_operation method path item_within within
      settled.valid
    cases run : Building.operation source method path item operation p.resolver with
    | error error after =>
      rw [addOperation_error known run (settled.rollback (yields_error run reading))]
      exact ⟨settled.valid, settled.finished, settled.idle, settled.held⟩
    | ok built after =>
      obtain ⟨advances, bound⟩ := yields_ok run reading
      rw [addOperation_ok known run]
      refine ⟨advances.valid, advances.unfinished.trans settled.finished,
        advances.aliases.trans settled.idle, fun op member id inside => ?_⟩
      rcases List.mem_append.mp member with old | new
      · exact Nat.lt_of_lt_of_le (settled.held op old id inside) advances.toGrows.size_le
      · rw [List.mem_singleton.mp new] at inside
        exact bound id inside
  · simpa [Building.addOperation, known] using settled

theorem Settled.addOperations {entries : List (String × Json)} (settled : Settled source p)
    (item_within : item.Within source.root)
    (within : ∀ entry ∈ entries, entry.2.Within source.root) :
    Settled source (entries.foldl (Building.addOperation source path item) p) := by
  induction entries generalizing p with
  | nil => exact settled
  | cons entry rest ih =>
    exact ih (settled.addOperation item_within (within entry (by simp)))
      fun e member => within e (by simp [member])

theorem fields_within {entry : String × Json} (item_within : item.Within source.root)
    (member : entry ∈ item.fields?.getD []) : entry.2.Within source.root := by
  cases fields : item.fields? with
  | none => simp [fields] at member
  | some entries =>
    rw [fields] at member
    exact item_within.part (Json.fields?_inside fields member)

theorem Settled.addPath {entry : String × Json} (settled : Settled source p)
    (within : entry.2.Within source.root) : Settled source (addPath source p entry) := by
  unfold Building.addPath
  dsimp only
  split
  · exact ⟨settled.valid, settled.finished, settled.idle, settled.held⟩
  · next item found =>
    have item_within := Json.deref_within within found
    exact settled.addOperations item_within fun _ member => fields_within item_within member

theorem Settled.addPaths {entries : List (String × Json)} (settled : Settled source p)
    (within : ∀ entry ∈ entries, entry.2.Within source.root) :
    Settled source (entries.foldl (Building.addPath source) p) := by
  induction entries generalizing p with
  | nil => exact settled
  | cons entry rest ih =>
    exact ih (settled.addPath (within entry (by simp))) fun e member => within e (by simp [member])

theorem paths_within {paths : List (String × Json)} {entry : String × Json}
    (found : source.root.field? "paths" = some (.object paths)) (member : entry ∈ paths) :
    entry.2.Within source.root :=
  ((Json.field_inside member).trans (Json.field?_inside found)).within

theorem Met.within {method : String} {operation : Json}
    (met : Met source path item method operation p) :
    item.Within source.root ∧ operation.Within source.root := by
  cases met with
  | intro paths found fields known =>
    have item_within := Json.deref_within
      (paths_within paths (List.mem_append_right _ List.mem_cons_self)) found
    exact ⟨item_within,
      item_within.part (Json.fields?_inside fields (List.mem_append_right _ List.mem_cons_self))⟩

theorem Met.settled {method : String} {operation : Json}
    (met : Met source path item method operation p) : Settled source p := by
  have item_within := met.within.1
  cases met with
  | intro paths found fields known =>
    refine (Settled.addPaths (.start source) fun entry member =>
      paths_within paths (List.mem_append_left _ member)).addOperations item_within
        fun entry member => ?_
    exact item_within.part (Json.fields?_inside fields (List.mem_append_left _ member))

theorem settled_allPaths (source : Source) : Settled source (allPaths source) := by
  unfold allPaths
  split
  · next paths found =>
    exact Settled.addPaths (.start source) fun entry member => paths_within found member
  · exact ⟨.empty _, rfl, rfl, fun _ member => by cases member⟩

/-- An operation that fails leaves no trace but its one error, and one that succeeds only adds to
what was resolved before it. -/
theorem operation_traceless {method : String} {operation : Json}
    (met : Met source path item method operation p) :
    (∀ error after,
      Building.operation source method path item operation p.resolver = .error error after →
        after.rollback p.resolver.mark = p.resolver ∧
        addOperation source path item p (method, operation) =
          { p with
            skipped := p.skipped ++ [⟨label method path, error⟩]
            diagnostics := p.diagnostics ++ [⟨.error, some (label method path), error.message⟩] }) ∧
    (∀ built after,
      Building.operation source method path item operation p.resolver = .ok built after →
        (∀ id node, p.resolver.arena.get? id = some node → after.arena.get? id = some node) ∧
        (∀ pointer id, p.resolver.memo.get? pointer = some id →
          after.memo.get? pointer = some id) ∧
        after.unfinished = [] ∧ after.aliases = []) := by
  have settled := met.settled
  have reading := yields_operation method path met.within.1 met.within.2
    settled.valid
  constructor
  · intro error after fails
    have undone := settled.rollback (yields_error fails reading)
    refine ⟨undone, ?_⟩
    cases met with
    | intro paths found fields known => exact addOperation_error known fails undone
  · intro built after succeeds
    have advances := (yields_ok succeeds reading).1
    refine ⟨fun id node found => ?_, fun pointer id => advances.get?,
      advances.unfinished.trans settled.finished, advances.aliases.trans settled.idle⟩
    obtain ⟨more, same⟩ := advances.nodes
    have inside := (List.getElem?_eq_some_iff.mp found).1
    rw [SchemaArena.get?, ← same, List.getElem?_append_left inside]
    exact found

def referenceTo (name : String) : Json :=
  .object [("$ref", .string ("#/components/schemas/" ++ name))]

def respondingWith (schema : Json) : Json :=
  .object [("responses", .object [("200", .object [("schema", schema)])])]

def brokenItem : Json := .object [("get", respondingWith (referenceTo "Broken"))]

/-- A definition that is well and one that, deep inside, refers to nothing. -/
def brokenDocument : Json := .object [
  ("paths", .object [
    ("/trees", .object [("get", respondingWith (referenceTo "Tree"))]),
    ("/broken", brokenItem)]),
  ("components", .object [("schemas", .object [
    ("Tree", .object [("type", .string "object"),
      ("properties", .object [("up", referenceTo "Tree")])]),
    ("Broken", .object [("allOf", .array [referenceTo "Tree",
      .object [("properties", .object [
        ("down", referenceTo "Broken"), ("gone", referenceTo "Gone")])]])])])])]

/-- What has been read when the broken operation is met. -/
def beforeBroken : Progress :=
  addPath (Source.ofJson brokenDocument) {}
    ("/trees", .object [("get", respondingWith (referenceTo "Tree"))])

theorem operation_traceless_broken :
    Met (Source.ofJson brokenDocument) "/broken" brokenItem "get"
      (respondingWith (referenceTo "Broken")) beforeBroken ∧
    ∃ error after,
      Building.operation (Source.ofJson brokenDocument) "get" "/broken" brokenItem
        (respondingWith (referenceTo "Broken")) beforeBroken.resolver = .error error after ∧
      after.unfinished = [1] ∧ after.rollback beforeBroken.resolver.mark = beforeBroken.resolver := by
  have met : Met (Source.ofJson brokenDocument) "/broken" brokenItem "get"
      (respondingWith (referenceTo "Broken")) beforeBroken :=
    @Met.intro (Source.ofJson brokenDocument) "/broken" "get" brokenItem brokenItem _
      [("/trees", .object [("get", respondingWith (referenceTo "Tree"))])] [] [] [] rfl rfl rfl
      (by decide)
  obtain ⟨error, after, fails, begun⟩ : ∃ error after,
      Building.operation (Source.ofJson brokenDocument) "get" "/broken" brokenItem
        (respondingWith (referenceTo "Broken")) beforeBroken.resolver = .error error after ∧
      after.unfinished = [1] := ⟨_, _, rfl, rfl⟩
  exact ⟨met, error, after, fails, begun, ((operation_traceless met).1 error after fails).1⟩

end HttpPlan.Building
