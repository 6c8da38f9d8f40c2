import HttpPlan.Proofs.Resolution.Leniency
import HttpPlan.Proofs.Spec.Calls

/-! The arena of a document never rejects what a schema of the document takes. From one operation to
the next every reference stays accounted for, and no finished place is lost. -/
namespace HttpPlan.Building

open Resolver

variable {source : Source} {p q : Progress} {path : String} {item : Json}

/-- A moment between two operations, with an account of every reference met so far. -/
structure Accountable (source : Source) (p : Progress) : Prop extends Settled source p where
  recorded : Recorded source.root p.resolver

/-- What comes after a moment keeps what has been resolved by then. -/
structure Continues (source : Source) (p q : Progress) : Prop where
  accountable : Accountable source q
  retains : Retains p.resolver q.resolver

theorem Continues.refl (accountable : Accountable source p) : Continues source p p :=
  ⟨accountable, .refl _⟩

theorem Continues.trans {o : Progress} (first : Continues source o p)
    (last : Continues source p q) : Continues source o q := ⟨last.accountable, first.retains.trans last.retains⟩

theorem Accountable.start (source : Source) : Accountable source {} :=
  ⟨.start source, recorded_empty⟩

theorem Accountable.same (accountable : Accountable source p) (settled : Settled source q)
    (resolver : q.resolver = p.resolver) : Continues source p q :=
  ⟨⟨settled, resolver ▸ accountable.recorded⟩, resolver ▸ .refl _⟩

theorem Accountable.addOperation {entry : String × Json} (accountable : Accountable source p)
    (item_within : item.Within source.root) (within : entry.2.Within source.root) :
    Continues source p (addOperation source path item p entry) := by
  have settled := accountable.toSettled
  have after : Settled source (Building.addOperation source path item p entry) :=
    settled.addOperation item_within within
  obtain ⟨method, operation⟩ := entry
  by_cases known : method ∈ methods
  · cases run : Building.operation source method path item operation p.resolver with
    | error error broken =>
      have reading := yields_operation method path item_within within settled.valid
      have undone := settled.rollback (yields_error run reading)
      refine accountable.same after ?_
      rw [addOperation_error known run undone]
      rfl
    | ok built done =>
      have moved :=
        moved_operation (.refl settled.valid accountable.recorded) item_within within run
      have resolver : (Building.addOperation source path item p (method, operation)).resolver =
          done := by rw [addOperation_ok known run]
      exact ⟨⟨after, resolver ▸ moved.2⟩, resolver ▸ moved.1.retains⟩
  · exact accountable.same after (by simp [Building.addOperation, known])

theorem Accountable.addOperations {entries : List (String × Json)}
    (accountable : Accountable source p) (item_within : item.Within source.root)
    (within : ∀ entry ∈ entries, entry.2.Within source.root) :
    Continues source p (entries.foldl (Building.addOperation source path item) p) :=
  List.foldlRecOn (motive := Continues source p) _ _ (.refl accountable)
    fun _ continues entry member =>
      continues.trans (continues.accountable.addOperation item_within (within entry member))

theorem Accountable.addPath {entry : String × Json} (accountable : Accountable source p)
    (within : entry.2.Within source.root) : Continues source p (addPath source p entry) := by
  obtain ⟨path, raw⟩ := entry
  cases found : source.root.deref raw with
  | error error =>
    have after : Settled source (Building.addPath source p (path, raw)) :=
      accountable.toSettled.addPath within
    refine accountable.same after ?_
    simp only [Building.addPath, found]
    rfl
  | ok item =>
    have item_within := Json.deref_within within found
    simp only [Building.addPath, found]
    exact accountable.addOperations item_within fun _ member => fields_within item_within member

theorem Accountable.addPaths {entries : List (String × Json)} (accountable : Accountable source p)
    (within : ∀ entry ∈ entries, entry.2.Within source.root) :
    Continues source p (entries.foldl (Building.addPath source) p) :=
  List.foldlRecOn (motive := Continues source p) _ _ (.refl accountable)
    fun _ continues entry member =>
      continues.trans (continues.accountable.addPath (within entry member))

theorem Met.accountable {method : String} {operation : Json}
    (met : Met source path item method operation p) : Accountable source p := by
  have item_within := met.within.1
  cases met with
  | intro paths found fields known =>
    have before := (Accountable.start source).addPaths fun entry member =>
      paths_within paths (List.mem_append_left _ member)
    refine (before.accountable.addOperations item_within fun entry member => ?_).accountable
    exact item_within.part (Json.fields?_inside fields (List.mem_append_left _ member))

/-- The rest of the document continues what an operation has come to. -/
theorem Met.continues {method : String} {operation : Json}
    (met : Met source path item method operation p) :
    Continues source (Building.addOperation source path item p (method, operation))
      (allPaths source) := by
  have within := met.within
  have own : Continues source p (Building.addOperation source path item p (method, operation)) :=
    met.accountable.addOperation within.1 within.2
  generalize reached : Building.addOperation source path item p (method, operation) = now at own ⊢
  cases met with
  | @intro method raw item operation before after done rest paths found fields known =>
    have others : Continues source now (rest.foldl (Building.addOperation source path item) now) :=
      own.accountable.addOperations within.1 fun entry member =>
        within.1.part (Json.fields?_inside fields
          (List.mem_append_right _ (List.mem_cons_of_mem _ member)))
    have last := others.accountable.addPaths fun entry member => paths_within paths
      (List.mem_append_right before (List.mem_cons_of_mem (path, raw) member))
    have same : allPaths source = after.foldl (Building.addPath source)
        (rest.foldl (Building.addOperation source path item) now) := by
      simp only [allPaths, paths, List.foldl_append, List.foldl_cons, ← reached]
      simp only [Building.addPath, found, fields, Option.getD_some, List.foldl_append,
        List.foldl_cons]
    rw [same]
    exact others.trans last

end HttpPlan.Building

namespace HttpPlan

open Resolver

/-- A value that is valid for a schema is allowed at the place that the schema has, wherever in the
document and in whatever state the schema was met, as long as its operation has been read. -/
theorem SpecDocument.allows_valid {root value item operation v : Json} {document : SpecDocument}
    {path method : String} {p : Building.Progress} {built : Operation × List Diagnostic}
    {after : Resolver} {id : SchemaId} {accepts : String → String → Prop}
    (read : SpecDocument.ofJson root = .ok document)
    (met : Building.Met (Building.Source.ofJson root) path item method operation p)
    (completes : Building.operation (Building.Source.ofJson root) method path item operation
      p.resolver = .ok built after)
    (asked : Building.Asked root (Building.label method path) item operation p.resolver value id)
    (unmerged : root.Unmerged value) (valid : Json.ValidFor accepts root value v) :
    id < document.schemas.size ∧ document.schemas.Allows accepts id v := by
  have accountable := met.accountable
  have continues := met.continues
  have translates : after.Translates value id :=
    Building.Asked.translates (.refl accountable.valid accountable.recorded) met.within.1
      met.within.2 asked completes
  have known : method ∈ Building.methods := by
    cases met with
    | intro _ _ _ known => exact known
  have schemas : document.schemas = (Building.allPaths (.ofJson root)).resolver.arena := by
    cases root with
    | object fields => cases read; rfl
    | _ => cases read
  rw [Building.addOperation_ok known completes] at continues
  rw [schemas]
  have last := translates.mono continues.retains
  have settled := continues.accountable
  exact ⟨last.inside settled.valid, last.allows settled.recorded settled.finished valid unmerged⟩

namespace Building

def treeDefinition : Json := .object [
  ("type", .array [.string "object", .string "null"]),
  ("properties", .object [("up", referenceTo "Tree")])]

def treeItem : Json := .object [("get", respondingWith (referenceTo "Tree"))]

/-- A definition that takes null, or an object that may hold another of its kind. -/
def treeDocument : Json := .object [
  ("paths", .object [("/trees", treeItem)]),
  ("components", .object [("schemas", .object [("Tree", treeDefinition)])])]

theorem lookup_tree : treeDocument.lookup "#/components/schemas/Tree" = .ok treeDefinition := rfl

theorem no_alternatives {keyword : String} {given : Json}
    (known : keyword ∈ Json.alternativeKeywords) :
    treeDefinition.field? keyword ≠ some given := by
  intro found
  simp only [Json.alternativeKeywords, List.mem_cons, List.not_mem_nil, or_false] at known
  rcases known with rfl | rfl <;> cases found

theorem unmerged_tree : treeDocument.Unmerged (referenceTo "Tree") := by
  intro part reached
  have both : part = referenceTo "Tree" ∨ part = treeDefinition := by
    induction reached with
    | refl => exact Or.inl rfl
    | tail _ leads ih =>
      rcases ih with rfl | rfl
      · cases leads with
        | reference follows found =>
          cases follows
          cases found.symm.trans lookup_tree
          exact Or.inr rfl
        | property plain | items plain | alternative plain => cases plain
      · cases leads with
        | reference follows => cases follows
        | property _ object member =>
          cases object
          cases List.mem_singleton.mp member
          exact Or.inl rfl
        | items _ given => cases given
        | alternative _ known given => exact absurd given (no_alternatives known)
  rcases both with rfl | rfl
  · intro plain
    cases plain
  · intro _ parts given
    cases given

theorem valid_null {accepts : String → String → Prop} :
    Json.ValidFor accepts treeDocument (referenceTo "Tree") .null :=
  .reference rfl lookup_tree (.null rfl (Or.inr ⟨_, rfl, by simp⟩))

theorem valid_up {accepts : String → String → Prop} {v : Json}
    (valid : Json.ValidFor accepts treeDocument (referenceTo "Tree") v) :
    Json.ValidFor accepts treeDocument (referenceTo "Tree") (.object [("up", v)]) := by
  refine .reference rfl lookup_tree (.keywords rfl ?_ ?_ ?_ (fun _ => .null) ?_ ?_)
  · exact {
      type := fun _ => ⟨"object", .object, by simp, rfl, Or.inl rfl⟩
      listed := fun _ given => by cases given
      minimum := fun _ number => by cases number
      maximum := fun _ number => by cases number
      minLength := fun _ _ text => by cases text
      maxLength := fun _ _ text => by cases text
      pattern := fun _ _ text => by cases text
      required := fun _ _ given => by cases given }
  · intro fields name part w object member found
    cases object
    cases List.mem_singleton.mp member
    cases found
    exact valid
  · intro part vs w given
    cases given
  · exact fun keyword known parts given => absurd given (no_alternatives known)
  · exact fun keyword known parts given => absurd given (no_alternatives known)

/-- While the definition is being walked, its own property asks for its place. -/
theorem asked_tree : Asked treeDocument (label "get" "/trees") treeItem
    (respondingWith (referenceTo "Tree")) {} (referenceTo "Tree") 0 := by
  have fuel : budget treeDocument = 25 + 3 := rfl
  refine @Asked.response treeDocument _ _ _ {} _ {} {} {} _ none [] []
    ("200", .object [("schema", referenceTo "Tree")]) ([], []) _ _ rfl rfl rfl rfl
    (.intro rfl rfl rfl) ?_
  rw [fuel]
  refine @Asks.through treeDocument _ _ _ _ "#/components/schemas/Tree" _ _ rfl ?_
  refine .definition rfl lookup_tree rfl ?_
  show Asks treeDocument 26
    (.finish _ [.child (.property "up") (.walked (referenceTo "Tree") _)]) _ _ _
  exact .child (.here rfl)

end Building

open Building in
theorem SpecDocument.allows_valid_tree :
    Asked treeDocument (label "get" "/trees") treeItem (respondingWith (referenceTo "Tree")) {}
      (referenceTo "Tree") 0 ∧
    treeDocument.Unmerged (referenceTo "Tree") ∧
    ∃ document, SpecDocument.ofJson treeDocument = .ok document ∧ 0 < document.schemas.size ∧
      document.schemas.Allows (fun _ _ => True) 0 (.object [("up", .object [("up", .null)])]) := by
  have met : Met (Source.ofJson treeDocument) "/trees" treeItem "get"
      (respondingWith (referenceTo "Tree")) {} :=
    @Met.intro (Source.ofJson treeDocument) "/trees" "get" treeItem treeItem _ [] [] [] []
      rfl rfl rfl (by decide)
  obtain ⟨document, read⟩ : ∃ document, SpecDocument.ofJson treeDocument = .ok document := ⟨_, rfl⟩
  obtain ⟨built, after, completes⟩ : ∃ built after,
      Building.operation (Source.ofJson treeDocument) "get" "/trees" treeItem
        (respondingWith (referenceTo "Tree")) {} = .ok built after := ⟨_, _, rfl⟩
  exact ⟨asked_tree, unmerged_tree, document, read,
    SpecDocument.allows_valid read met completes asked_tree unmerged_tree
      (valid_up (valid_up valid_null))⟩

end HttpPlan
