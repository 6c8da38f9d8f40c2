import HttpPlan.Proofs.Spec.Independence
import HttpPlan.Proofs.Spec.PathTemplate
import HttpPlan.Proofs.Spec.Reordering

/-! The order of the paths and of their operations. Each operation is built or skipped as it would
be by itself, so in any order, except where it alone fails by meeting a definition that it is
walking itself: then another operation that was read before it may have finished that definition. -/
namespace HttpPlan

variable {root root' raw item : Json} {pointer : String}

theorem Resolver.Grounded.reordered (reordered : Json.Reordered root root')
    (grounded : Resolver.Grounded root pointer) : Resolver.Grounded root' pointer := by
  induction grounded with
  | @definition pointer definition =>
    obtain ⟨target, found, plain⟩ := definition
    have both := reordered.lookup_reference? pointer
    rw [found] at both
    cases found' : root'.lookup pointer with
    | error e => rw [found'] at both; exact both.elim
    | ok target' =>
      rw [found'] at both
      exact .definition ⟨target', found', both.symm.trans plain⟩
  | @chain pointer next target found follows _ ih =>
    have both := reordered.lookup_reference? pointer
    rw [found] at both
    cases found' : root'.lookup pointer with
    | error e => rw [found'] at both; exact both.elim
    | ok target' =>
      rw [found'] at both
      exact .chain found' (both.symm.trans follows) ih

theorem Resolver.Reentrant.reordered {error : BuildError} (reordered : Json.Reordered root root')
    (reentrant : Resolver.Reentrant root error) : Resolver.Reentrant root' error := by
  unfold Resolver.Reentrant at reentrant ⊢
  split at reentrant
  · trivial
  · exact reentrant.reordered reordered
  · exact reentrant.elim

namespace Building

open Resolver

variable {source : Source} {p : Progress} {path method name : String} {operation : Json}
  {r : Resolver}

/-- What becomes of an operation. -/
inductive Verdict where
  | built
  | skipped (error : BuildError)
deriving DecidableEq

/-- The verdict on an operation that is read from some state on. -/
def verdict (source : Source) (method path : String) (item operation : Json) (r : Resolver) :
    Verdict :=
  match Building.operation source method path item operation r with
  | .ok _ _ => .built
  | .error error _ => .skipped error

/-- What has been recorded under a label. -/
def Recorded (operations : List Operation) (skipped : List SkippedOperation) (name : String) :
    Verdict → Prop
  | .built => name ∈ operations.map Operation.label
  | .skipped error => ⟨name, error⟩ ∈ skipped

def Progress.Gives (p : Progress) (name : String) (v : Verdict) : Prop :=
  Recorded p.operations p.skipped name v

/-- An operation of the document. -/
inductive Listed (root : Json) : String → Json → String → Json → Prop
  | intro {path method : String} {raw item operation : Json} {entries : List (String × Json)}
      (paths : root.field? "paths" = some (.object entries)) (member : (path, raw) ∈ entries)
      (found : root.deref raw = .ok item) (entry : (method, operation) ∈ item.fields?.getD [])
      (known : method ∈ methods) : Listed root path item method operation

/-- A path whose item cannot be read. -/
inductive Unread (root : Json) : String → BuildError → Prop
  | intro {path : String} {raw : Json} {entries : List (String × Json)} {error : BuildError}
      (paths : root.field? "paths" = some (.object entries)) (member : (path, raw) ∈ entries)
      (fails : root.deref raw = .error error) : Unread root path error

/-- An operation of this label, read alone, meets a definition that it is walking itself. -/
def Entangled (root : Json) (name : String) : Prop :=
  ∃ path item method operation error, Listed root path item method operation ∧
    label method path = name ∧
    verdict (Source.ofJson root) method path item operation {} = .skipped error ∧
    Reentrant root error

theorem Listed.within (listed : Listed root path item method operation) :
    item.Within root ∧ operation.Within root := by
  cases listed with
  | intro paths member found entry known =>
    have item_within : item.Within (Source.ofJson root).root :=
      Json.deref_within (paths_within paths member) found
    exact ⟨item_within, fields_within item_within entry⟩

theorem Met.listed (met : Met source path item method operation p) :
    Listed source.root path item method operation := by
  cases met with
  | intro paths found fields known =>
    exact .intro paths (List.mem_append_right _ List.mem_cons_self) found
      (by rw [fields]; exact List.mem_append_right _ List.mem_cons_self) known

/-- Between two operations, a verdict is the one that the operation has by itself. -/
theorem Settled.verdict_eq (settled : Settled source p)
    (listed : Listed source.root path item method operation)
    (free : ∀ error, verdict source method path item operation {} = .skipped error →
      ¬ Reentrant source.root error) :
    verdict source method path item operation p.resolver =
      verdict source method path item operation {} := by
  have complete : Complete source.root p.resolver := ⟨settled.valid, settled.finished⟩
  have agrees := agrees_operation method path complete listed.within.1 listed.within.2
    (Paired.start complete settled.idle)
  unfold verdict at free ⊢
  unfold Agrees at agrees
  split at agrees
  · next built after run =>
    obtain ⟨also, resolver, walked, -⟩ := agrees
    rw [run, walked]
  · next error after run =>
    rw [run] at free ⊢
    rcases agrees with reentrant | ⟨resolver, walked⟩
    · exact absurd reentrant (free error rfl)
    · rw [walked]

/-- An operation goes by the label that it is read under. -/
theorem yields_label (source : Source) (method path : String) (item operation : Json)
    (r : Resolver) :
    Yields (Building.operation source method path item operation) r
      (fun built _ => built.1.label = label method path) (fun _ _ => True) := by
  unfold Building.operation
  split
  · trivial
  · next template parsed =>
    dsimp only
    refine (yields_anyway _ r).bind fun inputs s _ => ?_
    split
    · trivial
    · refine (yields_anyway _ s).bind fun body t _ => (yields_anyway _ t).bind fun responses u _ => ?_
      show method.toUpper ++ " " ++ template.text = label method path
      rw [PathTemplate.text_of_parse parsed]
      rfl

theorem gives_addOperation {verdict : Verdict} (known : method ∈ methods) :
    (addOperation source path item p (method, operation)).Gives name verdict ↔
      p.Gives name verdict ∨ (label method path = name ∧
        Building.verdict source method path item operation p.resolver = verdict) := by
  have labelled := yields_label source method path item operation p.resolver
  cases run : Building.operation source method path item operation p.resolver with
  | ok built after =>
    have same := yields_ok run labelled
    rw [addOperation_ok known run]
    simp only [Building.verdict, run]
    cases verdict with
    | built => simp [Progress.Gives, Recorded, same, eq_comm]
    | skipped error => simp [Progress.Gives, Recorded]
  | error error after =>
    simp only [Building.verdict, run]
    have added : addOperation source path item p (method, operation) =
        { p with resolver := after.rollback p.resolver.mark }.skip (label method path)
          (label method path) error := by
      simp [addOperation, run, known]
    rw [added]
    cases verdict with
    | built => simp [Progress.Gives, Recorded, Progress.skip]
    | skipped other => simp [Progress.Gives, Recorded, Progress.skip, eq_comm]

/-- What a fold records, if each of its steps adds to what was recorded before. -/
theorem gives_foldl {ι : Type} {step : Progress → ι → Progress} {items : List ι}
    {adds : ι → Prop} {verdict : Verdict}
    (keeps : ∀ i ∈ items, ∀ p, Settled source p → Settled source (step p i))
    (each : ∀ i ∈ items, ∀ p, Settled source p →
      ((step p i).Gives name verdict ↔ p.Gives name verdict ∨ adds i))
    (settled : Settled source p) :
    (items.foldl step p).Gives name verdict ↔ p.Gives name verdict ∨ ∃ i ∈ items, adds i := by
  induction items generalizing p with
  | nil => simp
  | cons first rest ih =>
    have now := ih (fun i member => keeps i (by simp [member])) (fun i member => each i (by simp [member]))
      (keeps first (by simp) p settled)
    rw [List.foldl_cons, now, each first (by simp) p settled]
    simp [or_assoc]

/-- What an operation of this path adds under a label, read alone. -/
def Adds (root : Json) (path name : String) (item : Json) (v : Verdict) (entry : String × Json) :
    Prop :=
  entry.1 ∈ methods ∧ label entry.1 path = name ∧
    verdict (Source.ofJson root) entry.1 path item entry.2 {} = v

/-- What a path adds under a label. -/
def PathAdds (root : Json) (name : String) (v : Verdict) (entry : String × Json) : Prop :=
  (∃ item, root.deref entry.2 = .ok item ∧
    ∃ operation ∈ item.fields?.getD [], Adds root entry.1 name item v operation) ∨
  ∃ error, root.deref entry.2 = .error error ∧ "* " ++ entry.1 = name ∧ v = .skipped error

theorem gives_operations {v : Verdict} {paths : List (String × Json)}
    (free : ¬ Entangled root name) (found : root.field? "paths" = some (.object paths))
    (member : (path, raw) ∈ paths) (read : root.deref raw = .ok item)
    (within : item.Within (Source.ofJson root).root) (settled : Settled (Source.ofJson root) p) :
    ((item.fields?.getD []).foldl (addOperation (Source.ofJson root) path item) p).Gives name v ↔
      p.Gives name v ∨ ∃ entry ∈ item.fields?.getD [], Adds root path name item v entry := by
  have inside : ∀ entry ∈ item.fields?.getD [], entry.2.Within (Source.ofJson root).root :=
    fun entry => fields_within within
  refine gives_foldl (fun entry here p now => now.addOperation within (inside entry here))
    (fun entry here p now => ?_) settled
  obtain ⟨method, operation⟩ := entry
  by_cases known : method ∈ methods
  · rw [gives_addOperation known]
    by_cases named : label method path = name
    · have listed : Listed root path item method operation := .intro found member read here known
      have same := now.verdict_eq listed fun error fails meets =>
        free ⟨path, item, method, operation, error, listed, named, fails, meets⟩
      simp only [same, Adds, known, named, true_and]
    · simp only [Adds, named, false_and, and_false]
  · have skipped : addOperation (Source.ofJson root) path item p (method, operation) = p := by
      simp [addOperation, known]
    rw [skipped]
    exact ⟨Or.inl, fun given => given.resolve_right fun adds => known adds.1⟩

theorem gives_addPath {v : Verdict} {paths : List (String × Json)} (free : ¬ Entangled root name)
    (found : root.field? "paths" = some (.object paths)) (member : (path, raw) ∈ paths)
    (settled : Settled (Source.ofJson root) p) :
    (addPath (Source.ofJson root) p (path, raw)).Gives name v ↔
      p.Gives name v ∨ PathAdds root name v (path, raw) := by
  have within : raw.Within (Source.ofJson root).root := paths_within found member
  have document : (Source.ofJson root).root = root := rfl
  simp only [addPath, PathAdds, document]
  cases read : root.deref raw with
  | error error =>
    cases v with
    | built => simp [Progress.Gives, Recorded, Progress.skip]
    | skipped other => simp [Progress.Gives, Recorded, Progress.skip, eq_comm]
  | ok item =>
    apply (gives_operations free found member read (Json.deref_within within read) settled).trans
    refine or_congr_right ⟨fun adds => Or.inl ⟨item, rfl, adds⟩, fun adds => ?_⟩
    rcases adds with ⟨also, same, adds⟩ | ⟨error, fails, -⟩
    · cases same
      exact adds
    · cases fails

/-- What a document records under a label where no operation is entangled: what the operations of
that label come to alone, and the paths that cannot be read. -/
theorem gives_allPaths {v : Verdict} (free : ¬ Entangled root name) :
    (allPaths (Source.ofJson root)).Gives name v ↔
      (∃ path item method operation, Listed root path item method operation ∧
        label method path = name ∧
        verdict (Source.ofJson root) method path item operation {} = v) ∨
      ∃ path error, Unread root path error ∧ "* " ++ path = name ∧ v = .skipped error := by
  have nothing : ¬ ({} : Progress).Gives name v := by
    cases v <;> simp [Progress.Gives, Recorded]
  have document : (Source.ofJson root).root = root := rfl
  unfold allPaths
  rw [document]
  split
  · next paths found =>
    rw [gives_foldl (fun entry member p now => now.addPath (paths_within found member))
      (fun entry member p now => gives_addPath free found member now) (.start _)]
    constructor
    · rintro (given | ⟨⟨path, raw⟩, member, adds⟩)
      · exact absurd given nothing
      · rcases adds with ⟨item, read, ⟨method, operation⟩, here, known, named, told⟩ |
          ⟨error, fails, named, told⟩
        · exact Or.inl ⟨path, item, method, operation, .intro found member read here known, named,
            told⟩
        · exact Or.inr ⟨path, error, .intro found member fails, named, told⟩
    · rintro (⟨path, item, method, operation, listed, named, told⟩ | ⟨path, error, unread, named, told⟩)
      · cases listed with
        | intro also member read here known =>
          cases found.symm.trans also
          exact Or.inr ⟨(path, _), member,
            Or.inl ⟨item, read, (method, operation), here, known, named, told⟩⟩
      · cases unread with
        | intro also member fails =>
          cases found.symm.trans also
          exact Or.inr ⟨(path, _), member, Or.inr ⟨error, fails, named, told⟩⟩
  · next none =>
    constructor
    · intro given
      cases v <;> simp [Progress.Gives, Recorded] at given
    · rintro (⟨path, item, method, operation, listed, -⟩ | ⟨path, error, unread, -⟩)
      · cases listed with
        | intro also => exact absurd also (none _)
      · cases unread with
        | intro also => exact absurd also (none _)

theorem path_reordered {paths : List (String × Json)} (reordered : Json.Reordered root root')
    (unnamed : root.PathsUnnamed) (found : root.field? "paths" = some (.object paths))
    (member : (path, raw) ∈ paths) :
    ∃ paths' raw', root'.field? "paths" = some (.object paths') ∧ (path, raw') ∈ paths' ∧
      Json.BothRead Json.Resembles (root.deref raw) (root'.deref raw') := by
  obtain ⟨also, paths', one, two, -, shuffled⟩ := reordered.field?_paths
  cases found.symm.trans one
  obtain ⟨raw', member', rearranged⟩ := shuffled.mem member
  have within : raw.Within (Source.ofJson root).root := paths_within found member
  exact ⟨paths', raw', two, member', Json.deref_reordered reordered unnamed rearranged within⟩

/-- Each operation of a document is an operation of a reordered one, with the same verdict. -/
theorem Listed.reordered (reordered : Json.Reordered root root') (unnamed : root.PathsUnnamed)
    (listed : Listed root path item method operation) :
    ∃ item', Listed root' path item' method operation ∧
      verdict (Source.ofJson root') method path item' operation {} =
        verdict (Source.ofJson root) method path item operation {} := by
  obtain ⟨item_within, within⟩ := listed.within
  cases listed with
  | intro found member read here known =>
    obtain ⟨paths', raw', found', member', both⟩ := path_reordered reordered unnamed found member
    rw [read] at both
    cases read' : root'.deref raw' with
    | error e => rw [read'] at both; exact both.elim
    | ok item' =>
      rw [read'] at both
      have resembles : Json.Resembles item item' := both
      have apart : method ≠ "paths" := fun same => absurd (same ▸ known) (by decide)
      refine ⟨item', .intro found' member' read' ?_ known, ?_⟩
      · cases resembles with
        | same => exact here
        | object field entries => exact (entries method operation apart).mp here
      · unfold verdict
        rw [operation_reordered reordered unnamed item_within resembles within]

theorem Unread.reordered {error : BuildError} (reordered : Json.Reordered root root')
    (unnamed : root.PathsUnnamed) (unread : Unread root path error) : Unread root' path error := by
  cases unread with
  | intro found member fails =>
    obtain ⟨paths', raw', found', member', both⟩ := path_reordered reordered unnamed found member
    rw [fails] at both
    cases fails' : root'.deref raw' with
    | ok item' => rw [fails'] at both; exact both.elim
    | error e =>
      rw [fails'] at both
      cases both
      exact .intro found' member' fails'

theorem Entangled.reordered (reordered : Json.Reordered root root') (unnamed : root.PathsUnnamed)
    (entangled : Entangled root name) : Entangled root' name := by
  obtain ⟨path, item, method, operation, error, listed, named, fails, meets⟩ := entangled
  obtain ⟨item', listed', same⟩ := listed.reordered reordered unnamed
  exact ⟨path, item', method, operation, error, listed', named, same.trans fails,
    meets.reordered reordered⟩

theorem gives_reordered {v : Verdict} (reordered : Json.Reordered root root')
    (unnamed : root.PathsUnnamed) (free : ¬ Entangled root name)
    (given : (allPaths (Source.ofJson root)).Gives name v) :
    (allPaths (Source.ofJson root')).Gives name v := by
  have free' : ¬ Entangled root' name := fun entangled =>
    free (entangled.reordered reordered.symm (reordered.pathsUnnamed unnamed))
  rcases (gives_allPaths free).mp given with ⟨path, item, method, operation, listed, named, told⟩ |
      ⟨path, error, unread, named, told⟩
  · obtain ⟨item', listed', same⟩ := listed.reordered reordered unnamed
    exact (gives_allPaths free').mpr
      (Or.inl ⟨path, item', method, operation, listed', named, same.trans told⟩)
  · exact (gives_allPaths free').mpr
      (Or.inr ⟨path, error, unread.reordered reordered unnamed, named, told⟩)

/-- What has been recorded stays. -/
theorem gives_foldl_later {ι : Type} {step : Progress → ι → Progress} {v : Verdict}
    (each : ∀ i p, p.Gives name v → (step p i).Gives name v) (items : List ι)
    (given : p.Gives name v) : (items.foldl step p).Gives name v := by
  induction items generalizing p with
  | nil => exact given
  | cons first rest ih => exact ih (each first p given)

theorem gives_addOperation_later {v : Verdict} {entry : String × Json} (given : p.Gives name v) :
    (addOperation source path item p entry).Gives name v := by
  obtain ⟨method, operation⟩ := entry
  by_cases known : method ∈ methods
  · exact (gives_addOperation known).mpr (Or.inl given)
  · simpa [addOperation, known] using given

theorem gives_addPath_later {v : Verdict} {entry : String × Json} (given : p.Gives name v) :
    (addPath source p entry).Gives name v := by
  unfold addPath
  dsimp only
  split
  · cases v with
    | built => exact given
    | skipped error => exact List.mem_append_left _ given
  · exact gives_foldl_later (fun _ _ => gives_addOperation_later) _ given

/-- An operation whose path item stands among the paths itself. -/
inductive Direct (root : Json) : String → Json → String → Json → Prop
  | intro {path method : String} {operation : Json} {fields entries : List (String × Json)}
      (paths : root.field? "paths" = some (.object entries))
      (distinct : (entries.map Prod.fst).Nodup) (member : (path, .object fields) ∈ entries)
      (plain : (Json.object fields).reference? = none) (unique : (fields.map Prod.fst).Nodup)
      (entry : (method, operation) ∈ fields) (known : method ∈ methods) :
      Direct root path (.object fields) method operation

/-- In some order an operation comes first, and there its verdict is the one it has alone. -/
theorem Direct.exists_order (unnamed : root.PathsUnnamed)
    (direct : Direct root path item method operation) :
    ∃ root', Json.Reordered root root' ∧ (allPaths (Source.ofJson root')).Gives
      (label method path) (verdict (Source.ofJson root) method path item operation {}) := by
  cases direct with
  | @intro _ _ fields _ paths distinct member plain unique entry known =>
    obtain ⟨root', others, rest, reordered, perm, first⟩ :=
      Json.exists_reordered paths distinct member unique entry
    have resembles := (Json.Rearranged.entries perm unique).resembles
    have item_within : (Json.object fields).Within (Source.ofJson root).root :=
      paths_within paths member
    have same : verdict (Source.ofJson root') method path
        (.object ((method, operation) :: rest)) operation {} =
        verdict (Source.ofJson root) method path (.object fields) operation {} := by
      unfold verdict
      rw [operation_reordered reordered unnamed item_within resembles
        (item_within.part (Json.field_inside entry))]
    refine ⟨root', reordered, ?_⟩
    have document : (Source.ofJson root').root = root' := rfl
    have read := Json.deref_plain root' (resembles.reference?.symm.trans plain)
    rw [allPaths, document, first]
    refine gives_foldl_later (fun _ _ => gives_addPath_later) others ?_
    simp only [addPath, document, read]
    refine gives_foldl_later (fun _ _ => gives_addOperation_later) rest ?_
    exact (gives_addOperation known).mpr (Or.inr ⟨rfl, same⟩)

end Building

/-- What a document records under a label. -/
def SpecDocument.Gives (document : SpecDocument) (name : String) (v : Building.Verdict) : Prop :=
  Building.Recorded document.operations document.skipped name v

theorem SpecDocument.ofJson_gives (fields : List (String × Json)) :
    ∃ document, SpecDocument.ofJson (.object fields) = .ok document ∧ ∀ name v,
      document.Gives name v ↔ (Building.allPaths (Building.Source.ofJson (.object fields))).Gives name v :=
  ⟨_, rfl, fun _ _ => Iff.rfl⟩

open Building in
/-- Whatever was read before it, an operation gets the verdict that it gets alone; but for an
operation that alone meets a definition that it is walking itself. Unless a reference names the
paths as a whole, it gets that verdict in any order of the paths and of their entries, and what any
operation gets alone, it gets in some order. -/
theorem SpecDocument.ofJson_reordered (root : Json) :
    (∀ path item method operation p,
      Met (Source.ofJson root) path item method operation p →
      ¬ Entangled root (label method path) →
        verdict (Source.ofJson root) method path item operation p.resolver =
          verdict (Source.ofJson root) method path item operation {}) ∧
    (root.PathsUnnamed →
      (∀ root', Json.Reordered root root' →
        ∃ document document', SpecDocument.ofJson root = .ok document ∧
          SpecDocument.ofJson root' = .ok document' ∧
          ∀ name, ¬ Entangled root name → ∀ v, document.Gives name v ↔ document'.Gives name v) ∧
      (∀ path item method operation, Direct root path item method operation →
        ∃ root' document', Json.Reordered root root' ∧
          SpecDocument.ofJson root' = .ok document' ∧
          document'.Gives (label method path)
            (verdict (Source.ofJson root) method path item operation {}))) := by
  refine ⟨fun path item method operation p met free => ?_, fun unnamed =>
    ⟨fun root' reordered => ?_, fun path item method operation direct => ?_⟩⟩
  · refine met.settled.verdict_eq met.listed fun error fails meets => free ?_
    exact ⟨path, item, method, operation, error, met.listed, rfl, fails, meets⟩
  · obtain ⟨fields, fields', rfl, rfl⟩ := reordered.objects
    obtain ⟨document, built, records⟩ := ofJson_gives fields
    obtain ⟨document', built', records'⟩ := ofJson_gives fields'
    refine ⟨document, document', built, built', fun name free v => ?_⟩
    rw [records, records']
    have free' : ¬ Entangled (.object fields') name := fun entangled =>
      free (entangled.reordered reordered.symm (reordered.pathsUnnamed unnamed))
    exact ⟨gives_reordered reordered unnamed free,
      gives_reordered reordered.symm (reordered.pathsUnnamed unnamed) free'⟩
  · obtain ⟨root', reordered, given⟩ := direct.exists_order unnamed
    obtain ⟨fields, fields', rfl, rfl⟩ := reordered.objects
    obtain ⟨document', built', records'⟩ := ofJson_gives fields'
    exact ⟨_, document', reordered, built', (records' _ _).mpr given⟩

namespace Building

/-- An alias and a definition that refers back to it, under the paths that are given. -/
def linkedDocument (paths : List (String × Json)) : Json := .object [
  ("components", .object [("schemas", .object [
    ("A", referenceTo "B"),
    ("B", .object [("type", .string "object"),
      ("properties", .object [("x", referenceTo "A")])])])]),
  ("paths", .object paths)]

def aliasPath : String × Json := ("/a", .object [("get", respondingWith (referenceTo "A"))])

def nodePath : String × Json := ("/b", .object [("get", respondingWith (referenceTo "B"))])

theorem linked_reordered :
    Json.Reordered (linkedDocument [aliasPath, nodePath]) (linkedDocument [nodePath, aliasPath]) :=
  @Json.Reordered.paths [_] [] _ _ (by simp) (by decide) (.swap _ _ _)

theorem linked_unnamed : (linkedDocument [aliasPath, nodePath]).PathsUnnamed := by
  unfold Json.PathsUnnamed
  decide

theorem linked_free :
    ¬ Entangled (linkedDocument [aliasPath, nodePath]) (label "get" "/b") := by
  rintro ⟨path, item, method, operation, error, listed, named, fails, -⟩
  cases listed with
  | intro paths member read entry known =>
    cases (show some (Json.object [aliasPath, nodePath]) = some (Json.object _) from paths)
    rcases List.mem_cons.mp member with same | member
    · cases same
      cases (show Except.ok aliasPath.2 = Except.ok item from read)
      cases List.mem_singleton.mp entry
      exact absurd named (by decide +kernel)
    · cases List.mem_singleton.mp member
      cases (show Except.ok nodePath.2 = Except.ok item from read)
      cases List.mem_singleton.mp entry
      cases (show Verdict.built = .skipped error from fails)

/-- The alias is skipped if it is read before its definition, and built if it is read after it. -/
theorem first_read_decides :
    Json.Reordered (linkedDocument [aliasPath, nodePath]) (linkedDocument [nodePath, aliasPath]) ∧
    ∃ document document',
      SpecDocument.ofJson (linkedDocument [aliasPath, nodePath]) = .ok document ∧
      SpecDocument.ofJson (linkedDocument [nodePath, aliasPath]) = .ok document' ∧
      document.operations.map Operation.label = ["GET /b"] ∧
      document.skipped =
        [⟨"GET /a", .unsupportedConstruct "#/components/schemas/A" .circularAlias⟩] ∧
      document'.operations.map Operation.label = ["GET /b", "GET /a"] ∧
      document'.skipped = [] :=
  ⟨linked_reordered, _, _, rfl, rfl, by decide +kernel, by decide +kernel, by decide +kernel,
    by decide +kernel⟩

/-- A document whose operation refers to the paths as to a schema. -/
def selfNamingDocument (entries : List (String × Json)) : Json := .object [
  ("paths", .object [
    ("/a", .object [("get", respondingWith (.object [("$ref", .string "#/paths")]))]),
    ("properties", .object entries)])]

def alphaEntry : String × Json := ("get", .object [("type", .string "alpha")])

def betaEntry : String × Json := ("put", .object [("type", .string "beta")])

/-- Where the paths are a schema as well, their order is that of its properties, and it decides
which of two unsupported ones is reported. -/
theorem named_paths_decide :
    Json.Reordered (selfNamingDocument [alphaEntry, betaEntry])
      (selfNamingDocument [betaEntry, alphaEntry]) ∧
    ∃ document document',
      SpecDocument.ofJson (selfNamingDocument [alphaEntry, betaEntry]) = .ok document ∧
      SpecDocument.ofJson (selfNamingDocument [betaEntry, alphaEntry]) = .ok document' ∧
      document.skipped.head? = some ⟨"GET /a",
        .unsupportedConstruct "#/paths/properties/get" (.typeName "alpha")⟩ ∧
      document'.skipped.head? = some ⟨"GET /a",
        .unsupportedConstruct "#/paths/properties/put" (.typeName "beta")⟩ :=
  ⟨@Json.Reordered.paths [] [] _ _ (by simp) (by decide)
    (.cons (.same _) (.cons (.entries (.swap _ _ _) (by decide)) .nil)),
    _, _, rfl, rfl, by decide +kernel, by decide +kernel⟩

theorem ofJson_reordered_linked :
    (linkedDocument [aliasPath, nodePath]).PathsUnnamed ∧
    (∃ p, Met (Source.ofJson (linkedDocument [aliasPath, nodePath])) "/b" nodePath.2 "get"
        (respondingWith (referenceTo "B")) p ∧ p.skipped.length = 1 ∧
      verdict (Source.ofJson (linkedDocument [aliasPath, nodePath])) "get" "/b" nodePath.2
        (respondingWith (referenceTo "B")) p.resolver = .built) ∧
    (∃ document document',
      SpecDocument.ofJson (linkedDocument [aliasPath, nodePath]) = .ok document ∧
      SpecDocument.ofJson (linkedDocument [nodePath, aliasPath]) = .ok document' ∧
      document.Gives (label "get" "/b") .built ∧ document'.Gives (label "get" "/b") .built) ∧
    ∃ root' document', Json.Reordered (linkedDocument [aliasPath, nodePath]) root' ∧
      SpecDocument.ofJson root' = .ok document' ∧
      document'.Gives (label "get" "/a")
        (.skipped (.unsupportedConstruct "#/components/schemas/A" .circularAlias)) := by
  obtain ⟨moments, onward⟩ :=
    SpecDocument.ofJson_reordered (linkedDocument [aliasPath, nodePath])
  obtain ⟨orders, alone⟩ := onward linked_unnamed
  have met : Met (Source.ofJson (linkedDocument [aliasPath, nodePath])) "/b" nodePath.2 "get"
      (respondingWith (referenceTo "B"))
      (addPath (Source.ofJson (linkedDocument [aliasPath, nodePath])) {} aliasPath) :=
    @Met.intro (Source.ofJson (linkedDocument [aliasPath, nodePath])) "/b" "get" nodePath.2
      nodePath.2 _ [aliasPath] [] [] [] rfl rfl rfl (by decide)
  have direct : Direct (linkedDocument [aliasPath, nodePath]) "/a" aliasPath.2 "get"
      (respondingWith (referenceTo "A")) :=
    .intro rfl (by decide) List.mem_cons_self rfl (by decide) List.mem_cons_self (by decide)
  obtain ⟨document, document', built, built', same⟩ := orders _ linked_reordered
  have given : document.Gives (label "get" "/b") .built := by
    cases built
    show label "get" "/b" ∈ _
    decide +kernel
  exact ⟨linked_unnamed, ⟨_, met, by decide +kernel, moments _ _ _ _ _ met linked_free⟩,
    ⟨document, document', built, built', given, (same _ linked_free _).mp given⟩,
    alone _ _ _ _ direct⟩

end Building

end HttpPlan
