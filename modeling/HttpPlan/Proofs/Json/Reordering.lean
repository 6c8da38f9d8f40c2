import HttpPlan.Proofs.Json.Within
import HttpPlan.Proofs.OrderedMap

/-! Documents that differ only in the order of their paths and of the entries of their path items.
What a reference points at is the same in both, up to that order. -/
namespace HttpPlan.Json

variable {v v' w w' root root' : Json} {fields fields' l l' : List (String × Json)}
  {key pointer : String}

/-- A path item with its entries in another order. -/
inductive Rearranged : Json → Json → Prop
  | same (v : Json) : Rearranged v v
  | entries {fields fields' : List (String × Json)} (perm : fields.Perm fields')
      (distinct : (fields.map Prod.fst).Nodup) : Rearranged (.object fields) (.object fields')

/-- Paths in another order, each path item rearranged. -/
inductive Shuffled : List (String × Json) → List (String × Json) → Prop
  | nil : Shuffled [] []
  | cons {key : String} {v v' : Json} {rest rest' : List (String × Json)}
      (item : Rearranged v v') (onward : Shuffled rest rest') :
      Shuffled ((key, v) :: rest) ((key, v') :: rest')
  | swap (first second : String × Json) (rest : List (String × Json)) :
      Shuffled (first :: second :: rest) (second :: first :: rest)
  | trans {l mid l' : List (String × Json)} (first : Shuffled l mid) (last : Shuffled mid l') :
      Shuffled l l'

/-- A document with its paths shuffled, and nothing else changed. -/
inductive Reordered : Json → Json → Prop
  | paths {before after paths paths' : List (String × Json)} (first : "paths" ∉ before.map Prod.fst)
      (distinct : (paths.map Prod.fst).Nodup) (shuffled : Shuffled paths paths') :
      Reordered (.object (before ++ ("paths", .object paths) :: after))
        (.object (before ++ ("paths", .object paths') :: after))

/-- A reference to the paths as a whole. -/
def NamesPaths (pointer : String) : Bool :=
  match pointer.toList with
  | '#' :: '/' :: rest =>
    ((Text.pieces '/' rest).map unescapeSegment).map String.ofList = ["paths"]
  | _ => false

/-- No reference of the document names its paths as a whole. -/
def PathsUnnamed (root : Json) : Prop := ∀ pointer ∈ root.references, ¬ NamesPaths pointer

theorem lookup_of_mem (distinct : (l.map Prod.fst).Nodup) (member : (key, v) ∈ l) :
    l.lookup key = some v :=
  OrderedMap.get?_of_mem (m := ⟨l, distinct⟩) member

theorem lookup_perm (perm : l.Perm l') (distinct : (l.map Prod.fst).Nodup) (key : String) :
    l.lookup key = l'.lookup key := by
  have distinct' : (l'.map Prod.fst).Nodup := (perm.map Prod.fst).nodup_iff.mp distinct
  cases found : l'.lookup key with
  | some v => exact lookup_of_mem distinct (perm.mem_iff.mpr (mem_of_lookup found))
  | none =>
    cases other : l.lookup key with
    | none => rfl
    | some v =>
      have also := lookup_of_mem distinct' (perm.mem_iff.mp (mem_of_lookup other))
      cases found.symm.trans also

namespace Rearranged

theorem symm (item : Rearranged v v') : Rearranged v' v := by
  cases item with
  | same => exact .same _
  | entries perm distinct => exact .entries perm.symm ((perm.map Prod.fst).nodup_iff.mp distinct)

theorem trans (first : Rearranged v v') (last : Rearranged v' w) : Rearranged v w := by
  cases first with
  | same => exact last
  | entries perm distinct =>
    cases last with
    | same => exact .entries perm distinct
    | entries onward _ => exact .entries (perm.trans onward) distinct

theorem string? (item : Rearranged v v') : v.string? = v'.string? := by
  cases item <;> rfl

theorem descend (item : Rearranged v v') (segment : List Char) :
    v.descend segment = v'.descend segment := by
  cases item with
  | same => rfl
  | entries perm distinct => exact lookup_perm perm distinct _

end Rearranged

theorem referencesInFields_eq (fields : List (String × Json)) :
    referencesInFields fields = fields.flatMap fun entry =>
      (if entry.1 = "$ref" then entry.2.string?.toList else []) ++ references entry.2 := by
  induction fields with
  | nil => rfl
  | cons entry rest ih => rw [referencesInFields, ih, List.flatMap_cons]

theorem referencesInFields_append (first last : List (String × Json)) :
    referencesInFields (first ++ last) = referencesInFields first ++ referencesInFields last := by
  simp only [referencesInFields_eq, List.flatMap_append]

theorem depthOfFields_append (first last : List (String × Json)) :
    depthOfFields (first ++ last) = max (depthOfFields first) (depthOfFields last) := by
  induction first with
  | nil => simp [depthOfFields]
  | cons entry rest ih =>
    simp only [List.cons_append, depthOfFields, ih, Nat.max_assoc]

theorem depthOfFields_perm (perm : l.Perm l') : depthOfFields l = depthOfFields l' := by
  induction perm with
  | nil => rfl
  | cons entry _ ih => simp only [depthOfFields, ih]
  | swap first second rest => simp only [depthOfFields, Nat.max_left_comm]
  | trans _ _ one two => exact one.trans two

theorem Rearranged.depth (item : Rearranged v v') : v.depth = v'.depth := by
  cases item with
  | same => rfl
  | entries perm _ => simp only [Json.depth, depthOfFields_perm perm]

theorem Rearranged.references (item : Rearranged v v') : v.references.Perm v'.references := by
  cases item with
  | same => exact .refl _
  | entries perm _ =>
    simp only [Json.references, referencesInFields_eq]
    exact perm.flatMap_right _

namespace Shuffled

theorem keys (shuffled : Shuffled l l') : (l.map Prod.fst).Perm (l'.map Prod.fst) := by
  induction shuffled with
  | nil => exact .refl _
  | cons _ _ ih => exact ih.cons _
  | swap first second rest => exact .swap _ _ _
  | trans _ _ one two => exact one.trans two

theorem symm (shuffled : Shuffled l l') : Shuffled l' l := by
  induction shuffled with
  | nil => exact .nil
  | cons item _ ih => exact .cons item.symm ih
  | swap first second rest => exact .swap _ _ _
  | trans _ _ one two => exact two.trans one

theorem of_perm (perm : l.Perm l') : Shuffled l l' := by
  induction perm with
  | nil => exact .nil
  | cons entry _ ih => exact .cons (.same _) ih
  | swap first second rest => exact .swap _ _ _
  | trans _ _ one two => exact .trans one two

theorem mem (shuffled : Shuffled l l') (member : (key, v) ∈ l) :
    ∃ v', (key, v') ∈ l' ∧ Rearranged v v' := by
  induction shuffled generalizing v with
  | nil => cases member
  | cons item _ ih =>
    rcases List.mem_cons.mp member with same | later
    · cases same
      exact ⟨_, List.mem_cons_self, item⟩
    · obtain ⟨v', member, rearranged⟩ := ih later
      exact ⟨v', List.mem_cons_of_mem _ member, rearranged⟩
  | swap first second rest => exact ⟨v, (List.Perm.swap _ _ _).mem_iff.mp member, .same v⟩
  | trans _ _ one two =>
    obtain ⟨mid, member, first⟩ := one member
    obtain ⟨v', member, last⟩ := two member
    exact ⟨v', member, first.trans last⟩

theorem lookup (shuffled : Shuffled l l') (distinct : (l.map Prod.fst).Nodup) (key : String) :
    (l.lookup key = none ∧ l'.lookup key = none) ∨
      ∃ v v', l.lookup key = some v ∧ l'.lookup key = some v' ∧ Rearranged v v' := by
  have distinct' : (l'.map Prod.fst).Nodup := shuffled.keys.nodup_iff.mp distinct
  cases found : l.lookup key with
  | some v =>
    obtain ⟨v', member, item⟩ := shuffled.mem (mem_of_lookup found)
    exact Or.inr ⟨v, v', rfl, lookup_of_mem distinct' member, item⟩
  | none =>
    cases other : l'.lookup key with
    | none => exact Or.inl ⟨rfl, rfl⟩
    | some v' =>
      obtain ⟨v, member, -⟩ := shuffled.symm.mem (mem_of_lookup other)
      cases found.symm.trans (lookup_of_mem distinct member)

theorem depth (shuffled : Shuffled l l') : depthOfFields l = depthOfFields l' := by
  induction shuffled with
  | nil => rfl
  | cons item _ ih => simp only [depthOfFields, ih, item.depth]
  | swap first second rest => exact depthOfFields_perm (.swap _ _ _)
  | trans _ _ one two => exact one.trans two

theorem references (shuffled : Shuffled l l') :
    (referencesInFields l).Perm (referencesInFields l') := by
  induction shuffled with
  | nil => exact .refl _
  | cons item _ ih =>
    simp only [referencesInFields, item.string?]
    exact (item.references.append_left _).append ih
  | swap first second rest =>
    simp only [referencesInFields_eq]
    exact List.Perm.flatMap_right _ (.swap _ _ _)
  | trans _ _ one two => exact one.trans two

end Shuffled

/-- Values with the same fields, apart from the paths. -/
inductive Resembles : Json → Json → Prop
  | same (v : Json) : Resembles v v
  | object {fields fields' : List (String × Json)}
      (field : ∀ key, key ≠ "paths" → fields.lookup key = fields'.lookup key)
      (member : ∀ key value, key ≠ "paths" → ((key, value) ∈ fields ↔ (key, value) ∈ fields')) :
      Resembles (.object fields) (.object fields')

theorem Resembles.field? (resembles : Resembles v v') (other : key ≠ "paths") :
    v.field? key = v'.field? key := by
  cases resembles with
  | same => rfl
  | object field _ => exact field key other

theorem Resembles.stringField? (resembles : Resembles v v') (other : key ≠ "paths") :
    v.stringField? key = v'.stringField? key := by
  rw [Json.stringField?, Json.stringField?, resembles.field? other]

theorem Resembles.reference? (resembles : Resembles v v') : v.reference? = v'.reference? :=
  resembles.stringField? (by decide)

theorem Rearranged.resembles (item : Rearranged v v') : Resembles v v' := by
  cases item with
  | same => exact .same _
  | entries perm distinct =>
    exact .object (fun key _ => lookup_perm perm distinct key) fun _ _ _ => perm.mem_iff

namespace Reordered

theorem symm (reordered : Reordered root root') : Reordered root' root := by
  cases reordered with
  | paths first distinct shuffled =>
    exact .paths first (shuffled.keys.nodup_iff.mp distinct) shuffled.symm

theorem objects (reordered : Reordered root root') :
    ∃ fields fields', root = .object fields ∧ root' = .object fields' := by
  cases reordered with
  | paths => exact ⟨_, _, rfl, rfl⟩

theorem resembles (reordered : Reordered root root') : Resembles root root' := by
  cases reordered with
  | paths first distinct shuffled =>
    refine .object (fun key other => ?_) fun key value other => ?_
    · have apart : (key == "paths") = false := by simpa using other
      simp only [List.lookup_append, List.lookup_cons, apart]
    · simp [other]

theorem depth (reordered : Reordered root root') : root.depth = root'.depth := by
  cases reordered with
  | paths first distinct shuffled =>
    simp only [Json.depth, depthOfFields_append, depthOfFields, shuffled.depth]

theorem references (reordered : Reordered root root') :
    root.references.Perm root'.references := by
  cases reordered with
  | paths first distinct shuffled =>
    simp only [Json.references, referencesInFields_append, referencesInFields]
    exact ((shuffled.references.append_left _).append_right _).append_left _

theorem pathsUnnamed (reordered : Reordered root root') (unnamed : root.PathsUnnamed) :
    root'.PathsUnnamed :=
  fun pointer member => unnamed pointer (reordered.references.mem_iff.mpr member)

/-- Both have paths. -/
theorem field?_paths (reordered : Reordered root root') :
    ∃ paths paths', root.field? "paths" = some (.object paths) ∧
      root'.field? "paths" = some (.object paths') ∧ (paths.map Prod.fst).Nodup ∧
      Shuffled paths paths' := by
  cases reordered with
  | @paths before after paths paths' first distinct shuffled =>
    have absent : before.lookup "paths" = none :=
      List.lookup_eq_none_iff.mpr fun entry member =>
        bne_iff_ne.mpr fun same => first (List.mem_map.mpr ⟨entry, member, same.symm⟩)
    refine ⟨paths, paths', ?_, ?_, distinct, shuffled⟩
    · simp [Json.field?, List.lookup_append, absent]
    · simp [Json.field?, List.lookup_append, absent]

end Reordered

/-- Any path may come first, and any of its entries may come first in it. -/
theorem exists_reordered {paths : List (String × Json)} {method : String} {operation : Json}
    (found : root.field? "paths" = some (.object paths)) (distinct : (paths.map Prod.fst).Nodup)
    (member : (key, .object fields) ∈ paths) (unique : (fields.map Prod.fst).Nodup)
    (entry : (method, operation) ∈ fields) :
    ∃ root' others rest, Reordered root root' ∧
      fields.Perm ((method, operation) :: rest) ∧
      root'.field? "paths" =
        some (.object ((key, .object ((method, operation) :: rest)) :: others)) := by
  obtain ⟨earlier, later, rfl⟩ := List.append_of_mem member
  obtain ⟨done, left, rfl⟩ := List.append_of_mem entry
  cases root with
  | object document =>
    obtain ⟨before, after, rfl, first⟩ := List.lookup_eq_some_iff.mp found
    have absent : "paths" ∉ before.map Prod.fst := fun present => by
      obtain ⟨other, inside, same⟩ := List.mem_map.mp present
      exact bne_iff_ne.mp (first other inside) same.symm
    have moved : (done ++ (method, operation) :: left).Perm ((method, operation) :: (done ++ left)) :=
      List.perm_middle
    have shuffled : Shuffled (earlier ++ (key, .object (done ++ (method, operation) :: left)) :: later)
        ((key, .object ((method, operation) :: (done ++ left))) :: (earlier ++ later)) :=
      .trans (.of_perm List.perm_middle)
        (.cons (.entries moved unique) (.of_perm (.refl _)))
    refine ⟨_, earlier ++ later, done ++ left, .paths absent distinct shuffled, moved, ?_⟩
    have missing : before.lookup "paths" = none := List.lookup_eq_none_iff.mpr first
    simp [Json.field?, List.lookup_append, missing]
  | _ => cases found

/-- Two values under two references, or the same error for both. -/
def BothRead (related : Json → Json → Prop) :
    Except BuildError Json → Except BuildError Json → Prop
  | .ok v, .ok v' => related v v'
  | .error e, .error e' => e = e'
  | _, _ => False

/-- The values that two references come to after the same segments. -/
def BothFound (related : Json → Json → Prop) : Option Json → Option Json → Prop
  | some v, some v' => related v v'
  | none, none => True
  | _, _ => False

theorem bothFound_refl (found : Option Json) : BothFound Resembles found found := by
  cases found with
  | none => trivial
  | some v => exact .same v

theorem Rearranged.descents (item : Rearranged v v') (segments : List (List Char)) :
    BothFound Resembles (segments.foldlM Json.descend v) (segments.foldlM Json.descend v') := by
  cases segments with
  | nil => exact item.resembles
  | cons segment rest =>
    rw [List.foldlM_cons, List.foldlM_cons, item.descend segment]
    exact bothFound_refl _

theorem Shuffled.descents (shuffled : Shuffled l l') (distinct : (l.map Prod.fst).Nodup)
    (segment : List Char) (rest : List (List Char)) :
    BothFound Resembles ((segment :: rest).foldlM Json.descend (.object l))
      ((segment :: rest).foldlM Json.descend (.object l')) := by
  rw [List.foldlM_cons, List.foldlM_cons]
  show BothFound Resembles (l.lookup (String.ofList segment) >>= fun v => rest.foldlM Json.descend v)
    (l'.lookup (String.ofList segment) >>= fun v => rest.foldlM Json.descend v)
  rcases shuffled.lookup distinct (String.ofList segment) with ⟨one, two⟩ | ⟨v, v', one, two, item⟩
  · rw [one, two]
    trivial
  · rw [one, two]
    exact item.descents rest

theorem Reordered.descend (reordered : Reordered root root') (segment : List Char) :
    root.descend segment = root.field? (String.ofList segment) ∧
      root'.descend segment = root'.field? (String.ofList segment) := by
  cases reordered with
  | paths => exact ⟨rfl, rfl⟩

/-- Whatever the segments, but for the paths as a whole, both documents have the same there. -/
theorem Reordered.descents (reordered : Reordered root root') (segments : List (List Char))
    (apart : segments.map String.ofList ≠ ["paths"]) :
    BothFound Resembles (segments.foldlM Json.descend root) (segments.foldlM Json.descend root') := by
  cases segments with
  | nil => exact reordered.resembles
  | cons segment rest =>
    rw [List.foldlM_cons, List.foldlM_cons, (reordered.descend segment).1,
      (reordered.descend segment).2]
    by_cases named : String.ofList segment = "paths"
    · obtain ⟨paths, paths', one, two, distinct, shuffled⟩ := reordered.field?_paths
      rw [named, one, two]
      cases rest with
      | nil => exact absurd (by rw [List.map_cons, named, List.map_nil]) apart
      | cons next more => exact shuffled.descents distinct next more
    · rw [reordered.resembles.field? named]
      exact bothFound_refl _

/-- A reference comes to the same in both documents, unless it names the paths as a whole. -/
theorem Reordered.lookup (reordered : Reordered root root') (apart : ¬ NamesPaths pointer) :
    BothRead Resembles (root.lookup pointer) (root'.lookup pointer) := by
  have within : ∀ path, pointer.toList = '#' :: path →
      BothFound Resembles (root.pointer? path) (root'.pointer? path) := by
    intro path written
    unfold pointer?
    split
    · exact reordered.resembles
    · next rest =>
      refine reordered.descents _ fun named => apart ?_
      rw [NamesPaths, written]
      exact decide_eq_true named
    · trivial
  unfold Json.lookup
  split
  · next path written =>
    have met := within path written
    unfold BothFound at met
    split at met
    · next one two => rw [one, two]; exact met
    · next one two => rw [one, two]; rfl
    · exact met.elim
  · rfl

theorem Shuffled.reference? (shuffled : Shuffled l l') (distinct : (l.map Prod.fst).Nodup) :
    (Json.object l).reference? = (Json.object l').reference? := by
  show (l.lookup "$ref" >>= Json.string?) = (l'.lookup "$ref" >>= Json.string?)
  rcases shuffled.lookup distinct "$ref" with ⟨one, two⟩ | ⟨v, v', one, two, item⟩
  · rw [one, two]
  · rw [one, two]
    exact item.string?

theorem lookup_of_namesPaths (named : NamesPaths pointer) {paths : Json}
    (found : root.field? "paths" = some paths) : root.lookup pointer = .ok paths := by
  unfold NamesPaths at named
  split at named
  · next rest written =>
    obtain ⟨segment, single, key⟩ := List.map_eq_singleton_iff.mp (of_decide_eq_true named)
    have step : root.descend segment = some paths := by
      cases root with
      | object fields => rw [← found, ← key]; rfl
      | _ => cases found
    simp only [Json.lookup, written, pointer?, single, List.foldlM_cons, List.foldlM_nil, step]
    rfl
  · cases named

/-- Even the paths as a whole are a reference in one document if they are one in the other. -/
theorem Reordered.lookup_reference? (reordered : Reordered root root') (pointer : String) :
    BothRead (fun v v' => v.reference? = v'.reference?) (root.lookup pointer)
      (root'.lookup pointer) := by
  by_cases named : NamesPaths pointer
  · obtain ⟨paths, paths', one, two, distinct, shuffled⟩ := reordered.field?_paths
    rw [lookup_of_namesPaths named one, lookup_of_namesPaths named two]
    exact shuffled.reference? distinct
  · have met := reordered.lookup named
    unfold BothRead at met ⊢
    split at met
    · exact met.reference?
    · exact met
    · exact met.elim

end HttpPlan.Json
