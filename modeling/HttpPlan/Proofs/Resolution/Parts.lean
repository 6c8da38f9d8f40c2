import HttpPlan.Proofs.Assertion.Soundness
import HttpPlan.Proofs.Resolution.Node
import HttpPlan.Proofs.Schema.Inheritance

/-! Merging the parts of `allOf`, however they are walked. The merged node takes what the node before
the merge and all parts take, save for numbers at a bound that has become exclusive and for anything
but objects where it has become an object. -/
namespace HttpPlan.Resolver

variable {walk : Walk} {location : String} {parts : List (Json × Nat)} {node base merged : SchemaNode}
  {nodes : List SchemaNode} {r s : Resolver}

/-- The nodes of parts that are walked one after the other, each as it is when it is merged. -/
inductive Lends (walk : Walk) (location : String) :
    List (Json × Nat) → Resolver → List SchemaNode → Resolver → Prop
  | done {r : Resolver} : Lends walk location [] r [] r
  | part {value : Json} {index : Nat} {rest : List (Json × Nat)} {r s t : Resolver} {id : SchemaId}
      {lent : List SchemaNode}
      (walked : walk value (Step.partLocation location "allOf" index) r = .ok id s)
      (finished : id ∉ s.unfinished) (later : Lends walk location rest s lent t) :
      Lends walk location ((value, index) :: rest) r (s.arena.node id :: lent) t

theorem yields_run {α : Type} (x : Resolve α) (r : Resolver) :
    Yields x r (fun a s => x r = .ok a s) (fun _ _ => True) := by
  unfold Yields
  split
  · next a s run => exact run
  · trivial

theorem yields_join_part {id : SchemaId} : Yields (join node id (.part location)) s
    (fun merged t => t = s ∧ id ∉ s.unfinished ∧ node.absorb (s.arena.node id) = .ok merged)
    (fun _ _ => True) := by
  rw [Yields, join_part]
  by_cases begun : id ∈ s.unfinished
  · rw [if_pos begun]
    trivial
  · rw [if_neg begun]
    cases merges : node.absorb (s.arena.node id) with
    | error construct => trivial
    | ok merged => exact ⟨rfl, begun, rfl⟩

/-- The parts that are merged one after the other lend their nodes. -/
theorem yields_parts (inherits : SchemaNode.Inherits nodes node) :
    Yields ((parts.map fun (value, index) => Step.child
        (.part (Step.partLocation location "allOf" index))
        (.walked value (Step.partLocation location "allOf" index))).foldlM (take walk) node) r
      (fun merged s => ∃ lent, Lends walk location parts r lent s ∧
        SchemaNode.Inherits (nodes ++ lent) merged)
      (fun _ _ => True) := by
  induction parts generalizing nodes node r with
  | nil => exact ⟨[], .done, by simpa using inherits⟩
  | cons first rest ih =>
    obtain ⟨value, index⟩ := first
    rw [List.map_cons, List.foldlM_cons]
    have joined : Yields (take walk node (.child
        (.part (Step.partLocation location "allOf" index))
        (.walked value (Step.partLocation location "allOf" index)))) r
        (fun merged s => ∃ id, walk value (Step.partLocation location "allOf" index) r = .ok id s ∧
          id ∉ s.unfinished ∧ node.absorb (s.arena.node id) = .ok merged) (fun _ _ => True) := by
      refine (yields_run (walk value _) r).bind fun id s walked => yields_join_part.imp ?_
      rintro merged t ⟨rfl, finished, merges⟩
      exact ⟨id, walked, finished, merges⟩
    refine joined.bind ?_
    rintro merged s ⟨id, walked, finished, merges⟩
    refine (ih (inherits.absorb merges)).imp ?_
    rintro last t ⟨lent, lends, inherited⟩
    exact ⟨s.arena.node id :: lent, .part walked finished lends, by simpa using inherited⟩

theorem yields_ofParts {values : List Json} : Yields
    ((Step.ofParts location (some (.array values))).foldlM (take walk) base) r
    (fun merged s => ∃ lent, Lends walk location values.zipIdx r lent s ∧
      SchemaNode.Inherits (base :: lent) merged) (fun _ _ => True) := by
  rw [Step.ofParts, List.foldlM_append]
  refine (yields_parts SchemaNode.inherits_self).bind ?_
  rintro merged s ⟨lent, lends, inherits⟩
  exact ⟨lent, lends, inherits.dropObjectItems⟩

/-- A merged node takes what the node before the merge and all parts take, if it is spared: where an
exclusive bound or its being an object is in the way, the value is not taken. Neither is if the merged
node is faithful to all of them. What is derived from the merged node then holds of the value. -/
theorem parts_taken {values : List Json}
    (merges : (Step.ofParts location (some (.array values))).foldlM (take walk) base r =
      .ok merged s) :
    ∃ lent, Lends walk location values.zipIdx r lent s ∧ ∀ (accepts : String → String → Prop),
      (∀ child v, (∀ n ∈ base :: lent, n.Takes accepts child v) →
        (merged.Takes accepts child v ↔ merged.Spares v) ∧
        (merged.Faithful (base :: lent) → merged.Takes accepts child v)) ∧
      ∀ (arena : SchemaArena) id name v, arena.node id = { merged with name } →
        arena.WellListed accepts id (arena.assertions id) →
        (∀ n ∈ base :: lent, n.Takes accepts (arena.Satisfies accepts) v) → merged.Spares v →
          ∀ a ∈ arena.assertions id, a.Holds accepts v := by
  obtain ⟨lent, lends, inherits⟩ := yields_ok merges yields_ofParts
  refine ⟨lent, lends, fun accepts => ⟨fun child v all => ?_, ?_⟩⟩
  · exact ⟨inherits.takes_iff all,
      fun faithful => (inherits.takes_iff all).mpr (faithful.spares inherits all)⟩
  · intro arena id name v placed lists all spared
    have satisfies : arena.Satisfies accepts id v := by
      rw [SchemaArena.satisfies_iff, placed]
      exact ((inherits.named name).takes_iff all).mpr spared
    exact Assertion.allHold_iff.mp (Derivation.Subject.assertions_allHold
      (c := ⟨accepts, arena, id, v⟩) lists satisfies.conforms)

section examples

theorem merge_one (location : String) {value : Json} {id : SchemaId}
    (walked : walk value (Step.partLocation location "allOf" 0) r = .ok id s)
    (finished : id ∉ s.unfinished) (merges : node.absorb (s.arena.node id) = .ok merged) :
    (Step.ofParts location (some (.array [value]))).foldlM (take walk) node r =
      .ok merged.dropObjectItems s := by
  have first : take walk node (.child (.part (Step.partLocation location "allOf" 0))
      (.walked value (Step.partLocation location "allOf" 0))) r = .ok merged s := by
    simp only [take, place, bind, EStateM.bind, walked]
    rw [join_part, if_neg finished, merges]
  simp only [Step.ofParts, List.zipIdx_cons, List.zipIdx_nil, List.map_cons, List.map_nil,
    List.cons_append, List.nil_append, List.foldlM_cons, List.foldlM_nil, bind, EStateM.bind, first]
  rfl

/-- An object with a key. -/
def keyedBy (key : String) : SchemaNode := { kind := .typed .object, required := .ofList [key] }

def keyedSchema : Json := .object [("type", .string "object"), ("required", .array [.string "m"])]

def bothKeys : SchemaNode := { kind := .typed .object, required := .ofList ["m", "n"] }

theorem parts_taken_keys : ∃ merged s,
    (Step.ofParts "#" (some (.array [keyedSchema]))).foldlM (take (schema .null 2)) (keyedBy "n") {} =
      .ok merged s ∧
    merged.Takes (fun _ _ => False) (fun _ _ => False) (.object [("n", .null), ("m", .null)]) := by
  have run : schema .null 2 keyedSchema "#/allOf/0" {} = .ok 0 (Resolver.push {} (keyedBy "m")) := rfl
  have absorbed : (keyedBy "n").absorb (keyedBy "m") = .ok bothKeys := rfl
  have merges : (Step.ofParts "#" (some (.array [keyedSchema]))).foldlM (take (schema .null 2))
      (keyedBy "n") {} = .ok bothKeys (Resolver.push {} (keyedBy "m")) :=
    merge_one "#" run List.not_mem_nil absorbed
  obtain ⟨lent, lends, takes⟩ := parts_taken merges
  have nodes : lent = [keyedBy "m"] := by
    cases lends with
    | part walked finished later =>
      cases later
      cases run.symm.trans walked
      rfl
  subst nodes
  have faithful : bothKeys.Faithful [keyedBy "n", keyedBy "m"] :=
    ⟨fun _ bound => (nomatch bound), fun _ bound => (nomatch bound),
      fun _ => ⟨keyedBy "m", by simp, rfl⟩⟩
  have taken : ∀ key ∈ ["n", "m"], (keyedBy key).Takes (fun _ _ => False) (fun _ _ => False)
      (.object [("n", .null), ("m", .null)]) := by
    intro key member
    refine Or.inr ⟨?_, nofun, nofun, nofun, nofun, nofun, fun _ => ⟨rfl, ?_⟩, nofun, nofun, nofun⟩
    · rintro type ⟨⟩
      exact Or.inl rfl
    · intro other required
      have same : other = key := List.mem_singleton.mp required
      subst same
      revert other
      decide
  refine ⟨bothKeys, _, merges, ((takes _).1 _ _ ?_).2 faithful⟩
  intro n member
  rcases List.mem_cons.mp member with rfl | member
  · exact taken "n" (by simp)
  · rw [List.mem_singleton.mp member]
    exact taken "m" (by simp)

/-- At least one. -/
def positive : SchemaNode := { kind := .typed .integer, minimum := some .one }

/-- An integer above zero. -/
def aboveZero : Json :=
  .object [("type", .string "integer"), ("exclusiveMinimum", .number (.int 0))]

def aboveZeroNode : SchemaNode :=
  { kind := .typed .integer, minimum := some (.zero false), exclusiveMinimum := true }

theorem schema_aboveZero :
    schema .null 2 aboveZero "#/allOf/0" {} = .ok 0 (Resolver.push {} aboveZeroNode) := by
  have zero : Binary64.ofInt? 0 = some (.zero false) := by decide +kernel
  have run : schema .null 2 aboveZero "#/allOf/0" {} =
      .ok 0 (Resolver.push {} { aboveZeroNode with minimum := Binary64.ofInt? 0 }) := rfl
  rw [run, zero]
  rfl

/-- One is at least one and above zero, but the merged node asks for more than one. -/
theorem exclusion_strays : ∃ merged s lent,
    (Step.ofParts "#" (some (.array [aboveZero]))).foldlM (take (schema .null 2)) positive {} =
      .ok merged s ∧
    Lends (schema .null 2) "#" [(aboveZero, 0)] {} lent s ∧
    (∀ n ∈ positive :: lent, n.Takes (fun _ _ => True) (fun _ _ => True) (.number (.int 1))) ∧
    ¬ merged.Takes (fun _ _ => True) (fun _ _ => True) (.number (.int 1)) := by
  have one : (Json.number (.int 1)).double? = some .one := by decide +kernel
  have absorbed : positive.absorb aboveZeroNode = .ok { positive with exclusiveMinimum := true } := rfl
  have merges := merge_one "#" schema_aboveZero List.not_mem_nil absorbed
  have lends : Lends (schema .null 2) "#" [(aboveZero, 0)] {} [aboveZeroNode]
      (Resolver.push {} aboveZeroNode) := by
    refine @Lends.part _ "#" aboveZero 0 _ _ _ _ 0 _ schema_aboveZero List.not_mem_nil .done
  refine ⟨_, _, _, merges, lends, ?_, ?_⟩
  · have takes : ∀ low flag, (if flag then low < Binary64.one else low ≤ Binary64.one) →
        ({ kind := .typed .integer, minimum := some low, exclusiveMinimum := flag } :
          SchemaNode).Takes (fun _ _ => True) (fun _ _ => True) (.number (.int 1)) := by
      intro low flag within
      refine Or.inr ⟨?_, nofun, nofun, nofun, nofun,
        fun _ => ⟨?_, fun _ bound => (nomatch bound)⟩, nofun, nofun, nofun, nofun⟩
      · rintro type ⟨⟩
        exact Or.inl rfl
      · rintro other ⟨⟩
        exact ⟨.one, one, within⟩
    intro n member
    rcases List.mem_cons.mp member with rfl | member
    · exact takes .one false (by decide +kernel)
    · rw [List.mem_singleton.mp member]
      exact takes (.zero false) true (by decide +kernel)
  · rintro (⟨null, -⟩ | meets)
    · cases null
    · exact absurd (meets.above one rfl) (by decide +kernel)

end examples

end HttpPlan.Resolver
