import HttpPlan.Proofs.Spec.Provenance

/-! A parameter documents whatever value its schema documents: one without a documented value has a
schema without one, in the document as at the moment when the parameter was read. -/
namespace HttpPlan

open Resolver

variable {root item raw param : Json} {r s t : Resolver} {label name path : String}
  {inputs : Inputs} {source : Source} {arena : SchemaArena} {q : Parameter}

/-- What the schema documents, the parameter documents. -/
def Parameter.Inherits (arena : SchemaArena) (q : Parameter) : Prop :=
  q.exampleValue = none → (arena.node q.schema).exampleValue = none

theorem Parameter.Inherits.mono (inherits : q.Inherits s.arena) (grows : Grows s t)
    (inside : q.schema < s.arena.size) : q.Inherits t.arena := by
  intro silent
  rw [SchemaArena.node_of_prefix grows.nodes inside]
  exact inherits silent

namespace Building

theorem exampleValue_of_parameterExample {node : SchemaNode}
    (silent : parameterExample param node = none) : node.exampleValue = none := by
  unfold parameterExample at silent
  simp only [Option.orElse_eq_orElse, Option.orElse_eq_or, Option.or_eq_none_iff] at silent
  exact silent.2.2

theorem yields_parameter_inherits {place : ParameterLocation} :
    Yields (parameter root label name place param) r (fun q t => q.Inherits t.arena)
      (fun _ _ => True) :=
  (yields_anyway _ r).bind fun _ _ _ => exampleValue_of_parameterExample

/-- A parameter that an entry brings in, documents what its schema documents. -/
theorem yields_addParameter_inherits :
    Yields (addParameter root label inputs raw) s (fun now t => ∀ q ∈ now.parameters.values,
      q ∈ inputs.parameters.values ∨ q.Inherits t.arena) (fun _ _ => True) := by
  unfold addParameter
  split
  · trivial
  · split
    · exact fun q member => Or.inl member
    · dsimp only
      split
      · split
        · exact fun q member => Or.inl member
        · exact (yields_anyway _ s).bind fun _ _ _ q member => Or.inl member
      · split
        · exact fun q member => Or.inl member
        · refine yields_parameter_inherits.bind fun added t inherits q member => ?_
          rcases OrderedMap.values_insert member with old | rfl
          · exact Or.inl old
          · exact Or.inr inherits

/-- The parameters read so far, each at a schema in the arena that documents no more than it. -/
def Sound (root : Json) (r : Resolver) (inputs : Inputs) (s : Resolver) : Prop :=
  Holding root r Inputs.schemas inputs s ∧ ∀ q ∈ inputs.parameters.values, q.Inherits s.arena

theorem Sound.inherits (sound : Sound root r inputs s) (grows : Grows s t) :
    ∀ q ∈ inputs.parameters.values, q.Inherits t.arena := fun q member =>
  (sound.2 q member).mono grows
    (sound.1.2 q.schema (List.mem_append_left _ (List.mem_map_of_mem member)))

theorem yields_addParameter_sound (within : raw.Within root) (sound : Sound root r inputs s) :
    Yields (addParameter root label inputs raw) s (Sound root r) (fun _ _ => True) := by
  have here : Holding root s Inputs.schemas inputs s := ⟨.refl sound.1.1.valid, sound.1.2⟩
  refine ((yields_addParameter within here).and yields_addParameter_inherits).succeeds.imp
    fun now t ⟨holding, added⟩ => ?_
  refine ⟨⟨sound.1.1.trans holding.1, holding.2⟩, fun q member => ?_⟩
  exact (added q member).elim (sound.inherits holding.1.toGrows q) id

theorem yields_operation_inherits {operation : Json} (method path : String)
    (item_within : item.Within source.root) (within : operation.Within source.root)
    (valid : r.Valid source.root) :
    Yields (Building.operation source method path item operation) r
      (fun built t => ∀ q ∈ built.1.parameters, q.Inherits t.arena) (fun _ _ => True) := by
  unfold Building.operation
  split
  · trivial
  · dsimp only
    have start : Sound source.root r {} r :=
      ⟨⟨.refl valid, fun id member => by cases member⟩, fun q member => by cases member⟩
    refine (yields_foldlM (fun raw member _ _ sound =>
      yields_addParameter_sound (mem_parameters item_within within member) sound) start).bind
        fun inputs s sound => ?_
    split
    · trivial
    · have body : ∀ id ∈ inputs.body.toList, id < s.arena.size := fun id member =>
        sound.1.2 id (List.mem_append_right _ member)
      refine (yields_requestBody within sound.1.1.valid body).succeeds.bind
        fun requestBody t kept => ?_
      have first : Holding source.root t responseSchemas ([], []) t :=
        ⟨.refl kept.1.valid, fun id member => by cases member⟩
      refine (yields_foldlM (fun entry member _ _ holding =>
        yields_addResponse (mem_responses within member) holding) first).succeeds.bind
          fun responses u documented => ?_
      exact sound.inherits (kept.1.trans documented.1).toGrows

end Building

/-- A parameter of a document that documents no value has a schema that documents none. -/
theorem SpecDocument.inherits {document : SpecDocument} {op : Operation}
    (read : ofJson root = .ok document) (member : op ∈ document.operations)
    (declared : q ∈ op.parameters) : q.Inherits document.schemas := by
  cases root with
  | object fields =>
    cases read
    obtain ⟨path, item, method, raw, p, notes, after, met, run⟩ := Building.exists_met member
    have within := met.within
    have settled := met.settled
    have moved := yields_ok run (Building.yields_operation method path within.1 within.2 settled.valid)
    have inherits := yields_ok run
      (Building.yields_operation_inherits method path within.1 within.2 settled.valid)
    have complete : q.schema ∉ after.unfinished := by
      rw [moved.1.unfinished, settled.finished]
      exact List.not_mem_nil
    have held : q.schema ∈ op.schemas :=
      List.mem_append_left _ (List.mem_append_left _ (List.mem_map_of_mem declared))
    have stands := (met.retains run).stands q.schema _ ⟨moved.2 _ held, complete, rfl⟩
    intro silent
    rw [stands.here]
    exact inherits q declared silent
  | _ => cases read

end HttpPlan
