import HttpPlan.Proofs.OrderedMap
import HttpPlan.Proofs.Resolution.Outcome
import HttpPlan.Proofs.Spec.PathTemplate
import HttpPlan.Spec.Building
import Mathlib.Data.List.Nodup

/-! What holds of every operation that is read from a document, whatever the document. -/
namespace HttpPlan

structure Operation.WellFormed (op : Operation) : Prop where
  distinct : (op.parameters.map fun p => (p.name, p.location)).Nodup
  required : ∀ p ∈ op.pathParameters, p.required
  once : op.path.tokens.Nodup
  declared : ∀ name, name ∈ op.path.tokens ↔ name ∈ op.pathParameters.map Parameter.name
  ascending : op.responses.Pairwise (·.1 < ·.1)

/-- A parameter is known by its name and location. -/
theorem Operation.WellFormed.unique {op : Operation} (wellFormed : op.WellFormed) {p q : Parameter}
    (declared : p ∈ op.parameters) (also : q ∈ op.parameters) (name : p.name = q.name)
    (location : p.location = q.location) : p = q :=
  List.inj_on_of_nodup_map wellFormed.distinct declared also (Prod.ext name location)

variable {code : Nat} {response : Response} {responses : Responses}

theorem Responses.code_of_mem_insert {entry : Nat × Response}
    (member : entry ∈ responses.insert code response) : entry.1 = code ∨ entry ∈ responses := by
  induction responses with
  | nil => simp_all [Responses.insert]
  | cons first rest ih =>
    obtain ⟨other, old⟩ := first
    rw [Responses.insert] at member
    split at member
    · rcases List.mem_cons.mp member with rfl | member
      · exact Or.inl rfl
      · exact Or.inr member
    · split at member
      · rcases List.mem_cons.mp member with rfl | member
        · exact Or.inl rfl
        · exact Or.inr (List.mem_cons_of_mem _ member)
      · rcases List.mem_cons.mp member with rfl | member
        · exact Or.inr List.mem_cons_self
        · exact (ih member).imp_right (List.mem_cons_of_mem _)

theorem Responses.ascending_insert (ascending : responses.Pairwise (·.1 < ·.1)) :
    (responses.insert code response).Pairwise (·.1 < ·.1) := by
  induction responses with
  | nil => simp [Responses.insert]
  | cons first rest ih =>
    obtain ⟨other, old⟩ := first
    obtain ⟨before, tail⟩ := List.pairwise_cons.mp ascending
    rw [Responses.insert]
    split
    · next less =>
      refine List.pairwise_cons.mpr ⟨fun entry member => ?_, ascending⟩
      rcases List.mem_cons.mp member with rfl | member
      · exact less
      · exact Nat.lt_trans less (before entry member)
    · next notLess =>
      split
      · next same => exact List.pairwise_cons.mpr ⟨fun entry member => same ▸ before entry member, tail⟩
      · next apart =>
        refine List.pairwise_cons.mpr ⟨fun entry member => ?_, ih tail⟩
        rcases Responses.code_of_mem_insert member with same | member
        · show other < entry.1
          omega
        · exact before entry member

namespace Building

open Resolver

variable {root item raw param : Json} {label name method path : String} {inputs : Inputs}
  {place : ParameterLocation} {source : Source} {p : Progress} {op : Operation} {r : Resolver}

/-- Every parameter stands under its own name and location, and those of the path are required. -/
def Inputs.Keyed (inputs : Inputs) : Prop :=
  ∀ entry ∈ inputs.parameters.entries, entry.1 = (entry.2.name, entry.2.location) ∧
    (entry.2.location = .path → entry.2.required)

theorem Inputs.Keyed.insert {param : Parameter} (keyed : inputs.Keyed)
    (required : param.location = .path → param.required) :
    Inputs.Keyed { inputs with
      parameters := inputs.parameters.insert (param.name, param.location) param } := by
  rintro ⟨key, found⟩ member
  rw [OrderedMap.mem_entries_insert] at member
  split at member
  · next same => cases member; exact ⟨same, required⟩
  · exact keyed _ member

theorem yields_parameter_keyed : Yields (parameter root label name place param) r
    (fun p _ => p.name = name ∧ p.location = place ∧ (place = .path → p.required))
    (fun _ _ => True) := by
  refine (yields_anyway _ r).bind fun id s _ => ?_
  exact ⟨rfl, rfl, fun inPath => by simp [inPath]⟩

theorem yields_addParameter_keyed (keyed : inputs.Keyed) :
    Yields (addParameter root label inputs raw) r (fun inputs _ => inputs.Keyed)
      (fun _ _ => True) := by
  unfold addParameter
  split
  · trivial
  · split
    · exact keyed
    · dsimp only
      split
      · split
        · exact keyed
        · exact (yields_anyway _ r).bind fun id s _ => keyed
      · split
        · exact keyed
        · refine yields_parameter_keyed.bind fun p s ⟨name, place, required⟩ => ?_
          subst name place
          exact keyed.insert required

theorem yields_addResponse_ascending {done : Responses × List Diagnostic} {entry : String × Json}
    (ascending : done.1.Pairwise (·.1 < ·.1)) :
    Yields (addResponse root label done entry) r (fun now _ => now.1.Pairwise (·.1 < ·.1))
      (fun _ _ => True) := by
  unfold addResponse
  dsimp only
  split
  · split <;> exact ascending
  · split
    · trivial
    · split
      · exact yields_bind.mpr
          ((yields_anyway _ r).bind fun schema s _ => Responses.ascending_insert ascending)
      · exact Responses.ascending_insert ascending

theorem yields_wellFormed (source : Source) (method path : String) (item operation : Json)
    (r : Resolver) : Yields (Building.operation source method path item operation) r
      (fun built _ => built.1.WellFormed) (fun _ _ => True) := by
  unfold Building.operation
  split
  · trivial
  · dsimp only
    have start : Inputs.Keyed {} := fun entry member => by cases member
    refine (yields_foldlM (fun raw _ inputs s keyed => yields_addParameter_keyed keyed) start).bind
      fun inputs s keyed => ?_
    split
    · trivial
    · next checked =>
      refine (yields_anyway _ s).bind fun body t _ => ?_
      refine (yields_foldlM (fun entry _ done u ascending =>
        yields_addResponse_ascending ascending) List.Pairwise.nil).bind fun responses u ascending => ?_
      obtain ⟨once, declared⟩ := PathTemplate.checkParameters_ok.mp checked
      refine ⟨?_, ?_, once, declared, ascending⟩
      · have keys : inputs.parameters.values.map (fun p => (p.name, p.location)) =
            inputs.parameters.keys := by
          rw [OrderedMap.values, OrderedMap.keys, List.map_map]
          exact List.map_congr_left fun entry member => (keyed entry member).1.symm
        rw [keys]
        exact inputs.parameters.distinct
      · intro p member
        obtain ⟨held, inPath⟩ := List.mem_filter.mp member
        obtain ⟨entry, inside, rfl⟩ := List.mem_map.mp held
        exact (keyed entry inside).2 (by simpa using inPath)

/-- What holds of an operation however it is read, holds of all that are read. -/
theorem forall_addOperation {holds : Operation → Prop} {entry : String × Json}
    (each : ∀ method path item operation r,
      Yields (Building.operation source method path item operation) r
        (fun built _ => holds built.1) (fun _ _ => True))
    (all : ∀ op ∈ p.operations, holds op) :
    ∀ op ∈ (addOperation source path item p entry).operations, holds op := by
  unfold addOperation
  dsimp only
  split
  · exact all
  · split
    · next built notes after run =>
      intro op member
      rcases List.mem_append.mp member with old | new
      · exact all op old
      · rw [List.mem_singleton.mp new]
        exact yields_ok run (each ..)
    · exact all

theorem forall_allPaths {holds : Operation → Prop}
    (each : ∀ method path item operation r,
      Yields (Building.operation source method path item operation) r
        (fun built _ => holds built.1) (fun _ _ => True)) :
    ∀ op ∈ (allPaths source).operations, holds op := by
  let All (p : Progress) : Prop := ∀ op ∈ p.operations, holds op
  have nothing : All {} := fun op member => by cases member
  unfold allPaths
  split
  · refine List.foldlRecOn (motive := All) _ _ nothing fun p all entry _ => ?_
    unfold addPath
    dsimp only
    split
    · exact all
    · exact List.foldlRecOn (motive := All) _ _ all fun q now entry _ =>
        forall_addOperation each now
  · exact nothing

end Building

theorem SpecDocument.ofJson_wellFormed {root : Json} {document : SpecDocument}
    (read : ofJson root = .ok document) : ∀ op ∈ document.operations, op.WellFormed := by
  unfold ofJson at read
  split at read
  · cases read
    exact Building.forall_allPaths (Building.yields_wellFormed _)
  · cases read

end HttpPlan
