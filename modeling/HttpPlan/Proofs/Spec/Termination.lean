import HttpPlan.Proofs.Resolution.Termination
import HttpPlan.Proofs.Spec.Building

/-! Reading comes to an end on every document, whatever its references point at: an object is read
as a whole, and nothing in it is skipped because a walk was cut off. -/
namespace HttpPlan

namespace Building

open Resolver

variable {source : Source} {p : Progress} {path : String} {item : Json}

/-- A moment between two operations at which nothing has been skipped for lack of steps. -/
structure Uncurtailed (source : Source) (p : Progress) : Prop extends Settled source p where
  skipped : ∀ entry ∈ p.skipped, ¬ entry.error.CutOff

theorem skipped_skip {label subject : String} {error : BuildError}
    (skipped : ∀ entry ∈ p.skipped, ¬ entry.error.CutOff) (own : ¬ error.CutOff) :
    ∀ entry ∈ (p.skip label subject error).skipped, ¬ entry.error.CutOff :=
  List.forall_mem_append.mpr ⟨skipped, List.forall_mem_singleton.mpr own⟩

theorem Uncurtailed.addOperation {entry : String × Json} (now : Uncurtailed source p)
    (item_within : item.Within source.root) (within : entry.2.Within source.root) :
    Uncurtailed source (addOperation source path item p entry) := by
  refine ⟨now.toSettled.addOperation item_within within, ?_⟩
  obtain ⟨method, operation⟩ := entry
  have reading := yields_operation method path item_within within now.valid
  unfold Building.addOperation
  dsimp only
  split
  · exact now.skipped
  · cases run : Building.operation source method path item operation p.resolver with
    | ok built after => exact now.skipped
    | error error after => exact skipped_skip now.skipped (yields_error run reading).2

theorem Uncurtailed.addPath {entry : String × Json} (now : Uncurtailed source p)
    (within : entry.2.Within source.root) : Uncurtailed source (addPath source p entry) := by
  unfold Building.addPath
  dsimp only
  cases found : source.root.deref entry.2 with
  | error e =>
    exact ⟨⟨now.valid, now.finished, now.idle, now.held⟩,
      skipped_skip now.skipped (Json.deref_error within found)⟩
  | ok item =>
    have item_within := Json.deref_within within found
    exact List.foldlRecOn (motive := Uncurtailed source) _ _ now fun _ still _ member =>
      still.addOperation item_within (fields_within item_within member)

theorem uncurtailed_allPaths (source : Source) : Uncurtailed source (allPaths source) := by
  have start : Uncurtailed source {} := ⟨.start source, nofun⟩
  unfold allPaths
  split
  · next paths found =>
    exact List.foldlRecOn (motive := Uncurtailed source) _ _ start fun _ still _ member =>
      still.addPath (paths_within found member)
  · exact ⟨⟨.empty _, rfl, rfl, nofun⟩, nofun⟩

end Building

open Building Resolver in
/-- Reading ends on every document: with a description that is read whole if it is an object, and
with an error if it is not. References are followed to an end just when their chain has one in the
document. Every walk of a schema, of a node with the parts merged into it, or of a reference comes
to its end from each state that reading can be in. -/
theorem SpecDocument.ofJson_terminates (root : Json) :
    (∀ fields, root = .object fields → ∃ document, ofJson root = .ok document ∧
      ∀ entry ∈ document.skipped, ¬ entry.error.CutOff) ∧
    ((∀ fields, root ≠ .object fields) → ofJson root = .error .rootNotObject) ∧
    (∀ v w, root.deref v = .ok w ↔ ∃ n, root.Chain n v w) ∧
    (∀ v error, v.Within root → root.deref v = .error error → ¬ error.CutOff) ∧
    (∀ path item method operation p,
      Met (Source.ofJson root) path item method operation p → p.resolver.Valid root) ∧
    ∀ r : Resolver, r.Valid root →
      (∀ value location, value.Within root →
        Concludes root (budget root) (fun fuel => schema root fuel value location) r ∧
        Concludes root (budget root) (fun fuel => buildNode (schema root fuel) value location) r) ∧
      ∀ pointer ∈ root.references,
        Concludes root (budget root) (fun fuel => reference root fuel pointer) r := by
  refine ⟨?_, fun other => ?_, fun v w => Json.deref_eq_ok,
    fun v error => Json.deref_error, ?_, fun r valid => ⟨?_, ?_⟩⟩
  · rintro fields rfl
    exact ⟨_, rfl, (uncurtailed_allPaths (Source.ofJson (.object fields))).skipped⟩
  · cases root with
    | object fields => exact absurd rfl (other fields)
    | _ => rfl
  · exact fun path item method operation p met => met.settled.valid
  · exact fun value location within =>
      ⟨schema_concludes within valid location, buildNode_concludes within valid location⟩
  · exact fun pointer inside => reference_concludes inside valid

namespace Building

/-- Two aliases that point at each other, and a definition part of which is itself. -/
def loopingDocument : Json := .object [
  ("paths", .object [
    ("/loops", .object [("get", respondingWith (referenceTo "Left"))]),
    ("/nodes", .object [("get", respondingWith (referenceTo "Node"))])]),
  ("components", .object [("schemas", .object [
    ("Left", referenceTo "Right"),
    ("Right", referenceTo "Left"),
    ("Node", .object [("properties", .object [("next", referenceTo "Node")])])])])]

theorem ofJson_terminates_looping :
    (∃ document, SpecDocument.ofJson loopingDocument = .ok document ∧
      ∀ entry ∈ document.skipped, ¬ entry.error.CutOff) ∧
    (¬ ∃ n w, loopingDocument.Chain n (referenceTo "Left") w) ∧
    ({} : Resolver).Valid loopingDocument ∧
    Resolver.Concludes loopingDocument (Resolver.budget loopingDocument)
      (fun fuel => Resolver.reference loopingDocument fuel "#/components/schemas/Node") {} := by
  obtain ⟨reads, -, chains, -, -, walks⟩ := SpecDocument.ofJson_terminates loopingDocument
  have valid : ({} : Resolver).Valid loopingDocument := .empty _
  refine ⟨reads _ rfl, ?_, valid, (walks {} valid).2 _ (by decide)⟩
  rintro ⟨n, w, chain⟩
  have ends := (chains (referenceTo "Left") w).mpr ⟨n, chain⟩
  have loops : loopingDocument.deref (referenceTo "Left") =
      .error (.unsupportedConstruct "#/components/schemas/Left" .circularAlias) := by rfl
  cases loops.symm.trans ends

end Building

end HttpPlan
