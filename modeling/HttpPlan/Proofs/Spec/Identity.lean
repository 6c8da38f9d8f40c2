import HttpPlan.Proofs.Spec.Log

/-! The identity of schemas. References have one place just where they come to one definition, and
an inline schema has a place to itself, whatever operations were kept and whatever was rolled back
between them. -/
namespace HttpPlan

open Resolver

variable {root : Json} {r : Resolver} {pointer other : String} {id place : SchemaId}

/-- A reference, followed from alias to alias, comes to the reference `last` to a definition. -/
inductive Json.EndsAt (root : Json) : String → String → Prop
  | definition {pointer : String} (definition : IsDefinition root pointer) :
      EndsAt root pointer pointer
  | chain {pointer next last : String} {target : Json} (found : root.lookup pointer = .ok target)
      (follows : target.reference? = some next) (onward : EndsAt root next last) :
      EndsAt root pointer last

theorem Json.EndsAt.unique {first last : String} (ends : root.EndsAt pointer first)
    (also : root.EndsAt pointer last) : first = last := by
  induction ends with
  | definition definition =>
    obtain ⟨target, found, plain⟩ := definition
    cases also with
    | definition => rfl
    | chain found' follows =>
      cases found.symm.trans found'
      cases plain.symm.trans follows
  | chain found follows _ ih =>
    cases also with
    | definition definition =>
      obtain ⟨target, found', plain⟩ := definition
      cases found.symm.trans found'
      cases plain.symm.trans follows
    | chain found' follows' onward =>
      cases found.symm.trans found'
      cases follows.symm.trans follows'
      exact ih onward

namespace Resolver

/-- A reference in the memo has the place of the definition that it comes to. -/
theorem Valid.ends (valid : r.Valid root) (known : r.memo.get? pointer = some id) :
    ∃ last, root.EndsAt pointer last ∧ IsDefinition root last ∧ r.memo.get? last = some id := by
  induction valid.grounded pointer id known with
  | definition definition => exact ⟨_, .definition definition, definition, known⟩
  | chain found follows _ ih =>
    cases valid.explained _ _ known with
    | chain found' follows' shared =>
      cases found.symm.trans found'
      cases follows.symm.trans follows'
      obtain ⟨last, ends, rest⟩ := ih shared
      exact ⟨last, .chain found follows ends, rest⟩
    | definition found' plain =>
      cases found.symm.trans found'
      cases plain.symm.trans follows

theorem Valid.same_place (valid : r.Valid root) (known : r.memo.get? pointer = some id)
    (also : r.memo.get? other = some place) :
    id = place ↔ ∃ last, root.EndsAt pointer last ∧ root.EndsAt other last := by
  obtain ⟨first, ends, definition, met⟩ := valid.ends known
  obtain ⟨second, ends', definition', met'⟩ := valid.ends also
  constructor
  · rintro rfl
    have same := valid.apart first second id definition definition' met met'
    exact ⟨second, same ▸ ends, ends'⟩
  · rintro ⟨last, comes, comes'⟩
    cases ends.unique comes
    cases ends'.unique comes'
    exact Option.some.inj (met.symm.trans met')

end Resolver

/-- The places of a log are places of the arena that tell the schemas of the document apart. -/
structure SpecDocument.Identifies (document : SpecDocument) (root : Json) (log : Log) : Prop where
  inside : ∀ value id, (value, id) ∈ log → id < document.schemas.size
  references : ∀ value id pointer value' id' pointer', (value, id) ∈ log → (value', id') ∈ log →
    value.reference? = some pointer → value'.reference? = some pointer' →
      (id = id' ↔ ∃ last, root.EndsAt pointer last ∧ root.EndsAt pointer' last)
  inline : log.Pairwise fun a b =>
    a.1.reference? = none ∨ b.1.reference? = none → a.2 ≠ b.2

namespace SpecDocument

open Building

/-- Wherever the operations that a document keeps ask for the place of a schema, and however often,
the answers tell the schemas apart: two references have one place just where they come to one
definition through their aliases, and no inline schema shares its place with anything else. -/
theorem ofJson_identifies {document : SpecDocument} (read : ofJson root = .ok document) :
    (∀ path item method raw p built after value id, Met (.ofJson root) path item method raw p →
      Building.operation (.ofJson root) method path item raw p.resolver = .ok built after →
      Asked root (Building.label method path) item raw p.resolver value id →
        (value, id) ∈ pathsLog (.ofJson root)) ∧
    document.Identifies root (pathsLog (.ofJson root)) := by
  have schemas : document.schemas = (allPaths (.ofJson root)).resolver.arena := by
    cases root with
    | object fields => cases read; rfl
    | _ => cases read
  have valid : (allPaths (.ofJson root)).resolver.Valid root :=
    (settled_allPaths (.ofJson root)).valid
  have logged := logged_allPaths (.ofJson root)
  refine ⟨fun path item method raw p built after value id met run asked =>
    met.mem_log run asked.mem_log, ⟨fun value id member => ?_, ?_, ?_⟩⟩
  · rw [schemas]
    cases reference : value.reference? with
    | some pointer => exact valid.placed pointer id (logged.referred value id pointer member reference)
    | none => exact (logged.inline value id member reference).2.1
  · intro value id pointer value' id' pointer' member member' follows follows'
    exact valid.same_place (logged.referred value id pointer member follows)
      (logged.referred value' id' pointer' member' follows')
  · refine logged.apart.imp_of_mem fun {a b} first second apart plain same => ?_
    cases reference : a.1.reference? with
    | some pointer =>
      have inline : b.1.reference? = none := plain.resolve_left (by simp [reference])
      exact (logged.inline b.1 b.2 second inline).2.2 pointer
        (same ▸ logged.referred a.1 a.2 pointer first reference)
    | none =>
      cases reference' : b.1.reference? with
      | some pointer =>
        exact (logged.inline a.1 a.2 first reference).2.2 pointer
          (same ▸ logged.referred b.1 b.2 pointer second reference')
      | none => exact apart reference reference' same

/-- A pet by its name, by an alias of it and inside itself. The operation that comes first names it
as well, but refers to nothing in the end and is rolled back. -/
def petDocument : Json := .object [
  ("paths", .object [
    ("/lost", .object [("get", respondingWith (.object [
      ("allOf", .array [referenceTo "Pet", referenceTo "Gone"])]))]),
    ("/pets", .object [
      ("get", respondingWith (.object [("items", referenceTo "Animal")])),
      ("post", respondingWith (referenceTo "Pet"))])]),
  ("components", .object [("schemas", .object [
    ("Animal", referenceTo "Pet"),
    ("Pet", .object [("properties", .object [
      ("name", .object [("type", .string "string")]), ("parent", referenceTo "Pet")])])])])]

theorem ofJson_identifies_pets : ∃ document, ofJson petDocument = .ok document ∧
    document.skipped.length = 1 ∧
    (pathsLog (.ofJson petDocument)).map Prod.snd = [1, 0, 0, 0, 2, 0] ∧
    document.Identifies petDocument (pathsLog (.ofJson petDocument)) := by
  obtain ⟨document, built⟩ : ∃ document, ofJson petDocument = .ok document := ⟨_, rfl⟩
  have skipped : (ofJson petDocument).toOption.map (·.skipped.length) = some 1 := by decide +kernel
  rw [built] at skipped
  have places : (pathsLog (.ofJson petDocument)).map Prod.snd = [1, 0, 0, 0, 2, 0] := by
    decide +kernel
  exact ⟨document, built, Option.some_inj.mp skipped, places, (ofJson_identifies built).2⟩

end SpecDocument

end HttpPlan
