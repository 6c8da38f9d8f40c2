import HttpPlan.Proofs.Assertion.Demand
import HttpPlan.Proofs.Assertion.Soundness
import HttpPlan.Proofs.Assertion.Tree

/-! The checks that a node calls for at its own place. Together with what lies right below they say
whether a value suits the node, null beside other values apart. -/
namespace HttpPlan

namespace Derivation

open Assertion

namespace Subject

variable {c : Subject} {firm premise demand : Prop} {id : SchemaId} {place : Locator} {v : Json}
  {typed : Bool} {type : JsonType} {slot : List Nat} {d e f : Draft} {fuel : Nat}

/-- A schema without shared parts and without unions, in which listed values have the type of their
node. -/
structure Treelike (c : Subject) : Prop where
  closed : c.arena.Closed
  bound : c.root < c.arena.size
  unshared : c.arena.Unshared c.root
  single : ∀ id, (c.arena.node id).kind ≠ .union
  values : ∀ id allowed, (c.arena.node id).enumeration = some allowed → allowed ≠ [] ∧
    ∀ v ∈ allowed, ∀ type, (c.arena.node id).kind = .typed type → v.HasType type

/-- What is right below a value suits the nodes that belong there. -/
def BranchesSuit (c : Subject) (id : SchemaId) (v : Json) : Prop :=
  ∀ branch ∈ (c.arena.node id).branches, ∀ w, LocatorSegment.step v branch.1 = some w →
    c.arena.Suits c.accepts branch.2 w

theorem branchesSuit_iff (unlisted : (c.arena.node id).enumeration = none)
    (kind : (c.arena.node id).kind = .typed type) : c.BranchesSuit id v ↔
      (type = .object → ∀ key child w, (key, child) ∈ (c.arena.node id).properties.entries →
        v.field? key = some w → c.arena.Suits c.accepts child w) ∧
      (type = .array → ∀ child w, (c.arena.node id).items = some child → v.item? 0 = some w →
        c.arena.Suits c.accepts child w) := by
  unfold BranchesSuit SchemaNode.branches
  rw [unlisted, kind]
  cases type with
  | object =>
    simp only [List.forall_mem_map, LocatorSegment.step, true_implies, reduceCtorEq, false_implies,
      and_true]
    exact ⟨fun all key child w member => all (key, child) member w,
      fun all entry member w => all entry.1 entry.2 w member⟩
  | array =>
    simp only [List.forall_mem_map, LocatorSegment.step, true_implies, reduceCtorEq, false_implies,
      true_and, Option.mem_toList]
    exact ⟨fun all child w member => all child member w,
      fun all child member w => all child w member⟩
  | _ => simp

theorem suits_listed {allowed : List Json} (tree : c.Treelike) (solid : c.Solid id v)
    (listed : (c.arena.node id).enumeration = some allowed) :
    c.arena.Suits c.accepts id v ↔ v ∈ allowed := by
  refine ⟨fun suits => ?_, .listed listed⟩
  cases suits with
  | listed other member =>
    cases listed.symm.trans other
    exact member
  | null nullable =>
    obtain ⟨filled, values⟩ := tree.values id allowed listed
    obtain ⟨first, rest, rfl⟩ := List.exists_cons_of_ne_nil filled
    have null := (values first List.mem_cons_self .null (solid.kind nullable)).eq_null
    rw [null]
    exact List.mem_cons_self
  | identifier unlisted => cases listed.symm.trans unlisted
  | typed unlisted => cases listed.symm.trans unlisted
  | unknown unlisted => cases listed.symm.trans unlisted

theorem suits_identifier (solid : c.Solid id v) (unlisted : (c.arena.node id).enumeration = none)
    (kind : (c.arena.node id).kind = .typed .string) (uuid : (c.arena.node id).isUuid) :
    c.arena.Suits c.accepts id v ↔ v.IsText (c.accepts uuidPattern) := by
  refine ⟨fun suits => ?_, .identifier unlisted kind uuid⟩
  cases suits with
  | identifier _ _ _ text => exact text
  | null nullable => cases kind.symm.trans (solid.kind nullable)
  | listed listed => cases unlisted.symm.trans listed
  | unknown _ other => cases kind.symm.trans other
  | typed _ other plain =>
    cases kind.symm.trans other
    exact absurd uuid (plain rfl)

theorem suits_typed (solid : c.Solid id v) (unlisted : (c.arena.node id).enumeration = none)
    (kind : (c.arena.node id).kind = .typed type)
    (plain : type = .string → ¬ (c.arena.node id).isUuid) :
    c.arena.Suits c.accepts id v ↔
      v.HasType type ∧ (∀ check ∈ valueChecks (c.arena.node id) type, check.Holds c.accepts v) ∧
        c.BranchesSuit id v := by
  constructor
  · intro suits
    cases suits with
    | typed _ other _ has pattern length range keys properties first =>
      cases kind.symm.trans other
      exact ⟨has, (valueChecks_hold has).mpr ⟨pattern, length, range, keys⟩,
        (branchesSuit_iff unlisted kind).mpr ⟨properties, first⟩⟩
    | null nullable =>
      cases kind.symm.trans (solid.kind nullable)
      exact ⟨Or.inl rfl, fun _ member => absurd member List.not_mem_nil,
        (branchesSuit_iff unlisted kind).mpr ⟨nofun, nofun⟩⟩
    | listed listed => cases unlisted.symm.trans listed
    | identifier _ other uuid =>
      cases kind.symm.trans other
      exact absurd uuid (plain rfl)
    | unknown _ other => cases kind.symm.trans other
  · rintro ⟨has, checks, branches⟩
    obtain ⟨pattern, length, range, keys⟩ := (valueChecks_hold has).mp checks
    obtain ⟨properties, first⟩ := (branchesSuit_iff unlisted kind).mp branches
    exact .typed unlisted kind plain has pattern length range keys properties first

theorem branchesSuit_of_leaf (leaf : (c.arena.node id).branches = []) : c.BranchesSuit id v := by
  intro branch member
  rw [leaf] at member
  cases member

/-- A value that is not null beside others suits its node if the node's checks hold and what is
right below it suits. -/
theorem suits_iff (tree : c.Treelike) (solid : c.Solid id v)
    (checked : typed → ∀ type, (c.arena.node id).kind = .typed type → v.HasType type) :
    c.arena.Suits c.accepts id v ↔
      (∀ check ∈ nodeChecks (c.arena.node id) typed, check.Holds c.accepts v) ∧
        c.BranchesSuit id v := by
  cases listed : (c.arena.node id).enumeration with
  | some allowed =>
    have leaf : c.BranchesSuit id v := branchesSuit_of_leaf (by rw [SchemaNode.branches, listed])
    rw [suits_listed tree solid listed, nodeChecks, listed]
    simp [Check.Holds, leaf]
  | none =>
    cases kind : (c.arena.node id).kind with
    | union => exact absurd kind (tree.single id)
    | unknown =>
      have leaf : c.BranchesSuit id v := branchesSuit_of_leaf (by
        rw [SchemaNode.branches, listed, kind])
      rw [nodeChecks, listed, kind]
      exact ⟨fun _ => ⟨fun _ member => absurd member List.not_mem_nil, leaf⟩,
        fun _ => .unknown listed kind⟩
    | typed type =>
      by_cases uuid : type = .string ∧ (c.arena.node id).isUuid = true
      · obtain ⟨rfl, uuid⟩ := uuid
        have leaf : c.BranchesSuit id v := branchesSuit_of_leaf (by
          rw [SchemaNode.branches, listed, kind])
        rw [suits_identifier solid listed kind uuid, nodeChecks, listed, kind]
        simp [Check.Holds, leaf, uuid]
      · have plain : type = .string → ¬ (c.arena.node id).isUuid = true := not_and.mp uuid
        rw [suits_typed solid listed kind plain,
          nodeChecks_hold listed kind plain (fun given => checked given type kind), and_assoc]

end Subject

end Derivation

end HttpPlan
