import HttpPlan.Schema.Blueprint
import HttpPlan.Proofs.Schema.Merge

/-! The outline of a node: as much of it as decides whether it can be a part of another node. The
outline of a merged node follows from those of its parts, so it is the same in any arena. -/
namespace HttpPlan

structure Outline where
  kind : SchemaKind
  /-- The node has no properties. -/
  bare : Bool
deriving DecidableEq

def SchemaNode.outline (node : SchemaNode) : Outline := ⟨node.kind, node.properties.isEmpty⟩

/-- A child in this role lends its node what it has. -/
def Role.IsPart : Role → Prop
  | .part _ => True
  | _ => False

namespace Outline

def isObjectLike (outline : Outline) : Bool :=
  outline.kind = .typed .object || outline.kind = .unknown

def absorb (own part : Outline) : Except Construct Outline :=
  if part.isObjectLike then
    if part.kind = .typed .object || !part.bare then
      if own.isObjectLike then .ok ⟨.typed .object, own.bare && part.bare⟩
      else .error .objectAndOtherParts
    else .ok own
  else if own.kind = part.kind || (own.kind = .unknown && own.bare) then .ok ⟨part.kind, own.bare⟩
  else .error .incompatibleParts

/-- The outline after a child has been given its role. -/
def join (own child : Outline) : Role → Except Construct Outline
  | .part _ => own.absorb child
  | .property _ => .ok { own with bare := false }
  | _ => .ok own

/-- The outline of a union. -/
def union : Outline := ⟨.union, true⟩

theorem join_other {own child other : Outline} {role : Role} (whole : ¬ role.IsPart) :
    own.join child role = own.join other role := by
  cases role with
  | part location => exact absurd trivial whole
  | _ => rfl

end Outline

namespace SchemaNode

variable {node part : SchemaNode}

theorem isEmpty_merged (added : List (String × SchemaId)) (start : OrderedMap String SchemaId) :
    (added.foldl (fun m e => m.insert e.1 e.2) start).isEmpty = (start.isEmpty && added.isEmpty) := by
  induction added generalizing start with
  | nil => simp
  | cons entry rest ih =>
    rw [List.foldl_cons, ih, OrderedMap.isEmpty_insert]
    simp

theorem absorb_outline (node part : SchemaNode) :
    node.outline.absorb part.outline =
      if part.isObjectLike then
        if part.kind = .typed .object || !part.properties.isEmpty then
          if node.isObjectLike then
            .ok ⟨.typed .object, node.properties.isEmpty && part.properties.isEmpty⟩
          else .error .objectAndOtherParts
        else .ok node.outline
      else if node.kind = part.kind || (node.kind = .unknown && node.properties.isEmpty) then
        .ok ⟨part.kind, node.properties.isEmpty⟩
      else .error .incompatibleParts := rfl

theorem outline_absorbObject (lends : part.isObjectLike) :
    (absorbObject node part).map outline = node.outline.absorb part.outline := by
  rw [absorb_outline, if_pos lends]
  unfold absorbObject
  by_cases typed : part.kind = .typed .object || !part.properties.isEmpty
  · rw [if_pos typed, if_pos typed]
    by_cases same : node.isObjectLike
    · rw [if_pos same, if_pos same]
      simp only [Except.map, outline, isEmpty_merged]
      rfl
    · rw [if_neg same, if_neg same]
      rfl
  · rw [if_neg typed, if_neg typed]
    have none : part.properties.entries.isEmpty = true := by
      cases empty : part.properties.isEmpty with
      | true => exact empty
      | false => simp [empty] at typed
    simp only [Except.map, outline, isEmpty_merged, none, Bool.and_true]

theorem outline_absorbOther (lends : ¬ part.isObjectLike) :
    (absorbOther node part).map outline = node.outline.absorb part.outline := by
  rw [absorb_outline, if_neg lends]
  unfold absorbOther
  by_cases same : node.kind = part.kind || (node.kind = .unknown && node.properties.isEmpty)
  · rw [if_pos same, if_pos same]
    rfl
  · rw [if_neg same, if_neg same]
    rfl

/-- Merging looks at the outlines only. -/
theorem outline_absorb (node part : SchemaNode) :
    (node.absorb part).map outline = node.outline.absorb part.outline := by
  have named : (node.absorb part).map outline =
      (if part.isObjectLike then absorbObject node part else absorbOther node part).map outline := by
    rw [absorb_eq]
    generalize (if part.isObjectLike then absorbObject node part else absorbOther node part) = folded
    cases folded <;> rfl
  rw [named]
  by_cases lends : part.isObjectLike
  · rw [if_pos lends, outline_absorbObject lends]
  · rw [if_neg lends, outline_absorbOther lends]

theorem outline_dropObjectItems (node : SchemaNode) : node.dropObjectItems.outline = node.outline := by
  unfold dropObjectItems
  split <;> rfl

end SchemaNode

end HttpPlan
