import HttpPlan.Schema.Merge
import HttpPlan.Proofs.OrderedMap
import HttpPlan.Proofs.Schema.Arena

/-! A merged node points only where the node or its part did. -/
namespace HttpPlan.SchemaNode

variable {node part merged : SchemaNode} {size : Nat} {construct : Construct}

theorem mem_children {id : SchemaId} :
    id ∈ node.children ↔ id ∈ node.properties.values ∨ node.items = some id ∨ id ∈ node.variants := by
  simp [children]

theorem values_merged {added : List (String × SchemaId)} {start : OrderedMap String SchemaId}
    {id : SchemaId} (member : id ∈ (added.foldl (fun m e => m.insert e.1 e.2) start).values) :
    id ∈ start.values ∨ id ∈ added.map Prod.snd := by
  induction added generalizing start with
  | nil => exact Or.inl member
  | cons entry rest ih =>
    rcases ih member with old | new
    · rcases OrderedMap.values_insert old with old | rfl
      · exact Or.inl old
      · exact Or.inr (by simp)
    · exact Or.inr (by simp_all)

theorem absorbObject_below (below : node.Below size) (lent : part.Below size)
    (merges : absorbObject node part = .ok merged) : merged.Below size := by
  have together : ∀ id, id ∈ merged.children → id ∈ node.children ∨ id ∈ part.children := by
    intro id
    simp only [mem_children]
    unfold absorbObject at merges
    split at merges
    · split at merges
      · cases merges
        rintro (member | member | member)
        · rcases values_merged member with old | new
          · exact Or.inl (Or.inl old)
          · exact Or.inr (Or.inl new)
        · exact Or.inl (Or.inr (Or.inl member))
        · exact Or.inl (Or.inr (Or.inr member))
      · cases merges
    · cases merges
      rintro (member | member | member)
      · rcases values_merged member with old | new
        · exact Or.inl (Or.inl old)
        · exact Or.inr (Or.inl new)
      · exact Or.inl (Or.inr (Or.inl member))
      · exact Or.inl (Or.inr (Or.inr member))
  exact fun id member => (together id member).elim (below id) (lent id)

theorem absorbOther_below (below : node.Below size) (lent : part.Below size)
    (merges : absorbOther node part = .ok merged) : merged.Below size := by
  intro id member
  unfold absorbOther at merges
  split at merges
  · cases merges
    rcases mem_children.mp member with member | member | member
    · exact below id (mem_children.mpr (Or.inl member))
    · have either : node.items = some id ∨ part.items = some id := by
        cases own : node.items <;> simp_all
      rcases either with own | theirs
      · exact below id (mem_children.mpr (Or.inr (Or.inl own)))
      · exact lent id (mem_children.mpr (Or.inr (Or.inl theirs)))
    · rcases List.mem_append.mp member with own | theirs
      · exact below id (mem_children.mpr (Or.inr (Or.inr own)))
      · exact lent id (mem_children.mpr (Or.inr (Or.inr theirs)))
  · cases merges

/-- A merged node takes the part's name where it has none, and nothing else beyond the merge. -/
theorem absorb_eq (node part : SchemaNode) :
    node.absorb part =
      (if part.isObjectLike then absorbObject node part else absorbOther node part).map
        fun merged => { merged with name := merged.name <|> part.name } := by
  unfold absorb
  split
  · cases absorbObject node part <;> rfl
  · cases absorbOther node part <;> rfl

theorem absorb_below (below : node.Below size) (lent : part.Below size)
    (merges : node.absorb part = .ok merged) : merged.Below size := by
  rw [absorb_eq] at merges
  cases folded : (if part.isObjectLike then absorbObject node part else absorbOther node part) with
  | error c => rw [folded] at merges; cases merges
  | ok inner =>
    rw [folded] at merges
    cases merges
    have within : inner.Below size := by
      split at folded
      · exact absorbObject_below below lent folded
      · exact absorbOther_below below lent folded
    exact within

theorem absorb_error (fault : node.absorb part = .error construct) :
    construct = .objectAndOtherParts ∨ construct = .incompatibleParts := by
  rw [absorb_eq] at fault
  cases folded : (if part.isObjectLike then absorbObject node part else absorbOther node part) with
  | ok inner => rw [folded] at fault; cases fault
  | error c =>
    rw [folded] at fault
    cases fault
    split at folded
    · unfold absorbObject at folded
      split at folded
      · split at folded
        · cases folded
        · cases folded; exact Or.inl rfl
      · cases folded
    · unfold absorbOther at folded
      split at folded
      · cases folded
      · cases folded; exact Or.inr rfl

theorem dropObjectItems_below (below : node.Below size) : node.dropObjectItems.Below size := by
  unfold dropObjectItems
  split
  · intro id member
    rcases mem_children.mp member with member | member | member
    · exact below id (mem_children.mpr (Or.inl member))
    · cases member
    · exact below id (mem_children.mpr (Or.inr (Or.inr member)))
  · exact below

theorem asUnion_below (below : node.Below size) : node.asUnion.Below size := by
  intro id member
  rcases mem_children.mp member with member | member | member
  · cases member
  · cases member
  · exact below id (mem_children.mpr (Or.inr (Or.inr member)))

end HttpPlan.SchemaNode
