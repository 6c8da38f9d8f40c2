import HttpPlan.Spec.Reference

/-! Values inside a value. A part has no more nesting and no other references than the whole, and a
proper part has less nesting; both bound how long a walk through a document can go on. -/
namespace HttpPlan.Json

/-- The references of a part are among those of the whole, and it is nested no deeper. -/
structure Within (v whole : Json) : Prop where
  depth : v.depth ≤ whole.depth
  references : v.references ⊆ whole.references

/-- A part that is not the whole. -/
structure Inside (v whole : Json) : Prop where
  depth : v.depth < whole.depth
  references : v.references ⊆ whole.references

variable {v w whole root : Json} {key pointer : String}

@[refl] theorem Within.refl (v : Json) : v.Within v := ⟨Nat.le_refl _, fun _ member => member⟩

theorem Within.trans (first : v.Within w) (last : w.Within whole) : v.Within whole :=
  ⟨Nat.le_trans first.depth last.depth, fun _ member => last.references (first.references member)⟩

theorem Inside.within (inside : v.Inside whole) : v.Within whole :=
  ⟨Nat.le_of_lt inside.depth, inside.references⟩

theorem Inside.trans_within (first : v.Inside w) (last : w.Within whole) : v.Inside whole :=
  ⟨Nat.lt_of_lt_of_le first.depth last.depth,
    fun _ member => last.references (first.references member)⟩

theorem Within.part (within : w.Within whole) (inside : v.Inside w) : v.Within whole :=
  (inside.trans_within within).within

theorem Inside.trans (first : v.Inside w) (last : w.Inside whole) : v.Inside whole :=
  first.trans_within last.within

theorem item_inside {items : List Json} (member : v ∈ items) : v.Inside (.array items) := by
  induction items with
  | nil => simp at member
  | cons first rest ih =>
    rcases List.mem_cons.mp member with rfl | member
    · constructor
      · simp only [depth, depthOfItems]; omega
      · exact fun p inside => by simp [references, referencesInItems, inside]
    · have deeper := (ih member).depth
      constructor
      · simp only [depth, depthOfItems] at deeper ⊢; omega
      · intro p inside
        have earlier := (ih member).references inside
        simp only [references] at earlier
        simp [references, referencesInItems, earlier]

theorem field_inside {fields : List (String × Json)} (member : (key, v) ∈ fields) :
    v.Inside (.object fields) := by
  induction fields with
  | nil => simp at member
  | cons first rest ih =>
    obtain ⟨k, f⟩ := first
    rcases List.mem_cons.mp member with same | member
    · cases same
      constructor
      · simp only [depth, depthOfFields]; omega
      · exact fun p inside => by simp [references, referencesInFields, inside]
    · have deeper := (ih member).depth
      constructor
      · simp only [depth, depthOfFields] at deeper ⊢; omega
      · intro p inside
        have earlier := (ih member).references inside
        simp only [references] at earlier
        simp [references, referencesInFields, earlier]

theorem mem_of_lookup {fields : List (String × Json)} (found : fields.lookup key = some v) :
    (key, v) ∈ fields := by
  obtain ⟨before, after, rfl, -⟩ := List.lookup_eq_some_iff.mp found
  simp

theorem field?_inside (found : whole.field? key = some v) : v.Inside whole := by
  cases whole with
  | object fields => exact field_inside (mem_of_lookup found)
  | _ => cases found

theorem Within.field (within : w.Within whole) (found : w.field? key = some v) : v.Within whole :=
  within.part (field?_inside found)

theorem items?_inside {items : List Json} (list : whole.items? = some items) (member : v ∈ items) :
    v.Inside whole := by
  cases whole with
  | array => cases list; exact item_inside member
  | _ => cases list

theorem fields?_inside {fields : List (String × Json)} (object : whole.fields? = some fields)
    (member : (key, v) ∈ fields) : v.Inside whole := by
  cases whole with
  | object => cases object; exact field_inside member
  | _ => cases object

theorem mem_references_of_reference? (follows : v.reference? = some pointer) :
    pointer ∈ v.references := by
  obtain ⟨target, found, same⟩ := Option.bind_eq_some_iff.mp follows
  cases v with
  | object fields =>
    have member := mem_of_lookup found
    clear follows found
    induction fields with
    | nil => simp at member
    | cons first rest ih =>
      obtain ⟨k, f⟩ := first
      rcases List.mem_cons.mp member with here | later
      · cases here
        simp [references, referencesInFields, same]
      · have earlier := ih later
        simp only [references] at earlier
        simp [references, referencesInFields, earlier]
  | _ => cases found

theorem descend_within {segment : List Char} (found : whole.descend segment = some v) :
    v.Within whole := by
  cases whole with
  | object fields => exact (field_inside (mem_of_lookup found)).within
  | array items =>
    obtain ⟨i, -, atIndex⟩ := Option.bind_eq_some_iff.mp found
    exact (item_inside (List.mem_of_getElem? atIndex)).within
  | _ => cases found

theorem descents_within {segments : List (List Char)}
    (found : segments.foldlM descend whole = some v) : v.Within whole := by
  induction segments generalizing whole with
  | nil => cases found; exact .refl _
  | cons segment rest ih =>
    rw [List.foldlM_cons] at found
    obtain ⟨next, step, onward⟩ := Option.bind_eq_some_iff.mp found
    exact (ih onward).trans (descend_within step)

theorem lookup_within (found : root.lookup pointer = .ok v) : v.Within root := by
  unfold lookup at found
  split at found
  · next path _ =>
    split at found
    · next target atPath =>
      cases found
      unfold pointer? at atPath
      split at atPath
      · cases atPath; exact .refl _
      · exact descents_within atPath
      · cases atPath
    · cases found
  · cases found

theorem follow_within {fuel : Nat} {seen : List String} (inside : v.Within root)
    (found : root.follow fuel seen v = .ok w) : w.Within root := by
  induction fuel generalizing seen v with
  | zero =>
    unfold follow at found
    split at found
    · cases found; exact inside
    · split at found <;> cases found
  | succ fuel ih =>
    unfold follow at found
    split at found
    · cases found; exact inside
    · next pointer _ =>
      split at found
      · cases found
      · cases step : root.lookup pointer with
        | error e => rw [step] at found; cases found
        | ok target => rw [step] at found; exact ih (lookup_within step) found

theorem deref_within (inside : v.Within root) (found : root.deref v = .ok w) : w.Within root :=
  follow_within inside found

end HttpPlan.Json
