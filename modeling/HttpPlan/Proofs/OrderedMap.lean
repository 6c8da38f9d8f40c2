import HttpPlan.OrderedMap

/-! Looking up in an ordered map after insertions, what a choice of keys makes of them, and what
erasing the newest keys leaves. -/
namespace HttpPlan.OrderedMap

variable {κ α : Type} [DecidableEq κ] {m n : OrderedMap κ α} {key other : κ} {value found : α}
  {keep : κ → Bool} {entries : List (κ × α)}

omit [DecidableEq κ] in
@[ext] theorem ext_entries (same : m.entries = n.entries) : m = n := by
  cases m; cases n; cases same; rfl

theorem get?_eq_none_iff : m.get? key = none ↔ key ∉ m.keys := by
  simp only [get?, keys, List.lookup_eq_none_iff, List.mem_map, not_exists, not_and]
  exact ⟨fun absent e member same => by simpa [same] using absent e member,
    fun absent e member => by simpa using fun same => absent e member same.symm⟩

theorem get?_of_mem (member : (key, found) ∈ m.entries) : m.get? key = some found := by
  obtain ⟨entries, distinct⟩ := m
  obtain ⟨before, after, rfl⟩ := List.append_of_mem member
  refine List.lookup_eq_some_iff.mpr ⟨before, after, rfl, fun e earlier => ?_⟩
  rw [List.map_append, List.nodup_append] at distinct
  have apart := distinct.2.2 e.1 (List.mem_map_of_mem earlier) key (by simp)
  exact bne_iff_ne.mpr (Ne.symm apart)

theorem entries_insert_new (absent : m.get? key = none) :
    (m.insert key value).entries = m.entries ++ [(key, value)] := by
  have outside : key ∉ m.entries.map Prod.fst := get?_eq_none_iff.mp absent
  rw [insert, dif_neg outside]

theorem keys_insert_new (absent : m.get? key = none) :
    (m.insert key value).keys = m.keys ++ [key] := by
  simp [keys, entries_insert_new absent]

theorem get?_insert_new (absent : m.get? key = none) :
    (m.insert key value).get? other = if other = key then some value else m.get? other := by
  rw [get?, entries_insert_new absent, List.lookup_append]
  by_cases same : other = key
  · subst same
    have miss : m.entries.lookup other = none := absent
    simp [miss]
  · have apart : (other == key) = false := by simpa using same
    simp [get?, List.lookup_cons, apart, same]

theorem isEmpty_insert : (m.insert key value).isEmpty = false := by
  unfold insert
  split
  · next present =>
    have filled : m.entries ≠ [] := fun none => by simp [none] at present
    simpa [isEmpty, replace] using filled
  · simp [isEmpty]

/-- Every value of a map after an insertion is an old one or the new one. -/
theorem values_insert {v : α} (member : v ∈ (m.insert key value).values) :
    v ∈ m.values ∨ v = value := by
  rw [values, insert] at member
  split at member
  · simp only [replace, List.map_map, List.mem_map] at member
    obtain ⟨e, inside, rfl⟩ := member
    by_cases same : e.1 = key
    · simp [same]
    · simp only [Function.comp, same, if_false]
      exact Or.inl (List.mem_map_of_mem inside)
  · simp only [List.map_append, List.mem_append, List.map_cons, List.map_nil,
      List.mem_singleton] at member
    exact member

theorem map_replace {β : Type} (view : α → β) (entries : List (κ × α)) :
    (replace key value entries).map (Prod.map id view) =
      replace key (view value) (entries.map (Prod.map id view)) := by
  simp only [replace, List.map_map]
  refine List.map_congr_left fun e _ => ?_
  by_cases same : e.1 = key <;> simp [same]

/-- Maps that look the same still do after insertions that look the same. -/
theorem insert_congr {β : Type} {view : α → β}
    (same : m.entries.map (Prod.map id view) = n.entries.map (Prod.map id view))
    (alike : view value = view found) :
    (m.insert key value).entries.map (Prod.map id view) =
      (n.insert key found).entries.map (Prod.map id view) := by
  have keys : m.entries.map Prod.fst = n.entries.map Prod.fst := by
    have firsts := congrArg (List.map Prod.fst) same
    simpa only [List.map_map, Function.comp_def, Prod.map_fst, id_eq] using firsts
  unfold insert
  by_cases present : key ∈ m.entries.map Prod.fst
  · rw [dif_pos present, dif_pos (keys ▸ present)]
    simp only [map_replace, same, alike]
  · rw [dif_neg present, dif_neg (keys ▸ present)]
    simp only [List.map_append, same, List.map_cons, List.map_nil, Prod.map_apply, alike]

/-- Erasing the keys behind a prefix of the entries leaves the prefix. -/
theorem erase_newer {newer : List κ} (same : n.keys = m.keys ++ newer)
    (before : m.entries <+: n.entries) : newer.foldl erase n = m := by
  induction newer generalizing n with
  | nil =>
    refine ext_entries (before.eq_of_length ?_).symm
    simpa [keys] using (congrArg List.length same).symm
  | cons key newer ih =>
    have distinct : (m.keys ++ key :: newer).Nodup := same ▸ n.distinct
    obtain ⟨-, tail, apart⟩ := List.nodup_append.mp distinct
    have kept : (n.erase key).keys = n.keys.filter (· ≠ key) := by
      simp only [keys, erase, filterKeys, List.filter_map]
      rfl
    have old : m.keys.filter (· ≠ key) = m.keys := by
      rw [List.filter_eq_self]
      exact fun k member => by simpa using apart k member key (by simp)
    refine ih ?_ ?_
    · rw [kept, same, List.filter_append, old, List.filter_cons_of_neg (by simp)]
      congr 1
      rw [List.filter_eq_self]
      exact fun k member => by
        simpa using fun e : k = key => (List.nodup_cons.mp tail).1 (e ▸ member)
    · have narrowed := before.filter (fun e => decide (e.1 ≠ key))
      have whole : m.entries.filter (fun e => decide (e.1 ≠ key)) = m.entries := by
        rw [List.filter_eq_self]
        exact fun e member => by
          simpa using apart e.1 (List.mem_map_of_mem member) key (by simp)
      rwa [whole] at narrowed

theorem entries_insert_old (present : key ∈ m.keys) :
    (m.insert key value).entries = replace key value m.entries := by
  have held : key ∈ m.entries.map Prod.fst := present
  rw [insert, dif_pos held]

theorem get?_eq_some_iff : m.get? key = some found ↔ (key, found) ∈ m.entries := by
  refine ⟨fun held => ?_, get?_of_mem⟩
  obtain ⟨before, after, same, -⟩ := List.lookup_eq_some_iff.mp held
  simp [same]

theorem mem_replace {e : κ × α} : e ∈ replace key value entries ↔
    if e.1 = key then e.2 = value ∧ key ∈ entries.map Prod.fst else e ∈ entries := by
  obtain ⟨other, found⟩ := e
  simp only [replace, List.mem_map]
  grind

theorem mem_entries_insert : (other, found) ∈ (m.insert key value).entries ↔
    if other = key then found = value else (other, found) ∈ m.entries := by
  by_cases present : key ∈ m.keys
  · have held : key ∈ m.entries.map Prod.fst := present
    simp only [entries_insert_old present, mem_replace, held, and_true]
  · have absent := get?_eq_none_iff.mpr present
    have old : (key, found) ∉ m.entries := fun member => present (List.mem_map_of_mem member)
    rw [entries_insert_new absent, List.mem_append, List.mem_singleton, Prod.mk.injEq]
    split
    · next same => simp [same, old]
    · next apart => simp [apart]

theorem get?_insert : (m.insert key value).get? other =
    if other = key then some value else m.get? other := by
  refine Option.ext fun found => ?_
  rw [get?_eq_some_iff, mem_entries_insert]
  split
  · rw [Option.some_inj, eq_comm]
  · exact get?_eq_some_iff.symm

theorem mem_keys_iff : key ∈ m.keys ↔ ∃ value, m.get? key = some value := by
  simp only [get?_eq_some_iff, keys, List.mem_map, Prod.exists, exists_and_right, exists_eq_right]

theorem mem_keys_insert : other ∈ (m.insert key value).keys ↔ other = key ∨ other ∈ m.keys := by
  rw [mem_keys_iff, mem_keys_iff, get?_insert]
  split
  · next same => simp [same]
  · next apart => simp [apart]

omit [DecidableEq κ] in
theorem entries_filterKeys : (m.filterKeys keep).entries = m.entries.filter (keep ·.1) := rfl

omit [DecidableEq κ] in
@[simp] theorem entries_empty : (∅ : OrderedMap κ α).entries = [] := rfl

omit [DecidableEq κ] in
theorem filterKeys_dropped (keep : κ → Bool) : (m.filterKeys (!keep ·)).filterKeys keep = ∅ := by
  apply ext_entries
  simp [entries_filterKeys]

omit [DecidableEq κ] in
theorem mem_keys_filterKeys : other ∈ (m.filterKeys keep).keys ↔ other ∈ m.keys ∧ keep other := by
  simp only [keys, filterKeys, List.mem_map, List.mem_filter]
  grind

theorem get?_filterKeys : (m.filterKeys keep).get? key = if keep key then m.get? key else none := by
  refine Option.ext fun found => ?_
  rw [get?_eq_some_iff, entries_filterKeys, List.mem_filter]
  split
  · next kept => simp [kept, get?_eq_some_iff]
  · next dropped => simp [dropped]

theorem filter_replace : (replace key value entries).filter (keep ·.1) =
    if keep key then replace key value (entries.filter (keep ·.1))
    else entries.filter (keep ·.1) := by
  induction entries with
  | nil => simp [replace]
  | cons e rest ih =>
    have tail : replace key value (e :: rest) =
      (if e.1 = key then (key, value) else e) :: replace key value rest := rfl
    grind [replace]

theorem filterKeys_insert : (m.insert key value).filterKeys keep =
    if keep key then (m.filterKeys keep).insert key value else m.filterKeys keep := by
  have narrowed : key ∈ (m.filterKeys keep).keys ↔ key ∈ m.keys ∧ keep key := mem_keys_filterKeys
  apply ext_entries
  rw [entries_filterKeys]
  by_cases present : key ∈ m.keys
  · rw [entries_insert_old present, filter_replace]
    split
    · next kept => rw [entries_insert_old (narrowed.mpr ⟨present, kept⟩), entries_filterKeys]
    · rfl
  · have outside := get?_eq_none_iff.mpr fun held => present (narrowed.mp held).1
    rw [entries_insert_new (get?_eq_none_iff.mpr present), List.filter_append]
    split
    · next kept => rw [entries_insert_new outside, entries_filterKeys]; simp [kept]
    · next dropped => simp [dropped, entries_filterKeys]

/-- Inserts entries one after the other. -/
def insertAll (m : OrderedMap κ α) (entries : List (κ × α)) : OrderedMap κ α :=
  entries.foldl (fun m e => m.insert e.1 e.2) m

theorem mem_keys_insertAll :
    key ∈ (m.insertAll entries).keys ↔ key ∈ entries.map Prod.fst ∨ key ∈ m.keys := by
  induction entries generalizing m with
  | nil => simp [insertAll]
  | cons e rest ih =>
    have step : m.insertAll (e :: rest) = (m.insert e.1 e.2).insertAll rest := rfl
    rw [step, ih, mem_keys_insert, List.map_cons, List.mem_cons]
    grind

theorem mem_entries_insertAll {e : κ × α} (member : e ∈ (m.insertAll entries).entries) :
    e ∈ entries ∨ e ∈ m.entries := by
  induction entries generalizing m with
  | nil => exact Or.inr member
  | cons first rest ih =>
    have step : m.insertAll (first :: rest) = (m.insert first.1 first.2).insertAll rest := rfl
    rw [step] at member
    rcases ih member with later | held
    · exact Or.inl (List.mem_cons_of_mem _ later)
    · rw [mem_entries_insert] at held
      split at held
      · next same => exact Or.inl (List.mem_cons.mpr (Or.inl (Prod.ext same held)))
      · exact Or.inr held

theorem filterKeys_insertAll : (m.insertAll entries).filterKeys keep =
    (m.filterKeys keep).insertAll (entries.filter (keep ·.1)) := by
  induction entries generalizing m with
  | nil => rfl
  | cons e rest ih =>
    have step : m.insertAll (e :: rest) = (m.insert e.1 e.2).insertAll rest := rfl
    rw [step, ih, filterKeys_insert, List.filter_cons]
    split <;> rfl

theorem get?_insertAll_outside (outside : key ∉ entries.map Prod.fst) :
    (m.insertAll entries).get? key = m.get? key := by
  induction entries generalizing m with
  | nil => rfl
  | cons e rest ih =>
    simp only [List.map_cons, List.mem_cons, not_or] at outside
    have step : m.insertAll (e :: rest) = (m.insert e.1 e.2).insertAll rest := rfl
    rw [step, ih outside.2, get?_insert, if_neg outside.1]

theorem get?_insertAll (distinct : (entries.map Prod.fst).Nodup)
    (member : (key, found) ∈ entries) : (m.insertAll entries).get? key = some found := by
  induction entries generalizing m with
  | nil => cases member
  | cons e rest ih =>
    obtain ⟨apart, distinct⟩ := List.nodup_cons.mp distinct
    have step : m.insertAll (e :: rest) = (m.insert e.1 e.2).insertAll rest := rfl
    rw [step]
    rcases List.mem_cons.mp member with rfl | later
    · rw [get?_insertAll_outside apart, get?_insert, if_pos rfl]
    · exact ih distinct later

/-- New keys go to the end, in their order. -/
theorem entries_insertAll (distinct : ((m.entries ++ entries).map Prod.fst).Nodup) :
    (m.insertAll entries).entries = m.entries ++ entries := by
  induction entries generalizing m with
  | nil => simp [insertAll]
  | cons e rest ih =>
    have step : m.insertAll (e :: rest) = (m.insert e.1 e.2).insertAll rest := rfl
    have absent : m.get? e.1 = none := by
      refine get?_eq_none_iff.mpr fun held => ?_
      rw [List.map_append, List.nodup_append] at distinct
      exact distinct.2.2 e.1 held e.1 (by simp) rfl
    have appended : m.entries ++ e :: rest = (m.insert e.1 e.2).entries ++ rest := by
      simp [entries_insert_new absent]
    rw [step, ih (appended ▸ distinct), appended]

/-- A map is what its entries make. -/
theorem ofList_entries (m : OrderedMap κ α) : ofList m.entries = m :=
  ext_entries (entries_insertAll (m := empty) m.distinct)

theorem get?_insertAll_congr (same : m.get? key = n.get? key) :
    (m.insertAll entries).get? key = (n.insertAll entries).get? key := by
  induction entries generalizing m n with
  | nil => exact same
  | cons e rest ih => exact ih (by rw [get?_insert, get?_insert, same])

end HttpPlan.OrderedMap
