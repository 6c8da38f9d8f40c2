import HttpPlan.Json.Printer
import HttpPlan.Proofs.Text.Lines

/-! Printed JSON stays within its lines: strings are escaped, and numbers are digits and marks. -/
namespace HttpPlan

open Text

/-- The characters that numbers are written with. -/
def Number.Mark (c : Char) : Prop := c.isDigit ∨ c ∈ ['-', '+', '.', 'e']

instance (c : Char) : Decidable (Number.Mark c) := inferInstanceAs (Decidable (_ ∨ _))

namespace Layout

variable {l : Layout} {d : Decimal} {x : Binary64} {c : Char}

theorem mark_digits {n : Nat} (written : c ∈ Nat.toDigits 10 n) : Number.Mark c :=
  .inl (Nat.isDigit_of_mem_toDigits (by decide) (by decide) written)

theorem mark_zeros {n : Nat} (written : c ∈ List.replicate n '0') : Number.Mark c :=
  .inl (List.eq_of_mem_replicate written ▸ by decide)

theorem mark_positionalText (written : c ∈ l.positionalText d) : Number.Mark c := by
  unfold positionalText at written
  dsimp only at written
  split at written
  · rcases List.mem_append.mp written with written | written
    · rcases List.mem_append.mp written with written | written
      · exact mark_digits written
      · exact mark_zeros written
    · split at written
      · rcases List.mem_cons.mp written with rfl | written
        · decide
        · exact List.mem_singleton.mp written ▸ by decide
      · cases written
  · have padded {c : Char} {n : Nat} (inside : c ∈ List.replicate n '0' ++ d.text) :
        Number.Mark c := (List.mem_append.mp inside).elim mark_zeros mark_digits
    rcases List.mem_append.mp written with written | written
    · exact padded (List.mem_of_mem_take written)
    · rcases List.mem_cons.mp written with rfl | written
      · decide
      · exact padded (List.mem_of_mem_drop written)

theorem mark_scientificText (written : c ∈ scientificText d) : Number.Mark c := by
  have sign : ∀ c ∈ (if d.leading < 0 then ['e', '-'] else ['e', '+']), Number.Mark c := by
    intro c inside
    split at inside <;> rcases List.mem_cons.mp inside with rfl | inside
    · decide
    · exact List.mem_singleton.mp inside ▸ by decide
    · decide
    · exact List.mem_singleton.mp inside ▸ by decide
  have power : ∀ c ∈ (if d.leading < 0 then ['e', '-'] else ['e', '+']) ++
      Nat.toDigits 10 d.leading.natAbs, Number.Mark c := fun c inside =>
    (List.mem_append.mp inside).elim (sign c) mark_digits
  have digits : ∀ c ∈ d.text, Number.Mark c := fun c => mark_digits
  unfold scientificText at written
  dsimp only at written
  split at written
  · exact power c written
  · next digit single =>
    rw [single, List.forall_mem_singleton] at digits
    rcases List.mem_cons.mp written with rfl | written
    · exact digits
    · exact power c written
  · next digit more some =>
    rw [some, List.forall_mem_cons] at digits
    rcases List.mem_append.mp written with written | written
    · rcases List.mem_cons.mp written with rfl | written
      · exact digits.1
      · rcases List.mem_cons.mp written with rfl | written
        · decide
        · exact digits.2 c written
    · exact power c written

theorem mark_write (written : c ∈ (l.write x).toList) : Number.Mark c := by
  have body : ∀ c ∈ (if l.isPositional x.shortest.leading then l.positionalText x.shortest
      else scientificText x.shortest), Number.Mark c := by
    intro c inside
    split at inside
    · exact mark_positionalText inside
    · exact mark_scientificText inside
  rw [write, String.toList_ofList] at written
  split at written
  · rcases List.mem_cons.mp written with rfl | written
    · decide
    · exact body c written
  · exact body c written

end Layout

namespace Number

variable {n : Number} {c : Char}

theorem mark_text (written : c ∈ n.text.toList) : Mark c := by
  cases n with
  | float x => exact Layout.mark_write written
  | int m =>
    rw [text, Int.toString_eq_repr, Int.repr_eq_if] at written
    split at written
    · rw [Nat.toList_repr] at written
      exact Layout.mark_digits written
    · rw [String.toList_append, Nat.toList_repr] at written
      rcases List.mem_append.mp written with written | written
      · exact List.mem_singleton.mp written ▸ by decide
      · exact Layout.mark_digits written

end Number

theorem Text.unbroken_of_marks {s : String} (marks : ∀ c ∈ s.toList, Number.Mark c) : Unbroken s :=
  fun inside => absurd (marks _ inside) (by decide)

theorem Layout.unbroken_write (l : Layout) (x : Binary64) : Unbroken (l.write x) :=
  unbroken_of_marks fun _ => mark_write

theorem Text.unbroken_repr (n : Nat) : Unbroken n.repr := by
  refine unbroken_of_marks ?_
  rw [Nat.toList_repr]
  exact fun _ => Layout.mark_digits

namespace Json

variable {s : String} {v : Json} {line : String}

theorem unbroken_number {n : Number} : Unbroken n.text :=
  unbroken_of_marks fun _ => Number.mark_text

theorem hexDigit_ne : ∀ n < 16, hexDigit n ≠ '\n' := by decide

theorem escapeChar_ne {c : Char} : '\n' ∉ escapeChar c := by
  have high := hexDigit_ne (c.toNat / 16)
  have low := hexDigit_ne (c.toNat % 16)
  unfold escapeChar
  grind

theorem unbroken_quote : Unbroken (quote s) := by
  simp [Unbroken, quote, escapeChar_ne]

theorem unbroken_leafText : Unbroken v.leafText := by
  cases v with
  | bool b => cases b <;> decide
  | number n => exact unbroken_number
  | string s => exact unbroken_quote
  | null | array _ | object _ => simp [leafText, Unbroken]

mutual

/-- Compact text is one line. -/
theorem unbroken_compact : (v : Json) → Unbroken v.compact
  | array items => by
    simp only [compact, unbroken_append, unbroken_intercalate (show Unbroken "," by decide)]
    exact ⟨⟨by decide, unbroken_compactItems items⟩, by decide⟩
  | object fields => by
    simp only [compact, unbroken_append, unbroken_intercalate (show Unbroken "," by decide)]
    exact ⟨⟨by decide, unbroken_compactFields fields⟩, by decide⟩
  | null | bool _ | number _ | string _ => unbroken_leafText

theorem unbroken_compactItems : (items : List Json) → ∀ text ∈ compactItems items, Unbroken text
  | [], _, member => nomatch member
  | v :: rest, _, member => by
    rcases List.mem_cons.mp member with rfl | member
    · exact unbroken_compact v
    · exact unbroken_compactItems rest _ member

theorem unbroken_compactFields :
    (fields : List (String × Json)) → ∀ text ∈ compactFields fields, Unbroken text
  | [], _, member => nomatch member
  | (_, v) :: rest, _, member => by
    rcases List.mem_cons.mp member with rfl | member
    · simp only [unbroken_append]
      exact ⟨⟨unbroken_quote, by decide⟩, unbroken_compact v⟩
    · exact unbroken_compactFields rest _ member

end

/-- A line of printed JSON stays on its line, and divides nothing. -/
structure Printed (line : String) : Prop where
  unbroken : Unbroken line
  distinct : line ≠ "###"

theorem printed_leafText : Printed v.leafText := by
  refine ⟨unbroken_leafText, ?_⟩
  cases v with
  | number n =>
    have plain : '#' ∉ n.text.toList := fun inside =>
      absurd (Number.mark_text inside) (by decide)
    exact (ne_of_mem (c := '#') (by decide) plain).symm
  | string s => exact ne_of_mem (c := '"') (by simp [leafText, quote]) (by decide)
  | bool b => cases b <;> decide
  | null | array _ | object _ => simp [leafText]

theorem printed_indentBlocks {blocks : List (List String)}
    (printed : ∀ block ∈ blocks, ∀ line ∈ block, Printed line) :
    ∀ line ∈ indentBlocks blocks, Printed line := by
  have indented {inner : String} (inside : Printed inner) : Printed ("  " ++ inner) :=
    ⟨unbroken_append.mpr ⟨by decide, inside.unbroken⟩,
      ne_of_mem (c := ' ') (by simp) (by decide)⟩
  have continued {inner : String} (inside : Printed inner) : Printed ("  " ++ inner ++ ",") :=
    ⟨unbroken_append.mpr ⟨(indented inside).unbroken, by decide⟩,
      ne_of_mem (c := ' ') (by simp) (by decide)⟩
  induction blocks using indentBlocks.induct with
  | case1 => intro line member; cases member
  | case2 block =>
    intro line member
    obtain ⟨inner, inside, rfl⟩ := List.mem_map.mp member
    exact indented (printed block List.mem_cons_self inner inside)
  | case3 block rest more ih =>
    intro line member
    rw [indentBlocks.eq_3 _ _ more] at member
    have first := printed block List.mem_cons_self
    rcases List.mem_append.mp member with member | member
    · rcases List.mem_append.mp member with member | member
      · obtain ⟨inner, inside, rfl⟩ := List.mem_map.mp member
        exact indented (first inner (List.dropLast_subset _ inside))
      · obtain ⟨inner, inside, rfl⟩ := List.mem_map.mp member
        exact continued (first inner (List.mem_of_getLast? (Option.mem_toList.mp inside)))
    · exact ih (fun other later => printed other (List.mem_cons_of_mem _ later)) line member

theorem printed_leadWith {text : String} (plain : Unbroken text) (quoted : '"' ∈ text.toList)
    {ls : List String} (printed : ∀ line ∈ ls, Printed line) :
    ∀ line ∈ leadWith text ls, Printed line := by
  cases ls with
  | nil =>
    intro line member
    rw [List.mem_singleton.mp member]
    exact ⟨plain, ne_of_mem quoted (by decide)⟩
  | cons first rest =>
    intro line member
    rcases List.mem_cons.mp member with rfl | member
    · exact ⟨unbroken_append.mpr ⟨plain, (printed first List.mem_cons_self).unbroken⟩,
        ne_of_mem (c := '"') (by simp [quoted]) (by decide)⟩
    · exact printed line (List.mem_cons_of_mem _ member)

theorem printed_bracketed {opening closing : String} {inner : List String}
    (first : Printed opening) (printed : ∀ line ∈ inner, Printed line) (last : Printed closing) :
    ∀ line ∈ opening :: inner ++ [closing], Printed line := by
  intro line member
  rcases List.mem_append.mp member with member | member
  · exact (List.forall_mem_cons.mpr ⟨first, printed⟩) line member
  · exact List.mem_singleton.mp member ▸ last

mutual

theorem printed_prettyLines : (v : Json) → ∀ line ∈ v.prettyLines, Printed line
  | array (v :: rest) =>
    printed_bracketed ⟨by decide, by decide⟩
      (printed_indentBlocks (printed_prettyItems (v :: rest))) ⟨by decide, by decide⟩
  | object (first :: rest) =>
    printed_bracketed ⟨by decide, by decide⟩
      (printed_indentBlocks (printed_prettyFields (first :: rest))) ⟨by decide, by decide⟩
  | array [] => List.forall_mem_singleton.mpr (printed_leafText (v := array []))
  | object [] => List.forall_mem_singleton.mpr (printed_leafText (v := object []))
  | null | bool _ | number _ | string _ => List.forall_mem_singleton.mpr printed_leafText

theorem printed_prettyItems :
    (items : List Json) → ∀ block ∈ prettyItems items, ∀ line ∈ block, Printed line
  | [], _, member => nomatch member
  | v :: rest, _, member => by
    rcases List.mem_cons.mp member with rfl | member
    · exact printed_prettyLines v
    · exact printed_prettyItems rest _ member

theorem printed_prettyFields :
    (fields : List (String × Json)) → ∀ block ∈ prettyFields fields, ∀ line ∈ block, Printed line
  | [], _, member => nomatch member
  | (key, v) :: rest, _, member => by
    rcases List.mem_cons.mp member with rfl | member
    · exact printed_leadWith (unbroken_append.mpr ⟨unbroken_quote, by decide⟩) (by simp [quote])
        (printed_prettyLines v)
    · exact printed_prettyFields rest _ member

end

theorem prettyLines_ne_nil : v.prettyLines ≠ [] := by
  cases v with
  | array items => cases items <;> simp [prettyLines]
  | object fields => cases fields <;> simp [prettyLines]
  | _ => simp [prettyLines]

theorem lines_pretty : lines v.pretty = v.prettyLines :=
  (lines_intercalate_eq prettyLines_ne_nil).mpr fun line member =>
    (printed_prettyLines v line member).unbroken

end Json

end HttpPlan
