import HttpPlan.Proofs.Placeholder.Phrase
import Mathlib.Data.List.Chain
import Mathlib.Data.String.Basic

/-! How a phrase is filled. A loop puts one drawn word after the other, spaces between them, until
the text is long enough; then the text is cut to its length, and a space that the cut leaves at the
end gives way to a letter. A word takes four letters at least, so the loop ends whatever is drawn,
and wherever the cut falls, spaces stand alone and between letters only. -/
namespace HttpPlan

theorem Word.four_le_length_letters (w : Word) : 4 ≤ w.letters.length := by
  simp [letters, Syllable.letters]

theorem Word.space_not_mem_letters (w : Word) : ' ' ∉ w.letters :=
  fun member => absurd (isLower_of_mem member) (by decide)

namespace Phrase

variable {σ : Type} {draw : σ → Word × σ} {length rounds : Nat} {s after : σ}
  {text filled more : List Char}

/-- What the next word of a text is put behind. -/
def lead (text : List Char) : List Char := if text = [] then [] else text ++ [' ']

def extend (text : List Char) (w : Word) : List Char := lead text ++ w.letters

/-- The loop, from a text and a source on: its number of rounds, and the text and the source that it
ends with. -/
inductive Fills (draw : σ → Word × σ) (length : Nat) :
    List Char → σ → Nat → List Char → σ → Prop
  | full {text : List Char} {s : σ} (enough : length ≤ text.length) :
      Fills draw length text s 0 text s
  | round {text filled : List Char} {s after : σ} {rounds : Nat} (short : text.length < length)
      (onward : Fills draw length (extend text (draw s).1) (draw s).2 rounds filled after) :
      Fills draw length text s (rounds + 1) filled after

theorem Fills.unique {rounds' : Nat} {filled' : List Char} {after' : σ}
    (fills : Fills draw length text s rounds filled after)
    (twin : Fills draw length text s rounds' filled' after') :
    rounds' = rounds ∧ filled' = filled ∧ after' = after := by
  induction fills generalizing rounds' with
  | full enough =>
    cases twin with
    | full => exact ⟨rfl, rfl, rfl⟩
    | round short => exact absurd enough (Nat.not_le.mpr short)
  | round short _ ih =>
    cases twin with
    | full enough => exact absurd enough (Nat.not_le.mpr short)
    | round _ onward =>
      obtain ⟨rfl, same⟩ := ih onward
      exact ⟨rfl, same⟩

/-- The loop ends, and cut to its length the text is what stood there and the words for the `room`
behind it. Each round takes five places, a separator's with the letters; only the last one may have
fewer left. -/
theorem exists_fills (draw : σ → Word × σ) (text : List Char) (room : Nat) (s : σ)
    (short : text.length < length) (fits : (lead text).length + room = length) :
    ∃ rounds filled, rounds ≤ room / 5 + 1 ∧
      Fills draw length text s rounds filled (words draw room s).2 ∧
      filled.take length = lead text ++ (words draw room s).1 := by
  induction room using Nat.strongRecOn generalizing text s with
  | ind room ih =>
    have four := Word.four_le_length_letters (draw s).1
    have extended : (extend text (draw s).1).length =
        (lead text).length + (draw s).1.letters.length := List.length_append
    rw [words]
    by_cases last : room ≤ (draw s).1.letters.length
    · refine ⟨1, extend text (draw s).1, by omega, .round short ?_, ?_⟩
      · rw [if_pos last]
        exact .full (by omega)
      · rw [if_pos last, extend, ← fits, List.take_length_add_append]
    · have filled_in : extend text (draw s).1 ≠ [] :=
        List.ne_nil_of_length_pos (by omega)
      have behind : lead (extend text (draw s).1) =
          lead text ++ ((draw s).1.letters ++ [' ']) := by
        rw [lead, if_neg filled_in, extend, List.append_assoc]
      obtain ⟨rounds, filled, few, onward, cut⟩ :=
        ih (room - (draw s).1.letters.length - 1) (by omega) (extend text (draw s).1) (draw s).2
          (by omega) (by simp only [behind, List.length_append, List.length_singleton]; omega)
      refine ⟨rounds + 1, filled, by omega, .round short ?_, ?_⟩
      · rw [if_neg last]
        exact onward
      · rw [if_neg last, cut, behind]
        simp only [List.append_assoc, List.singleton_append]

/-- No space stands first or behind another. -/
structure Parted (text : List Char) : Prop where
  front : text.head? ≠ some ' '
  single : text.IsChain fun c d => c = ' ' → d ≠ ' '

/-- Spaces stand alone and between other characters. -/
structure Spaced (text : List Char) : Prop extends Parted text where
  back : text.getLast? ≠ some ' '

theorem Parted.of_isPrefix {start : List Char} (parted : Parted text) (cut : start <+: text) :
    Parted start := by
  obtain ⟨rest, rfl⟩ := cut
  refine ⟨fun first => parted.front ?_, parted.single.left_of_append⟩
  rw [List.head?_append, first, Option.some_or]

/-- Letters may follow whatever stands there. -/
theorem Parted.spaced_append (parted : Parted text) (letters : ' ' ∉ more) (filled : more ≠ []) :
    Spaced (text ++ more) where
  front := by
    intro first
    rw [List.head?_append] at first
    rcases Option.or_eq_some_iff.mp first with first | ⟨-, first⟩
    · exact parted.front first
    · exact letters (List.mem_of_head? first)
  single := by
    have other : ∀ d ∈ more, d ≠ ' ' := fun d member space => letters (space ▸ member)
    have within : more.Pairwise fun c d => c = ' ' → d ≠ ' ' :=
      List.pairwise_of_forall_mem_list fun _ _ d member _ => other d member
    exact parted.single.append within.isChain fun _ _ d first _ => other d (List.mem_of_head? first)
  back := by
    intro last
    rw [List.getLast?_append_of_ne_nil _ filled] at last
    exact letters (List.mem_of_getLast? last)

/-- A separator stands alone, since the text before it ends otherwise. -/
theorem Spaced.parted_lead (spaced : Spaced text) : Parted (lead text) := by
  unfold lead
  split
  · exact ⟨nofun, .nil⟩
  · next filled =>
    refine ⟨?_, spaced.single.append (List.isChain_singleton _) fun c last _ _ space => ?_⟩
    · rw [List.head?_append_of_ne_nil _ filled]
      exact spaced.front
    · exact absurd (space ▸ last) spaced.back

theorem Spaced.extend (spaced : Spaced text) (w : Word) : Spaced (extend text w) :=
  spaced.parted_lead.spaced_append w.space_not_mem_letters (List.ne_nil_of_length_pos w.letters_pos)

theorem Fills.spaced (fills : Fills draw length text s rounds filled after)
    (spaced : Spaced text) : Spaced filled := by
  induction fills with
  | full => exact spaced
  | round _ _ ih => exact ih (spaced.extend _)

theorem Parted.spaced_closeEnd (parted : Parted text) : Spaced (closeEnd text) := by
  unfold closeEnd
  split
  · have cut : text.dropLast <+: text := List.dropLast_prefix text
    exact (parted.of_isPrefix cut).spaced_append (by decide) (by decide)
  · next lettered => exact ⟨parted, lettered⟩

/-- A phrase is what the loop has filled, cut and closed. -/
theorem exists_fills_chars (draw : σ → Word × σ) (length : Nat) (s : σ) :
    ∃ rounds filled, rounds ≤ length / 5 + 1 ∧
      Fills draw length [] s rounds filled (chars draw length s).2 ∧
      (chars draw length s).1 = closeEnd (filled.take length) := by
  rcases Nat.eq_zero_or_pos length with rfl | wanted
  · exact ⟨0, [], by decide, .full (Nat.le_refl _), rfl⟩
  · obtain ⟨rounds, filled, few, fills, cut⟩ :=
      exists_fills draw [] length s wanted (Nat.zero_add length)
    rw [chars, if_neg (Nat.ne_of_gt wanted)]
    exact ⟨rounds, filled, few, fills, congrArg closeEnd cut.symm⟩

theorem utf8Size_of_plain {c : Char} (plain : c.isLower ∨ c = ' ') : c.utf8Size = 1 := by
  rcases plain with lower | rfl
  · have high : c.val ≤ 'z'.val := of_decide_eq_true (Bool.and_eq_true_iff.mp lower).2
    have ascii : 'z'.val ≤ 127 := by decide
    exact Char.utf8Size_eq_one_iff.mpr (UInt32.le_trans high ascii)
  · decide

theorem utf8Len_eq_length (plain : ∀ c ∈ text, c.isLower ∨ c = ' ') :
    String.utf8Len text = text.length := by
  induction text with
  | nil => rfl
  | cons c text ih =>
    obtain ⟨here, plain⟩ := List.forall_mem_cons.mp plain
    rw [String.utf8Len_cons, ih plain, utf8Size_of_plain here, List.length_cons]

/-- Whatever words are drawn, the loop that fills a phrase comes to its end. What it has filled, cut
and closed, is a text of the length that was asked for, in bytes as in characters: lower-case letters
in words that single spaces part. -/
theorem chars_spaced (draw : σ → Word × σ) (length : Nat) (s : σ) :
    (∃ rounds filled, rounds ≤ length / 5 + 1 ∧
      (∀ n text after, Fills draw length [] s n text after ↔
        n = rounds ∧ text = filled ∧ after = (chars draw length s).2) ∧
      (chars draw length s).1 = closeEnd (filled.take length)) ∧
    (chars draw length s).1.length = length ∧
    (String.ofList (chars draw length s).1).utf8ByteSize = length ∧
    (∀ c ∈ (chars draw length s).1, c.isLower ∨ c = ' ') ∧
    Spaced (chars draw length s).1 := by
  obtain ⟨rounds, filled, few, fills, closed⟩ := exists_fills_chars draw length s
  have spaced : Spaced filled := fills.spaced ⟨⟨nofun, .nil⟩, nofun⟩
  have plain : ∀ c ∈ (chars draw length s).1, c.isLower ∨ c = ' ' := fun c => mem_chars
  refine ⟨⟨rounds, filled, few, fun n text after => ⟨fills.unique, ?_⟩, closed⟩,
    length_chars length s, ?_, plain, ?_⟩
  · rintro ⟨rfl, rfl, rfl⟩
    exact fills
  · rw [String.utf8ByteSize_ofList, utf8Len_eq_length plain, length_chars]
  · have cut : filled.take length <+: filled := List.take_prefix length filled
    rw [closed]
    exact (spaced.toParted.of_isPrefix cut).spaced_closeEnd

/-- A cut on a separator: words of four letters, at a length of five. -/
example : (chars (fun s => (⟨⟨0, 0⟩, ⟨1, 1⟩, none⟩, s)) 5 ()).1 = ['b', 'a', 'd', 'e', 'a'] := by
  cbv

end Phrase

end HttpPlan
