import HttpPlan.Placeholder.Phrase

/-! A phrase has exactly the length that is asked for, and nothing but lower-case letters and spaces,
whatever is drawn. -/
namespace HttpPlan

theorem Syllable.isLower_of_mem {s : Syllable} {c : Char} (member : c ∈ s.letters) : c.isLower := by
  have consonant : ∀ i : Fin 14, consonants[i].isLower := by decide
  have vowel : ∀ i : Fin 5, vowels[i].isLower := by decide
  simp only [letters, List.mem_cons, List.not_mem_nil, or_false] at member
  rcases member with rfl | rfl
  · exact consonant s.consonant
  · exact vowel s.vowel

theorem Word.isLower_of_mem {w : Word} {c : Char} (member : c ∈ w.letters) : c.isLower := by
  rcases List.mem_append.mp member with member | last
  · exact (List.mem_append.mp member).elim Syllable.isLower_of_mem Syllable.isLower_of_mem
  · cases third : w.third with
    | none => simp [third] at last
    | some s => exact Syllable.isLower_of_mem (by simpa [third] using last)

namespace Phrase

variable {σ : Type} {draw : σ → Word × σ}

theorem length_words (length : Nat) (s : σ) : (words draw length s).1.length = length := by
  induction length using Nat.strongRecOn generalizing s with
  | ind length ih =>
    have some_letter := Word.letters_pos (draw s).1
    rw [words]
    by_cases last : length ≤ (draw s).1.letters.length
    · simp [last]
    · have rest := ih (length - (draw s).1.letters.length - 1) (by omega) (draw s).2
      simp only [last, if_false, List.length_append, List.length_cons, rest]
      omega

theorem length_closeEnd (cs : List Char) : (closeEnd cs).length = cs.length := by
  unfold closeEnd
  split
  · next ends =>
    have filled : cs ≠ [] := fun none => by simp [none] at ends
    have some_char := List.length_pos_iff.mpr filled
    simp only [List.length_append, List.length_dropLast, List.length_cons, List.length_nil]
    omega
  · rfl

theorem length_chars (length : Nat) (s : σ) : (chars draw length s).1.length = length := by
  unfold chars
  split
  · next none => exact none.symm
  · exact (length_closeEnd _).trans (length_words length s)

theorem length_draw (length : Nat) (r : Random) : (Phrase.draw length r).1.length = length := by
  simp [Phrase.draw, length_chars]

theorem mem_words {length : Nat} {s : σ} {c : Char} (member : c ∈ (words draw length s).1) :
    c.isLower ∨ c = ' ' := by
  induction length using Nat.strongRecOn generalizing s with
  | ind length ih =>
    have some_letter := Word.letters_pos (draw s).1
    rw [words] at member
    by_cases last : length ≤ (draw s).1.letters.length
    · simp only [last, if_true] at member
      exact Or.inl (Word.isLower_of_mem (List.mem_of_mem_take member))
    · simp only [last, if_false, List.mem_append, List.mem_cons] at member
      rcases member with letter | rfl | later
      · exact Or.inl (Word.isLower_of_mem letter)
      · exact Or.inr rfl
      · exact ih (length - (draw s).1.letters.length - 1) (by omega) later

theorem mem_chars {length : Nat} {s : σ} {c : Char} (member : c ∈ (chars draw length s).1) :
    c.isLower ∨ c = ' ' := by
  unfold chars at member
  split at member
  · cases member
  · dsimp only at member
    unfold closeEnd at member
    split at member
    · rcases List.mem_append.mp member with kept | closing
      · exact mem_words (List.dropLast_subset _ kept)
      · rw [List.mem_singleton.mp closing]
        exact Or.inl (by decide)
    · exact mem_words member

theorem mem_draw {length : Nat} {r : Random} {c : Char} (member : c ∈ (Phrase.draw length r).1.toList) :
    c.isLower ∨ c = ' ' := by
  rw [Phrase.draw, String.toList_ofList] at member
  exact mem_chars member

end Phrase

end HttpPlan
