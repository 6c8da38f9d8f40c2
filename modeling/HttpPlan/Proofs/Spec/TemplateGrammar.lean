import HttpPlan.Proofs.Spec.PathTemplate
import Mathlib.Data.List.Chain

/-! The grammar of path templates. A text is read just where its braces come in pairs around the
name of a parameter, and reading and printing are inverse to each other between such texts and the
lists of parts in which nothing is left to be joined. -/
namespace HttpPlan

namespace PathPart

/-- What a part says, without the braces of a token. -/
def content : PathPart → String
  | literal text => text
  | token name => name

def IsToken (part : PathPart) : Prop := part.token?.isSome

end PathPart

namespace PathTemplate

def BraceFree (cs : List Char) : Prop := ∀ c ∈ cs, c ≠ '\x7b' ∧ c ≠ '\x7d'

/-- Characters other than braces, and names in braces. -/
inductive Grammatical : List Char → Prop
  | empty : Grammatical []
  | plain {c : Char} {rest : List Char} (free : c ≠ '\x7b' ∧ c ≠ '\x7d')
      (tail : Grammatical rest) : Grammatical (c :: rest)
  | group {name rest : List Char} (named : name ≠ []) (free : BraceFree name)
      (tail : Grammatical rest) : Grammatical ('\x7b' :: (name ++ '\x7d' :: rest))

/-- Parts that say something without braces, no two of them literals side by side. -/
structure Canonical (parts : List PathPart) : Prop where
  filled : ∀ part ∈ parts, part.content ≠ ""
  free : ∀ part ∈ parts, BraceFree part.content.toList
  apart : parts.IsChain fun a b => a.IsToken ∨ b.IsToken

variable {cs name rest literal : List Char} {part : PathPart} {parts : List PathPart}

theorem braceFree_nil : BraceFree [] := List.forall_mem_nil _

theorem braceFree_snoc {c : Char} (free : BraceFree cs) (plain : c ≠ '\x7b' ∧ c ≠ '\x7d') :
    BraceFree (cs ++ [c]) :=
  List.forall_mem_append.mpr ⟨free, List.forall_mem_singleton.mpr plain⟩

theorem canonical_nil : Canonical [] := ⟨nofun, nofun, .nil⟩

theorem canonical_cons : Canonical (part :: parts) ↔
    (part.content ≠ "" ∧ BraceFree part.content.toList ∧
      ∀ next ∈ parts.head?, part.IsToken ∨ next.IsToken) ∧ Canonical parts := by
  constructor
  · rintro ⟨filled, free, apart⟩
    obtain ⟨here, filled⟩ := List.forall_mem_cons.mp filled
    obtain ⟨plain, free⟩ := List.forall_mem_cons.mp free
    obtain ⟨next, apart⟩ := List.isChain_cons.mp apart
    exact ⟨⟨here, plain, next⟩, filled, free, apart⟩
  · rintro ⟨⟨here, plain, next⟩, filled, free, apart⟩
    exact ⟨List.forall_mem_cons.mpr ⟨here, filled⟩, List.forall_mem_cons.mpr ⟨plain, free⟩,
      List.isChain_cons.mpr ⟨next, apart⟩⟩

theorem ofList_ne_empty (some : cs ≠ []) : String.ofList cs ≠ "" := fun empty =>
  some (by simpa using congrArg String.toList empty)

theorem canonical_token (named : name ≠ []) (free : BraceFree name) (canonical : Canonical parts) :
    Canonical (.token (String.ofList name) :: parts) :=
  canonical_cons.mpr ⟨⟨ofList_ne_empty named, by simpa [PathPart.content] using free,
    fun _ _ => Or.inl rfl⟩, canonical⟩

/-- What was read since the last token may stand before the next one, and at the end. -/
theorem canonical_literalPart (free : BraceFree literal) (canonical : Canonical parts)
    (next : ∀ part ∈ parts.head?, part.IsToken) : Canonical (literalPart literal ++ parts) := by
  unfold literalPart
  split
  · exact canonical
  · next some =>
    have filled : literal ≠ [] := fun empty => some (List.isEmpty_iff.mpr empty)
    exact canonical_cons.mpr ⟨⟨ofList_ne_empty filled, by simpa [PathPart.content] using free,
      fun part first => Or.inr (next part first)⟩, canonical⟩

/-- Reading outside braces and inside them, in step with each other. -/
theorem canonical_parsed (cs : List Char) :
    (∀ literal parts, BraceFree literal → parseLiteral literal cs = .ok parts →
      Canonical parts) ∧
    (∀ name parts, BraceFree name → parseToken name cs = .ok parts →
      Canonical parts ∧ ∀ part ∈ parts.head?, part.IsToken) := by
  induction cs with
  | nil =>
    constructor
    · intro literal parts free read
      rw [parseLiteral] at read
      cases read
      simpa using canonical_literalPart free canonical_nil fun part first => by cases first
    · intro name parts free read
      rw [parseToken] at read
      cases read
  | cons c rest ih =>
    obtain ⟨outside, inside⟩ := ih
    constructor
    · intro literal parts free read
      rw [parseLiteral] at read
      split at read
      · cases token : parseToken [] rest with
        | error fault => rw [token] at read; cases read
        | ok inner =>
          rw [token] at read
          cases read
          obtain ⟨canonical, first⟩ := inside [] inner braceFree_nil token
          exact canonical_literalPart free canonical first
      · next plain =>
        split at read
        · cases read
        · next solid => exact outside _ _ (braceFree_snoc free ⟨plain, solid⟩) read
    · intro name parts free read
      rw [parseToken] at read
      split at read
      · split at read
        · cases read
        · next some =>
          cases after : parseLiteral [] rest with
          | error fault => rw [after] at read; cases read
          | ok inner =>
            rw [after] at read
            cases read
            have named : name ≠ [] := fun empty => some (List.isEmpty_iff.mpr empty)
            refine ⟨canonical_token named free (outside [] inner braceFree_nil after), ?_⟩
            rintro part ⟨⟩
            rfl
      · next solid =>
        split at read
        · cases read
        · next plain => exact inside _ _ (braceFree_snoc free ⟨plain, solid⟩) read

theorem parseLiteral_braceFree (free : BraceFree cs) :
    parseLiteral literal (cs ++ rest) = parseLiteral (literal ++ cs) rest := by
  induction cs generalizing literal with
  | nil => simp
  | cons c cs ih =>
    obtain ⟨⟨plain, solid⟩, free⟩ := List.forall_mem_cons.mp free
    rw [List.cons_append, parseLiteral, if_neg plain, if_neg solid, ih free, List.append_assoc,
      List.singleton_append]

theorem parseToken_braceFree (free : BraceFree cs) :
    parseToken name (cs ++ rest) = parseToken (name ++ cs) rest := by
  induction cs generalizing name with
  | nil => simp
  | cons c cs ih =>
    obtain ⟨⟨plain, solid⟩, free⟩ := List.forall_mem_cons.mp free
    rw [List.cons_append, parseToken, if_neg solid, if_neg plain, ih free, List.append_assoc,
      List.singleton_append]

/-- A name in braces is read as a token, between what was read before it and what follows. -/
theorem parseLiteral_group (named : name ≠ []) (free : BraceFree name) :
    parseLiteral literal ('\x7b' :: (name ++ '\x7d' :: rest)) =
      (parseLiteral [] rest).map fun parts =>
        literalPart literal ++ .token (String.ofList name) :: parts := by
  have some : name.isEmpty = false := by simpa using named
  rw [parseLiteral, if_pos rfl, parseToken_braceFree free, List.nil_append, parseToken, if_pos rfl,
    some, if_neg Bool.false_ne_true]
  cases parseLiteral [] rest <;> rfl

theorem exists_parsed (grammatical : Grammatical cs) (literal : List Char) :
    ∃ parts, parseLiteral literal cs = .ok parts := by
  induction grammatical generalizing literal with
  | empty => exact ⟨_, by rw [parseLiteral]⟩
  | @plain c rest free _ ih =>
    rw [parseLiteral, if_neg free.1, if_neg free.2]
    exact ih _
  | group named free _ ih =>
    obtain ⟨parts, read⟩ := ih []
    exact ⟨_, by rw [parseLiteral_group named free, read]; rfl⟩

theorem grammatical_append (free : BraceFree cs) (tail : Grammatical rest) :
    Grammatical (cs ++ rest) := by
  induction cs with
  | nil => exact tail
  | cons c cs ih =>
    obtain ⟨here, free⟩ := List.forall_mem_cons.mp free
    exact .plain here (ih free)

theorem written_cons_token {name : String} :
    written (.token name :: parts) = '\x7b' :: (name.toList ++ '\x7d' :: written parts) := by
  rw [← written_token, String.ofList_toList]

theorem grammatical_written (canonical : Canonical parts) : Grammatical (written parts) := by
  induction parts with
  | nil => exact .empty
  | cons part parts ih =>
    obtain ⟨⟨filled, free, -⟩, tail⟩ := canonical_cons.mp canonical
    have content : part.content.toList ≠ [] := fun empty => filled (String.toList_eq_nil_iff.mp empty)
    cases part with
    | literal text => exact grammatical_append free (ih tail)
    | token name => exact written_cons_token ▸ .group content free (ih tail)

/-- Reading what parts print gives the parts, behind a literal that they cannot be joined to. -/
theorem parseLiteral_written (literal : List Char) (canonical : Canonical parts)
    (next : literal ≠ [] → ∀ part ∈ parts.head?, part.IsToken) :
    parseLiteral literal (written parts) = .ok (literalPart literal ++ parts) := by
  induction parts generalizing literal with
  | nil => rw [written, List.flatMap_nil, parseLiteral, List.append_nil]
  | cons part parts ih =>
    obtain ⟨⟨filled, free, apart⟩, tail⟩ := canonical_cons.mp canonical
    have content : part.content.toList ≠ [] := fun empty => filled (String.toList_eq_nil_iff.mp empty)
    cases part with
    | literal text =>
      change text.toList ≠ [] at content
      change BraceFree text.toList at free
      have first : literal = [] := by
        by_contra some
        cases next some _ rfl
      have onward := ih text.toList tail fun _ part ahead =>
        (apart part ahead).resolve_left Bool.false_ne_true
      change parseLiteral literal (text.toList ++ written parts) = _
      rw [parseLiteral_braceFree free, first, List.nil_append, onward]
      simp [literalPart, content]
    | token name =>
      change name.toList ≠ [] at content
      rw [written_cons_token, parseLiteral_group content free, ih [] tail (absurd rfl),
        String.ofList_toList]
      rfl

theorem parse_eq_ok {raw : String} {t : PathTemplate} :
    parse raw = .ok t ↔ parseLiteral [] raw.toList = .ok t.parts := by
  obtain ⟨parts⟩ := t
  unfold parse
  split
  · next found => simp [found]
  · next found => simp [found]

theorem written_eq_toList {t : PathTemplate} : written t.parts = t.text.toList := by
  rw [text, String.toList_join, List.flatMap_map]
  rfl

/-- A text is read just where it is grammatical; and what is read is canonical and prints the text,
which no other canonical list of parts does. -/
theorem parse_grammatical (raw : String) :
    ((∃ t, parse raw = .ok t) ↔ Grammatical raw.toList) ∧
      ∀ t, parse raw = .ok t ↔ Canonical t.parts ∧ t.text = raw := by
  have exact : ∀ t, parse raw = .ok t ↔ Canonical t.parts ∧ t.text = raw := by
    intro t
    constructor
    · intro read
      exact ⟨(canonical_parsed raw.toList).1 [] _ braceFree_nil (parse_eq_ok.mp read),
        text_of_parse read⟩
    · rintro ⟨canonical, rfl⟩
      rw [parse_eq_ok, ← written_eq_toList]
      exact parseLiteral_written [] canonical (absurd rfl)
  refine ⟨⟨?_, ?_⟩, exact⟩
  · rintro ⟨t, read⟩
    obtain ⟨canonical, rfl⟩ := (exact t).mp read
    exact written_eq_toList (t := t) ▸ grammatical_written canonical
  · intro grammatical
    obtain ⟨parts, read⟩ := exists_parsed grammatical []
    exact ⟨⟨parts⟩, parse_eq_ok.mpr read⟩

end PathTemplate

end HttpPlan
