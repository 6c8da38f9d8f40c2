import HttpPlan.Proofs.Assertion.Filling
import HttpPlan.Proofs.Assertion.Tree

/-! Guards in a list of assertions, by their position and by the place that their bodies are about.
Putting a body into a guard that has none leaves every other guard where it was, adds nothing to it
but bodies further inside, and keeps all bodies within the scope of their guards. -/
namespace HttpPlan

/-- The place that the body of a guard is about. -/
def Guard.scope (target : Locator) : Guard → Locator
  | ifPresent key => target.key key
  | ifNonEmptyArray => target.index 0
  | ifNotNull => target

theorem Guard.scope_within (guard : Guard) (target : Locator) :
    (guard.scope target).Within target := by
  cases guard with
  | ifPresent key => exact Locator.extend_within
  | ifNonEmptyArray => exact Locator.extend_within
  | ifNotNull => exact Locator.within_refl target

namespace Assertion

/-- What stands at a position, counted down from the list. -/
inductive Sits : List Assertion → List Nat → Assertion → Prop
  | here {list : List Assertion} {index : Nat} {a : Assertion} (found : list[index]? = some a) :
      Sits list [index] a
  | inside {list inner : List Assertion} {index : Nat} {slot : List Nat} {target : Locator}
      {guard : Guard} {a : Assertion} (found : list[index]? = some (.guarded target guard inner))
      (further : Sits inner slot a) : Sits list (index :: slot) a

/-- What is in a list, in the bodies of guards too. -/
inductive Occurs (list : List Assertion) : Assertion → Prop
  | top {a : Assertion} (member : a ∈ list) : Occurs list a
  | inner {target : Locator} {guard : Guard} {body : List Assertion} {a : Assertion}
      (outer : Occurs list (.guarded target guard body)) (member : a ∈ body) : Occurs list a

mutual
/-- Whether no body, at any depth, is about a place outside the scope of its guard. -/
def Scoped : Assertion → Prop
  | check _ _ => True
  | guarded target guard body => AllScoped (guard.scope target) body
def AllScoped (place : Locator) : List Assertion → Prop
  | [] => True
  | a :: rest => (a.target.Within place ∧ Scoped a) ∧ AllScoped place rest
end

mutual
/-- The places that guards for presence open, at any depth. -/
def openings : Assertion → List Locator
  | check _ _ => []
  | guarded target guard body =>
    (if guard = .ifNotNull then [] else [guard.scope target]) ++ allOpenings body
def allOpenings : List Assertion → List Locator
  | [] => []
  | a :: rest => openings a ++ allOpenings rest
end

mutual
/-- An assertion and what becomes of it when bodies are put into guards that had none. -/
inductive Grown : Assertion → Assertion → Prop
  | check {target : Locator} {c : Check} : Grown (check target c) (check target c)
  | filled {target : Locator} {guard : Guard} {body : List Assertion} :
      Grown (guarded target guard []) (guarded target guard body)
  | inside {target : Locator} {guard : Guard} {inner body : List Assertion}
      (grown : AllGrown inner body) : Grown (guarded target guard inner) (guarded target guard body)
inductive AllGrown : List Assertion → List Assertion → Prop
  | nil : AllGrown [] []
  | cons {a b : Assertion} {rest more : List Assertion} (first : Grown a b)
      (others : AllGrown rest more) : AllGrown (a :: rest) (b :: more)
end

variable {list more inner body : List Assertion} {slot other : List Nat} {a b : Assertion}
  {target place : Locator} {guard : Guard}

theorem Sits.append (sits : Sits list slot a) : Sits (list ++ more) slot a := by
  have kept : ∀ {index b}, list[index]? = some b → (list ++ more)[index]? = some b :=
    fun found => by rw [List.getElem?_append_left (List.getElem?_eq_some_iff.mp found).1, found]
  cases sits with
  | here found => exact .here (kept found)
  | inside found further => exact .inside (kept found) further

theorem sits_concat : Sits (list ++ [a]) [list.length] a := .here List.getElem?_concat_length

/-- A position in the body of a guard, counted from the list that the guard is in. -/
theorem Sits.under (sits : Sits list slot (.guarded target guard body))
    (below : Sits body other a) : Sits list (slot ++ other) a := by
  generalize same : Assertion.guarded target guard body = whole at sits
  induction sits with
  | here found =>
    subst same
    exact .inside found below
  | inside found _ ih => exact .inside found (ih same)

/-- What occurs in the body of a guard occurs in the list that the guard is in. -/
theorem Occurs.deeper (outer : Occurs list (.guarded target guard body)) (inner : Occurs body a) :
    Occurs list a := by
  induction inner with
  | top member => exact .inner outer member
  | inner _ member ih => exact .inner ih member

theorem Occurs.mono (subset : list ⊆ more) (occurs : Occurs list a) : Occurs more a := by
  induction occurs with
  | top member => exact .top (subset member)
  | inner _ member ih => exact .inner ih member

theorem not_occurs_nil : ¬ Occurs [] a := by
  intro occurs
  induction occurs with
  | top member => cases member
  | inner _ _ ih => exact ih

theorem occurs_cons : Occurs (a :: list) b ↔
    b = a ∨ (∃ target guard body, a = .guarded target guard body ∧ Occurs body b) ∨
      Occurs list b := by
  constructor
  · intro occurs
    induction occurs with
    | top member =>
      rcases List.mem_cons.mp member with same | later
      · exact Or.inl same
      · exact Or.inr (Or.inr (.top later))
    | @inner target guard body c _ member ih =>
      rcases ih with same | ⟨outer, kind, whole, same, inside⟩ | later
      · exact Or.inr (Or.inl ⟨target, guard, body, same.symm, .top member⟩)
      · exact Or.inr (Or.inl ⟨outer, kind, whole, same, .inner inside member⟩)
      · exact Or.inr (Or.inr (.inner later member))
  · rintro (rfl | ⟨target, guard, body, rfl, inside⟩ | later)
    · exact .top List.mem_cons_self
    · exact (Occurs.top List.mem_cons_self).deeper inside
    · exact later.mono (List.subset_cons_self ..)

theorem occurs_check_cons {c : Check} :
    Occurs (.check target c :: list) a ↔ a = .check target c ∨ Occurs list a := by
  simp [occurs_cons]

theorem occurs_guarded_cons : Occurs (.guarded target guard body :: list) a ↔
    a = .guarded target guard body ∨ Occurs body a ∨ Occurs list a := by
  simp [occurs_cons]

theorem Sits.occurs (sits : Sits list slot a) : Occurs list a := by
  induction sits with
  | here found => exact .top (List.mem_of_getElem? found)
  | inside found _ ih => exact (Occurs.top (List.mem_of_getElem? found)).deeper ih

theorem Sits.unique (sits : Sits list slot a) (twin : Sits list slot b) : a = b := by
  induction sits with
  | here found =>
    cases twin with
    | here again => exact Option.some.inj (found.symm.trans again)
    | inside _ further => cases further
  | inside found further ih =>
    cases twin with
    | here => cases further
    | inside again onward =>
      cases found.symm.trans again
      exact ih onward

theorem Sits.vacant (sits : Sits list slot (.guarded target guard [])) :
    Derivation.Vacant slot list := by
  generalize same : Assertion.guarded target guard [] = whole at sits
  induction sits with
  | here found =>
    subst same
    exact ⟨target, guard, [], found, Or.inl ⟨rfl, rfl⟩⟩
  | inside found _ ih => exact ⟨_, _, _, found, Or.inr (ih same)⟩

theorem allScoped_iff :
    AllScoped place list ↔ ∀ a ∈ list, a.target.Within place ∧ a.Scoped := by
  induction list with
  | nil => simp [AllScoped]
  | cons a rest ih => rw [AllScoped, ih, List.forall_mem_cons]

theorem allScoped_append :
    AllScoped place (list ++ more) ↔ AllScoped place list ∧ AllScoped place more := by
  simp only [allScoped_iff, List.forall_mem_append]

/-- In a well scoped list, all that is inside the list is about its place. -/
theorem AllScoped.occurs (proper : AllScoped place list) (occurs : Occurs list a) :
    a.target.Within place ∧ a.Scoped := by
  induction occurs with
  | top member => exact allScoped_iff.mp proper _ member
  | @inner target guard body a _ member ih =>
    obtain ⟨within, below⟩ := ih
    obtain ⟨near, proper⟩ := allScoped_iff.mp below a member
    exact ⟨(near.trans (guard.scope_within target)).trans within, proper⟩

theorem allOpenings_append : allOpenings (list ++ more) = allOpenings list ++ allOpenings more := by
  induction list with
  | nil => rfl
  | cons a rest ih => simp only [List.cons_append, allOpenings, ih, List.append_assoc]

mutual
theorem grown_refl : ∀ a : Assertion, Grown a a
  | .check _ _ => .check
  | .guarded _ _ body => .inside (allGrown_refl body)
theorem allGrown_refl : ∀ list : List Assertion, AllGrown list list
  | [] => .nil
  | a :: rest => .cons (grown_refl a) (allGrown_refl rest)
end

mutual
theorem Grown.trans : ∀ {a b c : Assertion}, Grown a b → Grown b c → Grown a c
  | _, _, _, .check, .check => .check
  | _, _, _, .filled, .filled => .filled
  | _, _, _, .filled, .inside _ => .filled
  | _, _, _, .inside .nil, .filled => .filled
  | _, _, _, .inside grown, .inside later => .inside (grown.trans later)
theorem AllGrown.trans : ∀ {list more whole : List Assertion},
    AllGrown list more → AllGrown more whole → AllGrown list whole
  | _, _, _, .nil, .nil => .nil
  | _, _, _, .cons first others, .cons next rest => .cons (first.trans next) (others.trans rest)
end

theorem AllGrown.exists_mem : ∀ {list more : List Assertion}, AllGrown list more → a ∈ list →
    ∃ b ∈ more, Grown a b
  | _, _, .cons first others, member => by
    rcases List.mem_cons.mp member with rfl | later
    · exact ⟨_, List.mem_cons_self, first⟩
    · obtain ⟨b, inside, grown⟩ := others.exists_mem later
      exact ⟨b, List.mem_cons_of_mem _ inside, grown⟩

/-- What occurs in a list is still there, grown, once the list has grown. -/
theorem AllGrown.occurs (grown : AllGrown list more) (occurs : Occurs list a) :
    ∃ b, Occurs more b ∧ Grown a b := by
  induction occurs with
  | top member =>
    obtain ⟨b, inside, grown⟩ := grown.exists_mem member
    exact ⟨b, .top inside, grown⟩
  | inner _ member ih =>
    obtain ⟨_, there, grown⟩ := ih
    cases grown with
    | filled => cases member
    | inside grown =>
      obtain ⟨b, inside, grown⟩ := grown.exists_mem member
      exact ⟨b, .inner there inside, grown⟩

theorem AllGrown.occurs_check {check : Check} (grown : AllGrown list more)
    (occurs : Occurs list (.check target check)) : Occurs more (.check target check) := by
  obtain ⟨_, there, ⟨⟩⟩ := grown.occurs occurs
  exact there

theorem allGrown_of_one {before after : List Assertion} (grown : Grown a b) :
    AllGrown (before ++ a :: after) (before ++ b :: after) := by
  induction before with
  | nil => exact .cons grown (allGrown_refl after)
  | cons first rest ih => exact .cons (grown_refl first) ih

end Assertion

namespace Derivation

open Assertion

variable {list inner body : List Assertion} {slot position : List Nat} {index : Nat} {a b : Assertion}
  {target other : Locator} {guard kind : Guard} {place : Locator}

theorem exists_modify (found : list[index]? = some a) : ∃ before after,
    list = before ++ a :: after ∧
      ∀ change : Assertion → Assertion, list.modify index change = before ++ change a :: after := by
  induction list generalizing index with
  | nil => cases found
  | cons first rest ih =>
    cases index with
    | zero =>
      cases found
      exact ⟨[], rest, rfl, fun change => List.modify_zero_cons ..⟩
    | succ index =>
      obtain ⟨before, after, same, changed⟩ := ih found
      refine ⟨first :: before, after, by rw [same]; rfl, fun change => ?_⟩
      rw [List.modify_succ_cons, changed]
      rfl

/-- Filling a guard of the list itself replaces that guard. -/
theorem install_here (found : list[index]? = some (.guarded target guard body)) : ∃ before after,
    list = before ++ .guarded target guard body :: after ∧
      install inner [index] list = before ++ .guarded target guard inner :: after := by
  obtain ⟨before, after, same, changed⟩ := exists_modify found
  exact ⟨before, after, same, by rw [install_cons, changed]; rfl⟩

/-- Filling a guard further inside replaces the guard that leads there. -/
theorem install_deeper (found : list[index]? = some (.guarded target guard body))
    (deeper : Vacant slot body) : ∃ before after,
      list = before ++ .guarded target guard body :: after ∧
        install inner (index :: slot) list =
          before ++ .guarded target guard (install inner slot body) :: after := by
  obtain ⟨before, after, same, changed⟩ := exists_modify found
  refine ⟨before, after, same, ?_⟩
  cases slot with
  | nil => exact deeper.elim
  | cons next rest =>
    rw [install_cons, changed]
    rfl

theorem sits_filled (inner : List Assertion) (sits : Sits list slot (.guarded target guard [])) :
    Sits (install inner slot list) slot (.guarded target guard inner) := by
  generalize same : Assertion.guarded target guard [] = whole at sits
  induction sits with
  | here found =>
    subst same
    exact .here (getElem?_install_here found)
  | inside found further ih =>
    subst same
    exact .inside (getElem?_install_deeper found further.vacant) (ih rfl)

theorem grown_filled (sits : Sits list slot (.guarded target guard [])) :
    AllGrown list (install inner slot list) := by
  generalize same : Assertion.guarded target guard [] = whole at sits
  induction sits with
  | here found =>
    subst same
    obtain ⟨before, after, split, filled⟩ := install_here found
    rw [filled, split]
    exact allGrown_of_one .filled
  | inside found further ih =>
    subst same
    obtain ⟨before, after, split, filled⟩ := install_deeper found further.vacant
    rw [filled, split]
    exact allGrown_of_one (.inside (ih rfl))

theorem Vacant.sits (vacant : Vacant slot list) :
    ∃ target guard, Sits list slot (.guarded target guard []) := by
  induction slot generalizing list with
  | nil => exact vacant.elim
  | cons index slot ih =>
    obtain ⟨target, guard, inner, found, ⟨rfl, rfl⟩ | further⟩ := vacant
    · exact ⟨target, guard, .here found⟩
    · obtain ⟨other, kind, sits⟩ := ih further
      exact ⟨other, kind, .inside found sits⟩

theorem Vacant.grown (inner : List Assertion) (vacant : Vacant slot list) :
    AllGrown list (install inner slot list) := by
  obtain ⟨target, guard, sits⟩ := vacant.sits
  exact grown_filled sits

/-- What occurs in a body occurs in the list that the body is put into. -/
theorem Vacant.occurs (vacant : Vacant slot list) (occurs : Occurs inner a) :
    Occurs (install inner slot list) a := by
  obtain ⟨target, guard, sits⟩ := vacant.sits
  exact (sits_filled inner sits).occurs.deeper occurs

/-- Guards elsewhere stay where they were, and at most bodies further inside them are added. -/
theorem sits_beside (inner : List Assertion) (sits : Sits list slot (.guarded target guard []))
    (differ : slot ≠ position) (beside : Sits list position (.guarded other kind body)) :
    ∃ now, Sits (install inner slot list) position (.guarded other kind now) ∧
      AllGrown body now := by
  generalize same : Assertion.guarded target guard [] = whole at sits
  induction sits generalizing position with
  | @here list index a found =>
    subst same
    cases beside with
    | here there =>
      have apart : index ≠ _ := fun equal => differ (congrArg (fun i => [i]) equal)
      exact ⟨body, .here ((getElem?_install_other apart).trans there), allGrown_refl body⟩
    | @inside _ within j _ _ _ _ there further =>
      have apart : index ≠ j := by
        rintro rfl
        cases found.symm.trans there
        cases further with
        | here none => cases none
        | inside none => cases none
      exact ⟨body, .inside ((getElem?_install_other apart).trans there) further, allGrown_refl body⟩
  | @inside list within index slot _ _ a found further ih =>
    subst same
    cases beside with
    | @here _ j _ there =>
      by_cases equal : index = j
      · subst equal
        cases found.symm.trans there
        exact ⟨_, .here (getElem?_install_deeper found further.vacant), grown_filled further⟩
      · exact ⟨body, .here ((getElem?_install_other equal).trans there), allGrown_refl body⟩
    | @inside _ _ j rest _ _ _ there onward =>
      by_cases equal : index = j
      · subst equal
        cases found.symm.trans there
        obtain ⟨now, sits, grown⟩ := ih (fun same => differ (congrArg _ same)) onward rfl
        exact ⟨now, .inside (getElem?_install_deeper found further.vacant) sits, grown⟩
      · exact ⟨body, .inside ((getElem?_install_other equal).trans there) onward,
          allGrown_refl body⟩

theorem scoped_filled (sits : Sits list slot (.guarded target guard []))
    (proper : AllScoped place list) (below : AllScoped (guard.scope target) inner) :
    AllScoped place (install inner slot list) := by
  generalize same : Assertion.guarded target guard [] = whole at sits
  induction sits generalizing place with
  | here found =>
    subst same
    obtain ⟨before, after, rfl, filled⟩ := install_here found
    obtain ⟨early, ⟨within, -⟩, late⟩ := allScoped_append.mp proper
    rw [filled]
    exact allScoped_append.mpr ⟨early, ⟨within, below⟩, late⟩
  | inside found further ih =>
    subst same
    obtain ⟨before, after, rfl, filled⟩ := install_deeper found further.vacant
    obtain ⟨early, ⟨within, deep⟩, late⟩ := allScoped_append.mp proper
    rw [filled]
    exact allScoped_append.mpr ⟨early, ⟨within, ih deep rfl⟩, late⟩

theorem openings_of_one {before after : List Assertion} {further : List Locator}
    (grown : (openings b).Perm (openings a ++ further)) :
    (allOpenings (before ++ b :: after)).Perm (allOpenings (before ++ a :: after) ++ further) := by
  simp only [allOpenings_append, allOpenings, List.append_assoc]
  refine List.Perm.append_left _ ((grown.append_right _).trans ?_)
  rw [List.append_assoc]
  exact List.perm_append_comm.append_left _

theorem openings_filled (sits : Sits list slot (.guarded target guard [])) :
    (allOpenings (install inner slot list)).Perm (allOpenings list ++ allOpenings inner) := by
  generalize same : Assertion.guarded target guard [] = whole at sits
  induction sits with
  | here found =>
    subst same
    obtain ⟨before, after, split, filled⟩ := install_here found
    rw [filled, split]
    refine openings_of_one ?_
    simp only [openings, allOpenings, List.append_nil]
    exact .refl _
  | inside found further ih =>
    subst same
    obtain ⟨before, after, split, filled⟩ := install_deeper found further.vacant
    rw [filled, split]
    refine openings_of_one ?_
    simp only [openings, List.append_assoc]
    exact (ih rfl).append_left _

/-- What is left of an assertion has its target, and a body if it is a guard. -/
theorem mem_pruneOne (left : a ∈ pruneOne b) : a.target = b.target ∧
    ∀ target guard body, a = .guarded target guard body →
      body ≠ [] ∧ ∃ inner, b = .guarded target guard inner ∧ body = prune inner := by
  cases b with
  | check target c =>
    cases List.mem_singleton.mp left
    exact ⟨rfl, nofun⟩
  | guarded target guard inner =>
    rw [pruneOne] at left
    split at left
    · cases left
    · next filled =>
      cases List.mem_singleton.mp left
      refine ⟨rfl, ?_⟩
      rintro _ _ _ ⟨⟩
      exact ⟨filled, inner, rfl, rfl⟩

/-- What dropping empty guards leaves, at any depth, was there. -/
theorem occurs_prune (occurs : Occurs (prune list) a) : ∃ b, Occurs list b ∧ a ∈ pruneOne b := by
  induction occurs with
  | top member =>
    obtain ⟨b, there, left⟩ := mem_prune_iff.mp member
    exact ⟨b, .top there, left⟩
  | inner _ member ih =>
    obtain ⟨b, there, left⟩ := ih
    obtain ⟨-, inner, rfl, rfl⟩ := (mem_pruneOne left).2 _ _ _ rfl
    obtain ⟨c, inside, left⟩ := mem_prune_iff.mp member
    exact ⟨c, .inner there inside, left⟩

/-- What is left of an assertion is left in the list. -/
theorem occurs_pruned (occurs : Occurs list b) (left : a ∈ pruneOne b) : Occurs (prune list) a := by
  induction occurs generalizing a with
  | top member => exact .top (mem_prune_iff.mpr ⟨_, member, left⟩)
  | @inner target guard body b _ member ih =>
    have inside : a ∈ prune body := mem_prune_iff.mpr ⟨b, member, left⟩
    refine .inner (ih (a := .guarded target guard (prune body)) ?_) inside
    rw [pruneOne]
    split
    · next empty => rw [empty] at inside; cases inside
    · exact List.mem_singleton_self _

/-- In a well scoped list without the guards that have no body, every guard has a body, and all that
is inside the body is about the scope of the guard. -/
theorem prune_guards (proper : AllScoped place list)
    (occurs : Occurs (prune list) (.guarded target guard body)) :
    body ≠ [] ∧ ∀ a, Occurs body a → a.target.Within (guard.scope target) := by
  obtain ⟨b, there, left⟩ := occurs_prune occurs
  obtain ⟨filled, inner, rfl, rfl⟩ := (mem_pruneOne left).2 _ _ _ rfl
  refine ⟨filled, fun a inside => ?_⟩
  obtain ⟨c, inside, left⟩ := occurs_prune inside
  have below : AllScoped (guard.scope target) inner := (proper.occurs there).2
  rw [(mem_pruneOne left).1]
  exact (below.occurs inside).1

end Derivation

end HttpPlan
