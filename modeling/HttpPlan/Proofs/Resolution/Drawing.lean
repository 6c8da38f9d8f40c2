import HttpPlan.Proofs.Schema.Outline
import HttpPlan.Schema.Resolver

/-! What a resolver knows of the definitions it has met. The outline of a finished definition can
be drawn again from the document and the outlines of the other definitions alone, without the walk
that found it. -/
namespace HttpPlan.Resolver

variable {root value : Json} {r s t : Resolver} {pointer location : String} {id : SchemaId}
  {own next last outline : Outline} {steps more : List Step}

/-- A reference to a reference. -/
def IsAlias (root : Json) (pointer : String) : Prop :=
  ∃ target next, root.lookup pointer = .ok target ∧ target.reference? = some next

def IsDefinition (root : Json) (pointer : String) : Prop :=
  ∃ target, root.lookup pointer = .ok target ∧ target.reference? = none

/-- A reference whose chain of aliases, if any, comes to a definition. -/
inductive Grounded (root : Json) : String → Prop
  | definition {pointer : String} (definition : IsDefinition root pointer) : Grounded root pointer
  | chain {pointer next : String} {target : Json} (found : root.lookup pointer = .ok target)
      (follows : target.reference? = some next) (onward : Grounded root next) :
      Grounded root pointer

def Met (r : Resolver) (pointer : String) : Prop := ∃ id, r.memo.get? pointer = some id

/-- A place whose node is complete. -/
structure Finished (r : Resolver) (id : SchemaId) (outline : Outline) : Prop where
  complete : id ∉ r.unfinished
  drawn : (r.arena.node id).outline = outline

def Known (r : Resolver) (pointer : String) (outline : Outline) : Prop :=
  ∃ id, r.memo.get? pointer = some id ∧ r.Finished id outline

/-- The steps of a blueprint take a node from one outline to another. Every reference in them has
been met, and one that is a part is known. -/
inductive Builds (r : Resolver) : Outline → List Step → Outline → Prop
  | done (outline : Outline) : Builds r outline [] outline
  | fresh {own next last : Outline} {role : Role} {node : SchemaNode} {rest : List Step}
      (joins : own.join node.outline role = .ok next) (onward : Builds r next rest last) :
      Builds r own (.child role (.fresh node) :: rest) last
  | referred {own next last lent : Outline} {role : Role} {value : Json}
      {location pointer : String} {rest : List Step} (follows : value.reference? = some pointer)
      (met : r.Met pointer) (known : role.IsPart → r.Known pointer lent)
      (joins : own.join lent role = .ok next) (onward : Builds r next rest last) :
      Builds r own (.child role (.walked value location) :: rest) last
  | inline {own next last lent : Outline} {role : Role} {value : Json} {location : String}
      {rest : List Step} (plain : value.reference? = none)
      (lends : Builds r (value.blueprint location).1.outline (value.blueprint location).2 lent)
      (joins : own.join lent role = .ok next) (onward : Builds r next rest last) :
      Builds r own (.child role (.walked value location) :: rest) last
  | settle {own last : Outline} {rest : List Step} (onward : Builds r own rest last) :
      Builds r own (.settle :: rest) last
  | unite {own last : Outline} {rest : List Step} (onward : Builds r .union rest last) :
      Builds r own (.unite :: rest) last

/-- The outline that the keywords of a schema lead to. -/
def Drawn (r : Resolver) (value : Json) (location : String) (outline : Outline) : Prop :=
  Builds r (value.blueprint location).1.outline (value.blueprint location).2 outline

theorem Builds.append (first : Builds r own steps next) (onward : Builds r next more last) :
    Builds r own (steps ++ more) last := by
  induction first with
  | done => exact onward
  | fresh joins _ ih => exact .fresh joins (ih onward)
  | referred follows met known joins _ ih => exact .referred follows met known joins (ih onward)
  | inline plain lends joins _ _ ih => exact .inline plain lends joins (ih onward)
  | settle _ ih => exact .settle (ih onward)
  | unite _ ih => exact .unite (ih onward)

/-- A later state knows all that an earlier one knew. -/
structure Keeps (r s : Resolver) : Prop where
  met : ∀ pointer, r.Met pointer → s.Met pointer
  known : ∀ pointer outline, r.Known pointer outline → s.Known pointer outline

theorem Builds.mono (keeps : Keeps r s) (builds : Builds r own steps last) :
    Builds s own steps last := by
  induction builds with
  | done => exact .done _
  | fresh joins _ ih => exact .fresh joins ih
  | referred follows met known joins _ ih =>
    exact .referred follows (keeps.met _ met) (fun role => keeps.known _ _ (known role)) joins ih
  | inline plain _ joins _ lends ih => exact .inline plain lends joins ih
  | settle _ ih => exact .settle ih
  | unite _ ih => exact .unite ih

theorem Drawn.mono (keeps : Keeps r s) (drawn : Drawn r value location outline) :
    Drawn s value location outline := Builds.mono keeps drawn

/-- How a reference of the memo came by its place. -/
inductive Explained (root : Json) (r : Resolver) (pointer : String) (id : SchemaId) : Prop
  | chain {target : Json} {next : String} (found : root.lookup pointer = .ok target)
      (follows : target.reference? = some next) (shared : r.memo.get? next = some id)
  | definition {target : Json} (found : root.lookup pointer = .ok target)
      (plain : target.reference? = none)
      (drawn : id ∉ r.unfinished → Drawn r target pointer (r.arena.node id).outline)

/-- The place of a value: that of its reference, or one of its own. -/
def Shown (r : Resolver) (value : Json) (location : String) (id : SchemaId) : Prop :=
  match value.reference? with
  | some pointer => r.memo.get? pointer = some id
  | none => id ∉ r.unfinished ∧ Drawn r value location (r.arena.node id).outline

end HttpPlan.Resolver
