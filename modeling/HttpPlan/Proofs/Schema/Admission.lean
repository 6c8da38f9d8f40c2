import HttpPlan.Proofs.Schema.Blueprint
import HttpPlan.Proofs.Schema.Validity

/-! A value that meets the keywords of a schema meets the fields of the node that they give, and the
steps of a blueprint put no schema where there is none. -/
namespace HttpPlan

variable {schema v : Json} {accepts : String → String → Prop} {location : String}
  {node : SchemaNode} {types : List JsonType} {type : JsonType}

namespace DeclaredType

/-- What a declared type asks of a value that is not taken as null. -/
def Admits (declared : DeclaredType) (v : Json) : Prop :=
  (∀ type, declared.kind = .typed type → v.HasType type) ∧
    (declared.kind = .union → ∃ type ∈ declared.variants, v.HasType type)

/-- A value of a type that a list names is admitted, or it is null and the list names null. -/
theorem ofTypes_admits (member : type ∈ types) (has : v.HasType type) :
    (v = .null ∧ (ofTypes types).nullable) ∨ (ofTypes types).Admits v := by
  by_cases null : type = .null
  · subst null
    refine Or.inl ⟨has.eq_null, ?_⟩
    unfold ofTypes
    dsimp only
    split <;> simpa
  · have kept : type ∈ types.filter (· ≠ .null) := List.mem_filter.mpr ⟨member, by simpa using null⟩
    refine Or.inr ?_
    unfold ofTypes
    dsimp only
    split
    · next none => rw [none] at kept; cases kept
    · next one only =>
      rw [only, List.mem_singleton] at kept
      subst kept
      exact ⟨fun other same => (by cases same; exact has), fun union => (by cases union)⟩
    · exact ⟨fun other typed => (by cases typed), fun _ => ⟨type, kept, has⟩⟩

theorem ofTypes_nullable (member : .null ∈ types) : (ofTypes types).nullable := by
  unfold ofTypes
  dsimp only
  split <;> simpa

theorem typeNamed_ok {name : String} (named : typeNamed name = .ok type) :
    JsonType.ofName? name = some type := by
  unfold typeNamed at named
  split at named
  · next found => cases named; exact found
  · cases named

/-- The types that a list of names stands for. -/
theorem mem_typesNamed {names : List String} {name : String}
    (named : names.mapM typeNamed = .ok types) (member : name ∈ names)
    (found : JsonType.ofName? name = some type) : type ∈ types := by
  induction names generalizing types with
  | nil => cases member
  | cons first rest ih =>
    rw [List.mapM_cons] at named
    cases head : typeNamed first with
    | error fault => rw [head] at named; cases named
    | ok one =>
      cases others : rest.mapM typeNamed with
      | error fault => rw [head] at named; simp [bind, Except.bind, others] at named
      | ok more =>
        rw [head] at named
        simp only [bind, Except.bind, others, pure, Except.pure] at named
        cases named
        rcases List.mem_cons.mp member with rfl | later
        · rw [typeNamed_ok head] at found
          cases found
          exact List.mem_cons_self
        · exact List.mem_cons_of_mem _ (ih others later)

theorem ofKeyword_admits {declared : DeclaredType} {keyword : Json}
    (given : schema.field? "type" = some keyword) (read : ofKeyword (some keyword) = .ok declared)
    (allows : schema.AllowsType v) : (v = .null ∧ declared.nullable) ∨ declared.Admits v := by
  have free : ({} : DeclaredType).Admits v :=
    ⟨fun other typed => (by cases typed), fun union => (by cases union)⟩
  unfold Json.AllowsType at allows
  rw [given] at allows
  cases keyword with
  | string name =>
    obtain ⟨type, found, has⟩ := allows
    simp only [ofKeyword, typeNamed, found] at read
    cases read
    exact Or.inr ⟨fun other same => (by cases same; exact has), fun union => (by cases union)⟩
  | array names =>
    simp only [ofKeyword] at read
    cases named : (names.filterMap Json.string?).mapM typeNamed with
    | error fault => rw [named] at read; cases read
    | ok types =>
      rw [named] at read
      cases read
      by_cases some : ∃ name, .string name ∈ names
      · obtain ⟨name, type, member, found, has⟩ := allows some
        have listed : name ∈ names.filterMap Json.string? :=
          List.mem_filterMap.mpr ⟨_, member, rfl⟩
        exact ofTypes_admits (mem_typesNamed named listed found) has
      · have none : names.filterMap Json.string? = [] := by
          refine List.filterMap_eq_nil_iff.mpr fun entry member => ?_
          cases entry with
          | string name => exact absurd ⟨name, member⟩ some
          | _ => rfl
        rw [none] at named
        cases named
        exact Or.inr free
  | _ => cases read; exact Or.inr free

theorem ofKeyword_nullable {declared : DeclaredType} {names : List Json}
    (read : ofKeyword (some (.array names)) = .ok declared) (member : .string "null" ∈ names) :
    declared.nullable := by
  simp only [ofKeyword] at read
  cases named : (names.filterMap Json.string?).mapM typeNamed with
  | error fault => rw [named] at read; cases read
  | ok types =>
    rw [named] at read
    cases read
    have listed : "null" ∈ names.filterMap Json.string? := List.mem_filterMap.mpr ⟨_, member, rfl⟩
    exact ofTypes_nullable (mem_typesNamed named listed (by decide))

end DeclaredType

/-- The bound of a node is no stricter than the keywords it is read from. -/
theorem Json.Bounded.of_bound {plain exclusive : String} {reaches passes : Binary64 → Prop}
    {limit : Binary64} (bounded : schema.Bounded plain exclusive reaches passes)
    (read : (SchemaNode.bound (schema.field? plain) (schema.field? exclusive)).1 = some limit) :
    if (SchemaNode.bound (schema.field? plain) (schema.field? exclusive)).2 then passes limit
    else reaches limit := by
  obtain ⟨own, replaced⟩ := bounded limit
  unfold SchemaNode.bound at read ⊢
  split at read
  · next flag given =>
    cases flag with
    | true => exact (own read).2 given
    | false => exact (own read).1
  · next n given => exact replaced (by rw [given]; exact read)
  · exact (own read).1

namespace SchemaNode

theorem ofKeywords_declared (made : ofKeywords schema = .ok (node, types)) :
    ∃ declared, DeclaredType.ofKeyword (schema.field? "type") = .ok declared ∧
      types = declared.variants ∧
      node.kind = (if (schema.field? "type").isNone then inferredKind schema node.enumeration
        else declared.kind) ∧
      node.nullable = (declared.nullable || schema.field? "nullable" = some (.bool true)) := by
  unfold ofKeywords at made
  cases declared : DeclaredType.ofKeyword (schema.field? "type") with
  | error fault => rw [declared] at made; cases made
  | ok type =>
    rw [declared] at made
    cases made
    exact ⟨type, rfl, rfl, rfl, rfl⟩

theorem ofKeywords_nullable (made : ofKeywords schema = .ok (node, types))
    (allows : schema.AllowsNull) : node.nullable := by
  obtain ⟨declared, read, -, -, nullable⟩ := ofKeywords_declared made
  rw [nullable]
  rcases allows with flag | ⟨names, listed, member⟩
  · simp [flag]
  · rw [listed] at read
    simp [DeclaredType.ofKeyword_nullable read member]

/-- Without listed values, the kind that the keywords of objects and of arrays tell. -/
theorem inferredKind_admits (absent : schema.field? "type" = none) (allows : schema.AllowsType v) :
    (∀ type, inferredKind schema none = .typed type → v.HasType type) ∧
      inferredKind schema none ≠ .union := by
  unfold Json.AllowsType at allows
  rw [absent] at allows
  unfold inferredKind
  dsimp only at allows
  split
  · next given =>
    rw [if_pos given] at allows
    exact ⟨fun type same => (by cases same; exact Or.inl allows), nofun⟩
  · next given =>
    rw [if_neg given] at allows
    split
    · next listed =>
      exact ⟨fun type same => (by cases same; exact Or.inl (allows listed)), nofun⟩
    · exact ⟨fun type same => (by cases same), nofun⟩

theorem ofKeywords_listed {allowed : List Json} (made : ofKeywords schema = .ok (node, types))
    (meets : schema.MeetsKeywords accepts v) (listed : node.enumeration = some allowed) :
    v ∈ allowed := by
  have same : node.enumeration = enumerationOf schema := by
    unfold ofKeywords at made
    cases declared : DeclaredType.ofKeyword (schema.field? "type") with
    | error fault => rw [declared] at made; cases made
    | ok type => rw [declared] at made; cases made; rfl
  rw [same, enumerationOf, Option.filter_eq_some_iff] at listed
  obtain ⟨found, filled⟩ := listed
  obtain ⟨keyword, given, items⟩ := Option.bind_eq_some_iff.mp found
  cases keyword with
  | array values =>
    cases items
    exact meets.listed allowed given (by simpa using filled)
  | _ => cases items

/-- A value that meets the keywords has the kind that they give, or it is null and the node takes
null. -/
theorem ofKeywords_kind (made : ofKeywords schema = .ok (node, types))
    (allows : schema.AllowsType v) (unlisted : node.enumeration = none) :
    (v = .null ∧ node.nullable) ∨ ((∀ type, node.kind = .typed type → v.HasType type) ∧
      (node.kind = .union → ∃ type ∈ types, v.HasType type)) := by
  obtain ⟨declared, read, same, kind, nullable⟩ := ofKeywords_declared made
  cases given : schema.field? "type" with
  | none =>
    rw [given, Option.isNone_none, if_pos rfl, unlisted] at kind
    obtain ⟨typed, single⟩ := inferredKind_admits given allows
    exact Or.inr ⟨fun type same => typed type (kind ▸ same),
      fun union => absurd (kind ▸ union) single⟩
  | some keyword =>
    rw [given] at read kind
    rw [Option.isNone_some, if_neg Bool.false_ne_true] at kind
    rcases DeclaredType.ofKeyword_admits given read allows with ⟨null, flag⟩ | admits
    · exact Or.inl ⟨null, by simp [nullable, flag]⟩
    · exact Or.inr ⟨fun type same => admits.1 type (kind ▸ same),
        fun union => same ▸ admits.2 (kind ▸ union)⟩

theorem mem_requiredNames {key : String}
    (member : key ∈ ((schema.field? "required" >>= Json.items?).getD []).filterMap Json.string?) :
    ∃ keys, schema.field? "required" = some (.array keys) ∧ .string key ∈ keys := by
  obtain ⟨entry, inside, text⟩ := List.mem_filterMap.mp member
  cases found : schema.field? "required" with
  | none => simp [found] at inside
  | some keyword =>
    cases keyword with
    | array keys =>
      simp only [found, Option.bind_eq_bind, Option.bind_some, Json.items?,
        Option.getD_some] at inside
      cases entry with
      | string name => cases text; exact ⟨keys, rfl, inside⟩
      | _ => cases text
    | _ => simp [found, Json.items?] at inside

/-- A value that meets the keywords meets the fields that they give, its kind apart. -/
theorem ofKeywords_bears (made : ofKeywords schema = .ok (node, types))
    (meets : schema.MeetsKeywords accepts v)
    (kind : ∀ type, node.kind = .typed type → v.HasType type) : node.Bears accepts v := by
  unfold ofKeywords at made
  cases declared : DeclaredType.ofKeyword (schema.field? "type") with
  | error fault => rw [declared] at made; cases made
  | ok type =>
    rw [declared] at made
    cases made
    exact {
      kind
      minimum := fun x low here limit => (meets.minimum x here).of_bound limit
      maximum := fun x high here limit => (meets.maximum x here).of_bound limit
      minLength := meets.minLength
      maxLength := meets.maxLength
      pattern := meets.pattern
      required := fun key member object => by
        obtain ⟨keys, found, inside⟩ := mem_requiredNames (NameSet.mem_ofList.mp member)
        exact meets.required keys key found inside object }

end SchemaNode

namespace Step

variable {kind : SchemaKind} {step : Step}

/-- All the steps of a schema whose keywords are understood. -/
def ofObject (schema : Json) (location : String) (kind : SchemaKind) (types : List JsonType) :
    List Step :=
  ofKeywords schema location kind types ++ ofParts location (schema.field? "allOf") ++
    ofAlternatives location "oneOf" (schema.field? "oneOf") ++
    ofAlternatives location "anyOf" (schema.field? "anyOf")

/-- What in a schema each of its steps comes from. -/
inductive From (schema : Json) : Step → Prop
  | refuse (error : BuildError) : From schema (.refuse error)
  | variant (type : JsonType) : From schema (.child .variant (.fresh (.ofKind (.typed type))))
  | property {fields : List (String × Json)} {key : String} {part : Json} (site : String)
      (given : schema.field? "properties" = some (.object fields)) (member : (key, part) ∈ fields) :
      From schema (.child (.property key) (.walked part site))
  | items {part : Json} (site : String) (given : schema.field? "items" = some part) :
      From schema (.child .items (.walked part site))
  | anything : From schema (.child .items (.fresh {}))
  | part {parts : List Json} (place : String) (child : Child)
      (given : schema.field? "allOf" = some (.array parts)) :
      From schema (.child (.part place) child)
  | settle : From schema .settle
  | alternative (child : Child) : From schema (.child .alternative child)
  | unite {keyword : String} {parts : List Json} (known : keyword ∈ Json.alternativeKeywords)
      (given : schema.field? keyword = some (.array parts)) : From schema .unite

theorem mem_ofObject : step ∈ ofObject schema location kind types ↔
    step ∈ ofKeywords schema location kind types ∨ step ∈ ofParts location (schema.field? "allOf") ∨
      ∃ keyword ∈ Json.alternativeKeywords,
        step ∈ ofAlternatives location keyword (schema.field? keyword) := by
  simp [ofObject, Json.alternativeKeywords]

theorem from_ofKeywords (member : step ∈ ofKeywords schema location kind types) :
    step.From schema := by
  simp only [ofKeywords, List.mem_append, List.mem_map, or_assoc] at member
  rcases member with ⟨type, -, rfl⟩ | ⟨⟨key, part⟩, inside, rfl⟩ | items
  · exact .variant type
  · cases found : schema.field? "properties" with
    | none => simp [found] at inside
    | some properties =>
      cases properties with
      | object fields =>
        simp only [found, Option.bind_eq_bind, Option.bind_some, Json.fields?,
          Option.getD_some] at inside
        exact .property _ found inside
      | _ => simp [found, Json.fields?] at inside
  · split at items
    · rw [List.mem_singleton.mp items]
      cases found : schema.field? "items" with
      | none => exact .anything
      | some part => exact .items _ found
    · cases items

theorem from_ofParts (member : step ∈ ofParts location (schema.field? "allOf")) :
    step.From schema := by
  unfold ofParts at member
  split at member
  · next parts given =>
    rcases List.mem_append.mp member with part | last
    · obtain ⟨_, -, rfl⟩ := List.mem_map.mp part
      exact .part _ _ given
    · rw [List.mem_singleton.mp last]
      exact .settle
  · cases member

theorem from_ofAlternatives {keyword : String} (known : keyword ∈ Json.alternativeKeywords)
    (member : step ∈ ofAlternatives location keyword (schema.field? keyword)) :
    step.From schema := by
  unfold ofAlternatives at member
  split at member
  · rw [List.mem_singleton.mp member]
    exact .refuse _
  · next parts _ given =>
    rcases List.mem_append.mp member with part | last
    · obtain ⟨_, -, rfl⟩ := List.mem_map.mp part
      exact .alternative _
    · rw [List.mem_singleton.mp last]
      exact .unite known given
  · cases member

theorem from_ofObject (member : step ∈ ofObject schema location kind types) : step.From schema := by
  rcases mem_ofObject.mp member with keywords | parts | ⟨keyword, known, alternatives⟩
  · exact from_ofKeywords keywords
  · exact from_ofParts parts
  · exact from_ofAlternatives known alternatives

/-- Each of the schemas of which one is to be met becomes an alternative. -/
theorem alternative_mem {keyword : String} {parts : List Json} {part : Json}
    (known : keyword ∈ Json.alternativeKeywords)
    (given : schema.field? keyword = some (.array parts)) (member : part ∈ parts) :
    ∃ site, .child .alternative (.walked part site) ∈ ofObject schema location kind types := by
  obtain ⟨index, place⟩ := List.mem_iff_getElem?.mp member
  refine ⟨partLocation location keyword index,
    mem_ofObject.mpr (Or.inr (Or.inr ⟨keyword, known, ?_⟩))⟩
  rw [given]
  cases parts with
  | nil => cases member
  | cons first rest =>
    refine List.mem_append_left _ (List.mem_map.mpr ⟨(part, index), ?_, rfl⟩)
    exact List.mem_zipIdx_iff_getElem?.mpr place

theorem variant_mem (member : type ∈ types) :
    .child .variant (.fresh (.ofKind (.typed type))) ∈ ofObject schema location kind types := by
  refine mem_ofObject.mpr (Or.inl ?_)
  simp only [ofKeywords, List.mem_append]
  exact Or.inl (Or.inl (List.mem_map.mpr ⟨type, member, rfl⟩))

end Step

/-- A blueprint is empty for anything but an object, or it refuses the schema, or it starts from
what the keywords give. -/
theorem Json.blueprint_cases (schema : Json) (location : String) :
    schema.blueprint location = ({}, []) ∨
      (∃ error, schema.blueprint location = ({}, [.refuse error])) ∨
      ∃ node types, SchemaNode.ofKeywords schema = .ok (node, types) ∧
        schema.blueprint location = (node, Step.ofObject schema location node.kind types) := by
  unfold Json.blueprint
  split
  · split
    · exact Or.inr (Or.inl ⟨_, rfl⟩)
    · split
      · exact Or.inr (Or.inl ⟨_, rfl⟩)
      · next node types made => exact Or.inr (Or.inr ⟨node, types, made, rfl⟩)
  · exact Or.inl rfl

end HttpPlan
