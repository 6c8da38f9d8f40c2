import HttpPlan.Proofs.Placeholder.Visit

/-! Values are made in finitely many steps, whatever cycles the schemas have. The run is told as a
relation with a stack that each call finds, pushes its node on and pops, and with no bound on the
steps. No node is on the stack twice, so calls are never nested deeper than the arena has nodes and
one more, and each call leaves the stack as it found it. -/
namespace HttpPlan.Synthesizer

variable {arena : SchemaArena} {id root : SchemaId} {name : String} {r : Random} {s : Synthesizer}
  {inside : List SchemaId} {fuel depth : Nat}

/-- What changes while values are made. -/
structure Progress where
  /-- The nodes whose values are at work, innermost first. -/
  stack : List SchemaId
  random : Random
  state : Synthesizer

/-- One call for a value: the stack that it finds, the one that it works under and the one that it
leaves behind. -/
structure Call where
  /-- The number of calls that are at work, this one included. -/
  depth : Nat
  entered : List SchemaId
  held : List SchemaId
  left : List SchemaId

/-- The calls that the value of a node takes, in their order: for its item, for each required
property, for its first variant other than null. -/
def parts (arena : SchemaArena) (id : SchemaId) (name : String) : List (SchemaId × String) :=
  let node := arena.node id
  match node.kind with
  | .typed .array => node.items.toList.map (·, name ++ "[0]")
  | .typed .object =>
    (node.properties.entries.filter (·.1 ∈ node.required)).map fun e => (e.2, name ++ "." ++ e.1)
  | .union => (arena.concrete? id).toList.map (·, name)
  | _ => []

/-- The value of a node from those of its parts. -/
def assemble (node : SchemaNode) (name : String) (made : List Json × Random × Synthesizer) :
    Json × Random × Synthesizer :=
  let (values, r, s) := made
  match node.kind with
  | .typed .string =>
    let (text, r, s) := text node name r s
    (.string text, r, s)
  | .typed .integer =>
    let (n, s) := integer node name s
    (.number (.int n), r, s)
  | .typed .number =>
    let (n, s) := number node name s
    (.number (match n with | some x => .float x | none => .int 0), r, s)
  | .typed .boolean => (.bool true, r, s)
  | .typed .null => (.null, r, s)
  | .typed .array => (.array values, r, s)
  | .typed .object =>
    let required := node.properties.entries.filter (·.1 ∈ node.required)
    (.object ((required.map Prod.fst).zip values), r, s)
  | .union => (values.headD .null, r, s)
  | .unknown =>
    let (phrase, r) := Phrase.draw preferredLength r
    (.string phrase, r, s)

/-- Values for a list of calls, one after the other, with all calls that were made on the way. -/
inductive Produces (arena : SchemaArena) :
    Nat → List (SchemaId × String) → Progress → List Json → Progress → List Call → Prop
  | done {depth : Nat} {p : Progress} : Produces arena depth [] p [] p []
  | cut {depth : Nat} {id : SchemaId} {name : String} {rest : List (SchemaId × String)}
      {p q : Progress} {values : List Json} {calls : List Call} (again : id ∈ p.stack)
      (behind : Produces arena depth rest p values q calls) :
      Produces arena depth ((id, name) :: rest) p (cut (arena.node id) :: values) q
        (⟨depth, p.stack, p.stack, p.stack⟩ :: calls)
  | documented {depth : Nat} {id : SchemaId} {name : String} {rest : List (SchemaId × String)}
      {p q : Progress} {value : Json} {values : List Json} {calls : List Call}
      (fresh : id ∉ p.stack) (given : documented? (arena.node id) = some value)
      (behind : Produces arena depth rest p values q calls) :
      Produces arena depth ((id, name) :: rest) p (value :: values) q
        (⟨depth, p.stack, p.stack, p.stack⟩ :: calls)
  | made {depth : Nat} {id : SchemaId} {name : String} {rest : List (SchemaId × String)}
      {p q e : Progress} {made values : List Json} {value : Json} {r : Random} {s : Synthesizer}
      {inner calls : List Call} (fresh : id ∉ p.stack)
      (undocumented : documented? (arena.node id) = none)
      (within : Produces arena (depth + 1) (parts arena id name) { p with stack := id :: p.stack }
        made q inner)
      (whole : assemble (arena.node id) name (made, q.random, q.state) = (value, r, s))
      (behind : Produces arena depth rest ⟨q.stack.tail, r, s⟩ values e calls) :
      Produces arena depth ((id, name) :: rest) p (value :: values) e
        (⟨depth, p.stack, id :: p.stack, q.stack.tail⟩ :: inner ++ calls)

/-- The values that a list of calls gives, when each call is answered by a function. -/
def answers (part : SchemaId → String → Random → Synthesizer → Json × Random × Synthesizer) :
    List (SchemaId × String) → Random → Synthesizer → List Json × Random × Synthesizer
  | [], r, s => ([], r, s)
  | (id, name) :: rest, r, s =>
    let (v, r, s) := part id name r s
    let (values, r, s) := answers part rest r s
    (v :: values, r, s)

section answers

variable {part : SchemaId → String → Random → Synthesizer → Json × Random × Synthesizer}

/-- Fields are the answers to the calls for them, under their keys. -/
theorem fields_eq_answers {entries : List (String × SchemaId)} {fields : List (String × Json)} :
    entries.foldl (addField part name) (fields, r, s) =
      let made := answers part (entries.map fun e => (e.2, name ++ "." ++ e.1)) r s
      (fields ++ (entries.map Prod.fst).zip made.1, made.2) := by
  induction entries generalizing fields r s with
  | nil => simp [answers]
  | cons entry rest ih =>
    rw [List.foldl_cons, addField, ih]
    simp [answers]

theorem value_made (fresh : id ∉ inside) (undocumented : documented? (arena.node id) = none) :
    value arena (fuel + 1) inside id name r s = assemble (arena.node id) name
      (answers (value arena fuel (id :: inside)) (parts arena id name) r s) := by
  rw [value, if_neg fresh]
  simp only [undocumented, assemble, parts]
  cases (arena.node id).kind with
  | unknown => rfl
  | union =>
    simp only [SchemaArena.concrete?]
    cases (arena.node id).variants.find? fun v => (arena.node v).kind ≠ .typed .null <;> rfl
  | typed type =>
    cases type with
    | array => cases (arena.node id).items <;> rfl
    | object =>
      exact congrArg (fun made : List (String × Json) × Random × Synthesizer =>
        (Json.object made.1, made.2.1, made.2.2)) fields_eq_answers
    | _ => rfl

end answers

variable {calls list : List (SchemaId × String)} {p q e : Progress} {values others : List Json}
  {log more : List Call}

theorem Produces.stack (produces : Produces arena depth list p values q log) :
    q.stack = p.stack := by
  induction produces with
  | done => rfl
  | cut _ _ behind => exact behind
  | documented _ _ _ behind => exact behind
  | made _ _ _ _ _ inner behind => rw [behind, inner, List.tail_cons]

/-- Where a run leads is decided by where it starts. -/
theorem Produces.unique (produces : Produces arena depth list p values q log)
    (twin : Produces arena depth list p others e more) : values = others ∧ q = e ∧ log = more := by
  induction produces generalizing others e more with
  | done => cases twin; exact ⟨rfl, rfl, rfl⟩
  | cut again _ ih =>
    cases twin with
    | cut _ behind =>
      obtain ⟨rfl, rfl, rfl⟩ := ih behind
      exact ⟨rfl, rfl, rfl⟩
    | documented fresh => exact absurd again fresh
    | made fresh => exact absurd again fresh
  | documented fresh given _ ih =>
    cases twin with
    | cut again => exact absurd again fresh
    | documented _ given' behind =>
      cases given.symm.trans given'
      obtain ⟨rfl, rfl, rfl⟩ := ih behind
      exact ⟨rfl, rfl, rfl⟩
    | made _ undocumented => cases given.symm.trans undocumented
  | made fresh undocumented _ whole _ inner ih =>
    cases twin with
    | cut again => exact absurd again fresh
    | documented _ given => cases given.symm.trans undocumented
    | made _ _ within whole' behind =>
      obtain ⟨rfl, rfl, rfl⟩ := inner within
      cases whole.symm.trans whole'
      obtain ⟨rfl, rfl, rfl⟩ := ih behind
      exact ⟨rfl, rfl, rfl⟩

/-- A call that finds and holds distinct nodes only and leaves the stack as it found it. -/
structure Call.Orderly (arena : SchemaArena) (call : Call) : Prop where
  distinct : call.held.Nodup
  entered : call.entered <:+ call.held
  restored : call.left = call.entered
  nested : call.depth = call.entered.length + 1
  shallow : call.depth ≤ arena.size + 1

theorem Call.orderly_brief (stack : Stack arena inside) (nested : depth = inside.length + 1) :
    Call.Orderly arena ⟨depth, inside, inside, inside⟩ where
  distinct := stack.distinct
  entered := List.suffix_rfl
  restored := rfl
  nested := nested
  shallow := nested ▸ Nat.succ_le_succ stack.length_le

theorem parts_lt (closed : arena.Closed) :
    ∀ call ∈ parts arena id name, call.1 < arena.size := by
  intro call member
  refine closed.below_node id call.1 (SchemaNode.mem_children.mpr ?_)
  unfold parts at member
  dsimp only at member
  split at member
  · obtain ⟨item, given, rfl⟩ := List.mem_map.mp member
    exact Or.inr (Or.inl (Option.mem_toList.mp given))
  · obtain ⟨entry, required, rfl⟩ := List.mem_map.mp member
    exact Or.inl (List.mem_map_of_mem (List.mem_of_mem_filter required))
  · obtain ⟨variant, first, rfl⟩ := List.mem_map.mp member
    exact Or.inr (Or.inr (List.mem_of_find?_eq_some (Option.mem_toList.mp first)))
  · cases member

theorem Produces.orderly (closed : arena.Closed)
    (produces : Produces arena depth list p values q log) (stack : Stack arena p.stack)
    (nested : depth = p.stack.length + 1) (bound : ∀ call ∈ list, call.1 < arena.size) :
    ∀ call ∈ log, call.Orderly arena := by
  induction produces with
  | done => exact nofun
  | cut _ _ behind =>
    obtain ⟨-, bound⟩ := List.forall_mem_cons.mp bound
    exact List.forall_mem_cons.mpr ⟨Call.orderly_brief stack nested, behind stack nested bound⟩
  | documented _ _ _ behind =>
    obtain ⟨-, bound⟩ := List.forall_mem_cons.mp bound
    exact List.forall_mem_cons.mpr ⟨Call.orderly_brief stack nested, behind stack nested bound⟩
  | @made depth id name rest p q e made values value r s inner calls fresh undocumented within _ _
      inside behind =>
    obtain ⟨here, bound⟩ := List.forall_mem_cons.mp bound
    have pushed : Stack arena (id :: p.stack) := stack.push fresh here
    have restored : q.stack.tail = p.stack := by rw [within.stack, List.tail_cons]
    have shallow : depth ≤ arena.size + 1 := nested ▸ Nat.succ_le_succ stack.length_le
    refine List.forall_mem_cons.mpr
      ⟨⟨pushed.distinct, List.suffix_cons _ _, restored, nested, shallow⟩,
        List.forall_mem_append.mpr ⟨?_, ?_⟩⟩
    · exact inside pushed (congrArg (· + 1) nested) (parts_lt closed)
    · exact behind (restored ▸ stack) (restored ▸ nested) bound

/-- With fuel for every node off the stack, the answers of `value` are those of a run. -/
theorem exists_produces (fuel depth : Nat) (r : Random) (s : Synthesizer) (closed : arena.Closed)
    (stack : Stack arena inside)
    (room : arena.size < fuel + inside.length) (bound : ∀ call ∈ list, call.1 < arena.size) :
    ∃ log, Produces arena depth list ⟨inside, r, s⟩ (answers (value arena fuel inside) list r s).1
      ⟨inside, (answers (value arena fuel inside) list r s).2.1,
        (answers (value arena fuel inside) list r s).2.2⟩ log := by
  induction fuel generalizing depth list inside r s with
  | zero =>
    have few := stack.length_le
    omega
  | succ fuel ih =>
    induction list generalizing r s with
    | nil => exact ⟨[], .done⟩
    | cons call rest behind =>
      obtain ⟨id, name⟩ := call
      obtain ⟨here, bound⟩ := List.forall_mem_cons.mp bound
      rw [answers]
      by_cases again : id ∈ inside
      · rw [value_of_mem again]
        obtain ⟨log, onward⟩ := behind r s bound
        exact ⟨_, .cut again onward⟩
      cases given : documented? (arena.node id) with
      | some v =>
        have first : value arena (fuel + 1) inside id name r s = (v, r, s) := by
          simp only [value, if_neg again, given]
        rw [first]
        obtain ⟨log, onward⟩ := behind r s bound
        exact ⟨_, .documented again given onward⟩
      | none =>
        have pushed : Stack arena (id :: inside) := stack.push again here
        obtain ⟨inner, within⟩ := ih (depth + 1) r s pushed
          (by rw [List.length_cons]; omega) (parts_lt closed)
        rw [value_made again given]
        obtain ⟨log, onward⟩ := behind _ _ bound
        exact ⟨_, .made again given within rfl onward⟩

/-- Making a value comes to an end on every arena, cycles or not. Its calls hold distinct nodes, are
nested no deeper than the arena has nodes and one more, and leave the stack as they found it. -/
theorem synthesize_terminates (closed : arena.Closed) (bound : root < arena.size) (name : String)
    (s : Synthesizer) : ∃ random calls,
      (∀ values after log,
        Produces arena 1 [(root, name)] ⟨[], .ofSeed (seed name), s⟩ values after log ↔
          values = [(s.synthesize arena root name).1] ∧
          after = ⟨[], random, (s.synthesize arena root name).2⟩ ∧ log = calls) ∧
      ∀ call ∈ calls, call.Orderly arena := by
  have stack : Stack arena [] := ⟨.nil, nofun⟩
  have listed : ∀ call ∈ [(root, name)], call.1 < arena.size := List.forall_mem_singleton.mpr bound
  obtain ⟨log, produces⟩ := exists_produces (arena.size + 1) 1 (.ofSeed (seed name)) s closed stack
    (Nat.lt_succ_self _) listed
  refine ⟨_, log, fun values after other => ⟨fun twin => twin.unique produces, ?_⟩,
    produces.orderly closed stack rfl listed⟩
  rintro ⟨rfl, rfl, rfl⟩
  exact produces

/-- An object that comes back to itself through a property, an item and a variant. -/
def knotted : SchemaArena :=
  ⟨[{ kind := .typed .object, properties := .ofList [("self", 0), ("list", 1), ("choice", 2)],
      required := .ofList ["self", "list", "choice"] },
    { kind := .typed .array, items := some 0 },
    { kind := .union, variants := [3, 1] },
    { kind := .typed .null }]⟩

theorem synthesize_terminates_knotted : knotted.Closed ∧ 0 < knotted.size ∧ ∃ random calls,
    Produces knotted 1 [(0, "body")] ⟨[], .ofSeed (seed "body"), {}⟩
      [.object [("self", .object []), ("list", .array [.object []]),
        ("choice", .array [.object []])]] ⟨[], random, {}⟩ calls ∧
      ∀ call ∈ calls, call.Orderly knotted := by
  have closed : knotted.Closed := by
    unfold SchemaArena.Closed SchemaNode.Below
    decide
  have filled : 0 < knotted.size := by decide
  obtain ⟨random, calls, ends, orderly⟩ := synthesize_terminates closed filled "body" {}
  exact ⟨closed, filled, random, calls, (ends _ _ _).mpr ⟨rfl, rfl, rfl⟩, orderly⟩

end HttpPlan.Synthesizer
