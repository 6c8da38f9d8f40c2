import HttpPlan.Yaml.Node

/-! From tokens to the one document of a text. A node may be left out after a dash, a key or a
colon. -/
namespace HttpPlan.Yaml

/-- What tag handles stand for. -/
abbrev Handles := List (String × String)

namespace Handles

def standard : Handles := [("!", "!"), ("!!", "tag:yaml.org,2002:")]

/-- The full form of a tag. A tag without a handle is one already. -/
def expand? (handles : Handles) (handle suffix : String) : Option String :=
  if handle.isEmpty then some suffix
  else (handles.lookup handle).map (· ++ suffix)

end Handles

namespace Grammar

/-- Where a node stands. As a key or value of a block mapping, a sequence need not be indented. -/
inductive Place where
  | flow
  | block
  | field
deriving DecidableEq

/-- Reads an anchor and a tag, in either order. -/
def properties? (handles : Handles) : List Token → Option (Properties String × List Token)
  | .anchor name :: .tag handle suffix :: rest | .tag handle suffix :: .anchor name :: rest => do
    return (⟨some name, some (← handles.expand? handle suffix)⟩, rest)
  | .anchor name :: rest => some (⟨some name, none⟩, rest)
  | .tag handle suffix :: rest => do
    return (⟨none, some (← handles.expand? handle suffix)⟩, rest)
  | tokens => some ({}, tokens)

/-- A scalar. The lone exclamation mark as its tag has no effect. -/
def scalar (p : Properties String) (plain : Bool) (text : String) : Node String :=
  .scalar { p with tag := p.tag.filter (· ≠ "!") } plain text

/-- Whether a node is left out before this token. -/
def isOmitted (stops : List Token) (tokens : List Token) : Bool :=
  tokens.head?.any stops.contains

mutual
def node? (handles : Handles) : Nat → Place → List Token → Option (Node String × List Token)
  | 0, _, _ => none
  | _ + 1, _, .aliasOf name :: rest => some (.aliasOf name, rest)
  | fuel + 1, place, tokens => do
    let (p, rest) ← properties? handles tokens
    match rest with
    | .scalar plain text :: rest => return (scalar p plain text, rest)
    | .flowSequence :: rest =>
      (flowItems? handles fuel true rest).map fun (vs, rest) => (.sequence p vs, rest)
    | .flowMapping :: rest =>
      (flowFields? handles fuel true rest).map fun (fs, rest) => (.mapping p fs, rest)
    | .entry :: _ =>
      if place = .field then
        (blockItems? handles fuel true rest).map fun (vs, rest) => (.sequence p vs, rest)
      else bare? p rest
    | .blockSequence :: more =>
      if place = .flow then bare? p rest
      else (blockItems? handles fuel false more).map fun (vs, rest) => (.sequence p vs, rest)
    | .blockMapping :: more =>
      if place = .flow then bare? p rest
      else (blockFields? handles fuel more).map fun (fs, rest) => (.mapping p fs, rest)
    | rest => bare? p rest
where
  /-- Properties without content make a node; nothing at all does not. -/
  bare? (p : Properties String) (rest : List Token) : Option (Node String × List Token) :=
    if p.anchor.isSome || p.tag.isSome then some (.scalar p true "", rest) else none
/-- A node, unless one of the tokens that omit it follows. -/
def optionalNode? (handles : Handles) : Nat → Place → List Token → List Token →
    Option (Node String × List Token)
  | 0, _, _, _ => none
  | fuel + 1, place, stops, tokens =>
    if isOmitted stops tokens then some (.absent, tokens) else node? handles fuel place tokens
/-- A value behind its colon; without the colon there is none. -/
def fieldValue? (handles : Handles) : Nat → Place → List Token → List Token →
    Option (Node String × List Token)
  | 0, _, _, _ => none
  | fuel + 1, place, stops, .value :: rest => optionalNode? handles fuel place stops rest
  | _ + 1, _, _, tokens => some (.absent, tokens)
/-- The entries of a block sequence. One that is not indented ends where the entries do. -/
def blockItems? (handles : Handles) : Nat → Bool → List Token →
    Option (List (Node String) × List Token)
  | 0, _, _ => none
  | fuel + 1, unindented, .entry :: rest => do
    let stops := [.entry, .blockEnd] ++ if unindented then [.key, .value] else []
    let (v, rest) ← optionalNode? handles fuel .block stops rest
    let (vs, rest) ← blockItems? handles fuel unindented rest
    return (v :: vs, rest)
  | _ + 1, true, tokens => some ([], tokens)
  | _ + 1, false, .blockEnd :: rest => some ([], rest)
  | _ + 1, false, _ => none
def blockFields? (handles : Handles) : Nat → List Token →
    Option (List (Node String × Node String) × List Token)
  | 0, _ => none
  | fuel + 1, .key :: rest => do
    let stops := [.key, .value, .blockEnd]
    let (k, rest) ← optionalNode? handles fuel .field stops rest
    let (v, rest) ← fieldValue? handles fuel .field stops rest
    let (fs, rest) ← blockFields? handles fuel rest
    return ((k, v) :: fs, rest)
  | _ + 1, .blockEnd :: rest => some ([], rest)
  | _ + 1, _ => none
/-- The entries of a flow sequence. `first` says that none stands before, so that no comma is
needed. An entry with a key is a mapping of that one field. -/
def flowItems? (handles : Handles) : Nat → Bool → List Token →
    Option (List (Node String) × List Token)
  | 0, _, _ => none
  | _ + 1, _, .flowSequenceEnd :: rest => some ([], rest)
  | _ + 1, false, .comma :: .flowSequenceEnd :: rest => some ([], rest)
  | fuel + 1, false, .comma :: rest => do
    let (v, rest) ← flowItem? handles fuel rest
    let (vs, rest) ← flowItems? handles fuel false rest
    return (v :: vs, rest)
  | fuel + 1, true, tokens => do
    let (v, rest) ← flowItem? handles fuel tokens
    let (vs, rest) ← flowItems? handles fuel false rest
    return (v :: vs, rest)
  | _ + 1, false, _ => none
def flowItem? (handles : Handles) : Nat → List Token → Option (Node String × List Token)
  | 0, _ => none
  | fuel + 1, .key :: rest => do
    let stops := [.comma, .flowSequenceEnd]
    let (k, rest) ←
      if isOmitted (.value :: stops) rest then some (.absent, rest.tail)
      else node? handles fuel .flow rest
    let (v, rest) ← fieldValue? handles fuel .flow stops rest
    return (.mapping {} [(k, v)], rest)
  | fuel + 1, tokens => node? handles fuel .flow tokens
def flowFields? (handles : Handles) : Nat → Bool → List Token →
    Option (List (Node String × Node String) × List Token)
  | 0, _, _ => none
  | _ + 1, _, .flowMappingEnd :: rest => some ([], rest)
  | _ + 1, false, .comma :: .flowMappingEnd :: rest => some ([], rest)
  | fuel + 1, false, .comma :: rest => do
    let (f, rest) ← flowField? handles fuel rest
    let (fs, rest) ← flowFields? handles fuel false rest
    return (f :: fs, rest)
  | fuel + 1, true, tokens => do
    let (f, rest) ← flowField? handles fuel tokens
    let (fs, rest) ← flowFields? handles fuel false rest
    return (f :: fs, rest)
  | _ + 1, false, _ => none
/-- A field of a flow mapping. A node that is not marked as a key is one without a value. -/
def flowField? (handles : Handles) : Nat → List Token →
    Option ((Node String × Node String) × List Token)
  | 0, _ => none
  | fuel + 1, .key :: rest => do
    let stops := [.comma, .flowMappingEnd]
    let (k, rest) ← optionalNode? handles fuel .flow (.value :: stops) rest
    let (v, rest) ← fieldValue? handles fuel .flow stops rest
    return ((k, v), rest)
  | fuel + 1, tokens => do
    let (k, rest) ← node? handles fuel .flow tokens
    return ((k, .absent), rest)
end

/-- Reads the directives before a document. There is one version at most, and a handle is declared
once. -/
def directives? (versioned : Bool) (handles : Handles) : List Token → Option (Handles × List Token)
  | .version major minor :: rest =>
    if !versioned && major = 1 && (minor = 1 || minor = 2) then directives? true handles rest
    else none
  | .tagHandle handle expansion :: rest =>
    if (handles.lookup handle).isSome then none
    else directives? versioned ((handle, expansion) :: handles) rest
  | tokens => some (handles, tokens)

def isDocumentBoundary : Token → Bool
  | .version .. | .tagHandle .. | .documentStart | .documentEnd => true
  | _ => false

/-- The root node, given the handles declared before it. -/
def root? (handles : Handles) (tokens : List Token) : Option (Node String × List Token) :=
  node? (handles ++ Handles.standard) (4 * tokens.length + 4) .block tokens

def document? (tokens : List Token) : Option (Node String × List Token) := do
  match ← directives? false [] tokens with
  | (handles, .documentStart :: rest) =>
    if rest.head?.all isDocumentBoundary then return (.absent, rest) else root? handles rest
  | (handles, rest) =>
    if rest.length < tokens.length then none
    else if rest.isEmpty then return (.absent, rest)
    else root? handles rest

end Grammar

/-- The root node of the only document. Nothing but document ends follows it. -/
def Node.ofTokens? (tokens : List Token) : Option (Node String) := do
  let (root, rest) ← Grammar.document? tokens
  if rest.all (· = .documentEnd) then some root else none

end HttpPlan.Yaml
