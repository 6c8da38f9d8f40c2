import HttpPlan.BuildError
import HttpPlan.NameSet

/-! Path templates such as `/widgets/{id}`: literal text and parameter tokens in turn. Parsing
loses nothing, so the text of a template is printed from its parts. -/
namespace HttpPlan

inductive PathPart where
  | literal (text : String)
  | token (name : String)
deriving DecidableEq, Repr

structure PathTemplate where
  parts : List PathPart
deriving DecidableEq, Repr

namespace PathPart

def text : PathPart → String
  | literal text => text
  | token name => "\x7b" ++ name ++ "\x7d"

def token? : PathPart → Option String
  | literal _ => none
  | token name => some name

end PathPart

namespace PathTemplate

def text (t : PathTemplate) : String := String.join (t.parts.map PathPart.text)

/-- The tokens in template order, repeated ones included. -/
def tokens (t : PathTemplate) : List String := t.parts.filterMap PathPart.token?

/-- A literal part, unless there is nothing to hold. -/
def literalPart (cs : List Char) : List PathPart :=
  if cs.isEmpty then [] else [.literal (String.ofList cs)]

mutual
/-- Reads outside braces; `literal` holds what was read since the last token. -/
def parseLiteral (literal : List Char) : List Char → Except TemplateFault (List PathPart)
  | [] => .ok (literalPart literal)
  | c :: rest =>
    if c = '\x7b' then (parseToken [] rest).map (literalPart literal ++ ·)
    else if c = '\x7d' then .error .unmatchedBrace
    else parseLiteral (literal ++ [c]) rest
/-- Reads inside braces; `name` holds what was read since the opening one. -/
def parseToken (name : List Char) : List Char → Except TemplateFault (List PathPart)
  | [] => .error .unclosedBrace
  | c :: rest =>
    if c = '\x7d' then
      if name.isEmpty then .error .emptyToken
      else (parseLiteral [] rest).map (.token (String.ofList name) :: ·)
    else if c = '\x7b' then .error .nestedBrace
    else parseToken (name ++ [c]) rest
end

def parse (raw : String) : Except BuildError PathTemplate :=
  match parseLiteral [] raw.toList with
  | .ok parts => .ok ⟨parts⟩
  | .error fault => .error (.pathParameterMismatch raw fault)

/-- What is wrong with one declared name. -/
def declaredFault? (t : PathTemplate) (name : String) : Option TemplateFault :=
  match t.tokens.count name with
  | 0 => some (.unusedParameter name)
  | 1 => none
  | count => some (.repeatedToken name count)

/-- The first fault, in name order: of the declared names, then of the tokens. -/
def parameterFault? (t : PathTemplate) (declared : List String) : Option TemplateFault :=
  let declared := NameSet.ofList declared
  declared.names.findSome? t.declaredFault? <|>
    ((NameSet.ofList t.tokens).names.find? (fun token => !declared.names.contains token)).map
      .undeclaredToken

/-- Tokens and declared path parameters have to match one to one. -/
def checkParameters (t : PathTemplate) (declared : List String) : Except BuildError Unit :=
  match t.parameterFault? declared with
  | some fault => .error (.pathParameterMismatch t.text fault)
  | none => .ok ()

/-- Replaces the tokens; one without a value leaves nothing. -/
def render (t : PathTemplate) (valueOf : String → Option String) : String :=
  String.join <| t.parts.map fun
    | .literal text => text
    | .token name => (valueOf name).getD ""

end PathTemplate

end HttpPlan
