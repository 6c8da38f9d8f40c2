/-! Why an operation, or a whole document, cannot be modelled. Errors carry causes; `message`
holds all wording. -/
namespace HttpPlan

/-- A path template and its parameters that do not fit. -/
inductive TemplateFault where
  | nestedBrace
  | unclosedBrace
  | emptyToken
  | unmatchedBrace
  /-- A declared path parameter without a token. -/
  | unusedParameter (name : String)
  | repeatedToken (name : String) (count : Nat)
  | undeclaredToken (name : String)
deriving DecidableEq, Repr

/-- A construct of a schema or reference that has no model. -/
inductive Construct where
  | externalReference
  | circularAlias
  | negation
  | typeName (name : String)
  | emptyAlternatives (keyword : String)
  | selfReferentialPart
  | objectAndOtherParts
  | incompatibleParts
  | nesting
deriving DecidableEq, Repr

inductive BuildError where
  | danglingReference (pointer : String)
  | pathParameterMismatch (template : String) (fault : TemplateFault)
  | unsupportedConstruct (location : String) (construct : Construct)
  | rootNotObject
deriving DecidableEq, Repr

namespace TemplateFault

def message : TemplateFault → String
  | nestedBrace => "nested '\x7b'"
  | unclosedBrace => "unclosed '\x7b'"
  | emptyToken => "empty parameter token"
  | unmatchedBrace => "unmatched '\x7d'"
  | unusedParameter name => "parameter '" ++ name ++ "' has no \x7b" ++ name ++ "\x7d token"
  | repeatedToken name count =>
    "token \x7b" ++ name ++ "\x7d appears " ++ toString count ++ " times"
  | undeclaredToken name => "token \x7b" ++ name ++ "\x7d has no declared path parameter"

end TemplateFault

namespace Construct

def message : Construct → String
  | externalReference => "external reference"
  | circularAlias => "circular $ref alias"
  | negation => "not"
  | typeName name => "type '" ++ name ++ "'"
  | emptyAlternatives keyword => "empty " ++ keyword
  | selfReferentialPart => "allOf through a self-referential definition"
  | objectAndOtherParts => "allOf mixing object and non-object parts"
  | incompatibleParts => "allOf mixing incompatible types"
  | nesting => "nesting too deep"

end Construct

namespace BuildError

def message : BuildError → String
  | danglingReference pointer => "dangling reference: " ++ pointer
  | pathParameterMismatch template fault =>
    "path parameter mismatch in " ++ template ++ ": " ++ fault.message
  | unsupportedConstruct location construct =>
    "unsupported schema construct at " ++ location ++ ": " ++ construct.message
  | rootNotObject => "invalid document: document root is not a mapping"

end BuildError

end HttpPlan
