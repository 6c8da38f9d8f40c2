import HttpPlan.Config
import HttpPlan.Spec.Document
import HttpPlan.Text

/-! Where the credential of an operation travels. Nothing else is ever sent there. -/
namespace HttpPlan

inductive CredentialSlot where
  | header (name lead : String)
  | query (name : String)
  | cookie (name : String)
deriving DecidableEq, Repr

/-- The parts of a request that carry named text. -/
structure Carriage where
  query : OrderedMap String String := ∅
  headers : OrderedMap String String := ∅
deriving DecidableEq

namespace CredentialSlot

def ofScheme : Option SecurityScheme → CredentialSlot
  | some .basic => header "Authorization" "Basic "
  | some (.apiKey .header name) => header name ""
  | some (.apiKey .query name) => query name
  | some (.apiKey .cookie name) => cookie name
  | _ => header "Authorization" "Bearer "

/-- The slot of a secured operation: that of its first declared scheme. -/
def ofOperation? (schemes : OrderedMap String SecurityScheme) (op : Operation) :
    Option CredentialSlot :=
  if op.security.isEmpty then none else some (ofScheme (op.security.findSome? schemes.get?))

/-- Whether a documented parameter stands in the slot. -/
def occupiedBy (slot : CredentialSlot) (p : Parameter) : Bool :=
  match slot, p.location with
  | header name _, .header => Text.sameIgnoringCase name p.name
  | query name, .query => name = p.name
  | _, _ => false

/-- Drops whatever stands in the slot. -/
def clear (slot : CredentialSlot) (c : Carriage) : Carriage :=
  match slot with
  | header name _ => { c with headers := c.headers.filterKeys (!Text.sameIgnoringCase · name) }
  | query name => { c with query := c.query.erase name }
  | cookie _ => { c with headers := c.headers.filterKeys (!Text.sameIgnoringCase · "Cookie") }

def fill (slot : CredentialSlot) (token : String) (c : Carriage) : Carriage :=
  match slot with
  | header name lead => { c with headers := c.headers.insert name (lead ++ token) }
  | query name => { c with query := c.query.insert name token }
  | cookie name => { c with headers := c.headers.insert "Cookie" (name ++ "=" ++ token) }

end CredentialSlot

end HttpPlan
