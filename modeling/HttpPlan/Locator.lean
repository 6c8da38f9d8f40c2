import HttpPlan.Json

/-! Paths into a JSON value: object keys and array indexes, from the root down. -/
namespace HttpPlan

inductive LocatorSegment where
  | key (name : String)
  | index (position : Nat)
deriving DecidableEq, Repr

structure Locator where
  segments : List LocatorSegment
deriving DecidableEq, Repr

namespace LocatorSegment

def text : LocatorSegment → String
  | key name => "." ++ name
  | index position => "[" ++ toString position ++ "]"

def toJson : LocatorSegment → Json
  | key name => .string name
  | index position => .number (.int position)

def ofJson? : Json → Option LocatorSegment
  | .string name => some (key name)
  | v => v.word?.map index

def step (v : Json) : LocatorSegment → Option Json
  | key name => v.field? name
  | index position => v.item? position

end LocatorSegment

namespace Locator

def root : Locator := ⟨[]⟩

def isRoot (l : Locator) : Bool := l.segments.isEmpty

@[simp] theorem isRoot_iff {l : Locator} : l.isRoot ↔ l = root := by
  rcases l with ⟨_ | ⟨_, _⟩⟩ <;> simp [isRoot, root]

def key (l : Locator) (name : String) : Locator := ⟨l.segments ++ [.key name]⟩

def index (l : Locator) (position : Nat) : Locator := ⟨l.segments ++ [.index position]⟩

def text (l : Locator) : String := "$" ++ String.join (l.segments.map LocatorSegment.text)

/-- The value that the locator leads to. -/
def resolve? (l : Locator) (v : Json) : Option Json := l.segments.foldlM LocatorSegment.step v

def toJson (l : Locator) : Json := .array (l.segments.map LocatorSegment.toJson)

def ofJson? (v : Json) : Option Locator := do
  return ⟨← (← v.items?).mapM LocatorSegment.ofJson?⟩

end Locator

end HttpPlan
