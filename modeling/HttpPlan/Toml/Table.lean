/-! TOML values, and tables in the making. A document defines its tables in pieces; how a table
came about decides what may still be added to it. -/
namespace HttpPlan

inductive Toml where
  | string (s : String)
  | integer (n : Int)
  /-- A float as it is written. -/
  | float (literal : String)
  | boolean (b : Bool)
  | datetime (text : String)
  | array (items : List Toml)
  | table (entries : List (String × Toml))

namespace Toml

/-- How a table came about. -/
inductive Origin where
  /-- By a header of its own. -/
  | header
  /-- As a part of the path in a header. -/
  | path
  /-- By a dotted key. -/
  | dotted
deriving DecidableEq

inductive Entry where
  | value (v : Toml)
  | table (origin : Origin) (entries : List (String × Entry))
  /-- The tables that headers in double brackets define. -/
  | tables (elements : List (List (String × Entry)))

/-- The entries of a table in the making. -/
abbrev Table := List (String × Entry)

namespace Table

/-- Replaces the entry of a key, or adds one. -/
def put (key : String) (entry : Entry) : Table → Table
  | [] => [(key, entry)]
  | (k, old) :: rest => if k = key then (k, entry) :: rest else (k, old) :: put key entry rest

/-- Changes the table at the end of a path. Tables that are missing on the way come about as
`made` says, and a dotted key leads through no table with a header of its own. Of several tables
under one name the last is taken. -/
def change? (made : Origin) (f : Origin → Table → Option Table) :
    List String → Origin → Table → Option Table
  | [], origin, t => f origin t
  | key :: path, _, t =>
    match t.lookup key with
    | none => do return put key (.table made (← change? made f path made [])) t
    | some (.value _) => none
    | some (.table origin inner) => do
      if made = .dotted && origin = .header then none
      else return put key (.table origin (← change? made f path origin inner)) t
    | some (.tables elements) => do
      let last ← elements.getLast?
      return put key (.tables (elements.dropLast ++ [← change? made f path .header last])) t

/-- Defines a key of a table that is not defined yet. -/
def define? (key : String) (entry : Entry) (t : Table) : Option Table :=
  if (t.lookup key).isSome then none else some (put key entry t)

/-- Defines a dotted key. The table that it ends in must come about by dotted keys. -/
def assign? (path : List String) (key : String) (v : Toml) (t : Table) : Option Table :=
  let define (origin : Origin) (inner : Table) :=
    if !path.isEmpty && origin ≠ .dotted then none else define? key (.value v) inner
  change? .dotted define path .header t

/-- Begins the table of a header. It may have been on the path of others before. -/
def open? (path : List String) (key : String) (t : Table) : Option Table :=
  let start (_ : Origin) (parent : Table) : Option Table :=
    match parent.lookup key with
    | none => some (put key (.table .header []) parent)
    | some (.table .path inner) => some (put key (.table .header inner) parent)
    | some _ => none
  change? .path start path .header t

/-- Begins one more table under the name of a header in double brackets. -/
def append? (path : List String) (key : String) (t : Table) : Option Table :=
  let start (_ : Origin) (parent : Table) : Option Table :=
    match parent.lookup key with
    | none => some (put key (.tables [[]]) parent)
    | some (.tables elements) => some (put key (.tables (elements ++ [[]])) parent)
    | some _ => none
  change? .path start path .header t

end Table

mutual
def Entry.toToml : Entry → Toml
  | .value v => v
  | .table _ entries => .table (entriesToToml entries)
  | .tables elements => .array (elementsToToml elements)
def entriesToToml : List (String × Entry) → List (String × Toml)
  | [] => []
  | (key, entry) :: rest => (key, entry.toToml) :: entriesToToml rest
def elementsToToml : List (List (String × Entry)) → List Toml
  | [] => []
  | entries :: rest => .table (entriesToToml entries) :: elementsToToml rest
end

end Toml

end HttpPlan
