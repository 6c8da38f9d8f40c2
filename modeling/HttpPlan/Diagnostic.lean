import HttpPlan.Json

/-! Problems met on the way to a plan. None of them stops the work; the gravest decides the exit
code. -/
namespace HttpPlan

inductive Severity where
  | info
  | warning
  | error
deriving DecidableEq, Repr

namespace Severity

def name : Severity → String
  | info => "info"
  | warning => "warning"
  | error => "error"

def ofName? (s : String) : Option Severity := [info, warning, error].find? (·.name = s)

def rank : Severity → Nat
  | info => 0
  | warning => 1
  | error => 2

/-- In a strict run a warning fails as an error does. -/
def exitCode (strict : Bool) : Severity → Nat
  | info => 0
  | warning => if strict then 1 else 0
  | error => 1

end Severity

structure Diagnostic where
  severity : Severity
  /-- The operation concerned; absent where the whole document is. -/
  operation : Option String
  message : String
deriving DecidableEq, Repr

namespace Diagnostic

def text (d : Diagnostic) : String :=
  let mark := "[" ++ d.severity.name ++ "] "
  match d.operation with
  | some operation => mark ++ operation ++ ": " ++ d.message
  | none => mark ++ d.message

/-- The highest exit code among the diagnostics. -/
def exitCode (strict : Bool) (ds : List Diagnostic) : Nat :=
  ds.foldl (fun code d => max code (d.severity.exitCode strict)) 0

/-- The gravest severity among the diagnostics. -/
def highest? : List Diagnostic → Option Severity
  | [] => none
  | d :: rest =>
    match highest? rest with
    | some s => some (if s.rank < d.severity.rank then d.severity else s)
    | none => some d.severity

def toJson (d : Diagnostic) : Json :=
  .object <| ("severity", .string d.severity.name) ::
    (d.operation.toList.map fun operation => ("operation", .string operation)) ++
    [("message", .string d.message)]

end Diagnostic

end HttpPlan
