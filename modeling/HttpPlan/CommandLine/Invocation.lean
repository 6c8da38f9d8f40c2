import HttpPlan.CommandLine.Option

/-! Reading the arguments of a run. A switch is given once at most before the command and once
behind it, and what stands behind it counts. -/
namespace HttpPlan.CommandLine

/-- What the arguments ask for in place of a run. -/
inductive Interruption where
  | misuse
  | help (level : Level)
  | helpOnHelp
  | version
deriving DecidableEq, Repr

/-- The switches given so far, with their values. -/
abbrev Given := List (Switch × String)

namespace Given

def add (s : Switch) (value : String) (given : Given) : Except Interruption Given :=
  let accepted := s.valueName?.isNone || s.accepts value
  if accepted && (given.lookup s).isNone then .ok ((s, value) :: given) else .error .misuse

/-- A switch that takes no value from its own argument. One that needs a value waits for it. -/
def addBare (level : Level) (s : Switch) (given : Given) :
    Except Interruption (Given × Option Switch) :=
  match s with
  | .help => .error (.help level)
  | .version => .error .version
  | s => if s.valueName?.isSome then .ok (given, some s) else (given.add s "").map (·, none)

end Given

namespace Level

/-- A switch in its long form, possibly with a value behind an equals sign. -/
def readLong (level : Level) (given : Given) (text : List Char) :
    Except Interruption (Given × Option Switch) :=
  match level.ofLong? (.ofList (text.takeWhile (· ≠ '='))), text.dropWhile (· ≠ '=') with
  | none, _ => .error .misuse
  | some s, [] => given.addBare level s
  | some s, _ :: value =>
    if s.valueName?.isSome then (given.add s (.ofList value)).map (·, none) else .error .misuse

/-- Switches in their short forms. What follows one with a value is the value. -/
def readShort (level : Level) (given : Given) : List Char →
    Except Interruption (Given × Option Switch)
  | [] => .ok (given, none)
  | c :: rest =>
    match level.ofShort? c, rest with
    | none, _ => .error .misuse
    | some s, [] => given.addBare level s
    | some s, next :: value =>
      if s.valueName?.isSome then
        (given.add s (.ofList (if next = '=' then value else rest))).map (·, none)
      else do
        let (given, _) ← given.addBare level s
        readShort level given rest

/-- Help is asked for by a command of its own, too, which can be asked about itself. -/
def helpOn : List String → Interruption
  | [] => .help .root
  | [name] =>
    if name = "help" then .helpOnHelp
    else (Command.ofName? name).elim .misuse fun c => .help (.command c)
  | _ => .misuse

def isSwitch (argument : String) : Bool := argument.startsWith "-" && argument ≠ "-"

/-- Reads the arguments of a level, up to the command if there is one. -/
def read (level : Level) (given : Given) (waiting : Option Switch) : List String →
    Except Interruption (Given × Option (Command × List String))
  | [] => if waiting.isSome then .error .misuse else .ok (given, none)
  | argument :: rest =>
    match waiting with
    | some s =>
      if isSwitch argument then .error .misuse
      else do read level (← given.add s argument) none rest
    | none =>
      match Command.ofName? argument with
      | some c => if level = .root then .ok (given, some (c, rest)) else .error .misuse
      | none =>
        if level = .root && argument = "help" then .error (helpOn rest)
        else match argument.toList with
          | ['-', '-'] => if rest.isEmpty then .ok (given, none) else .error .misuse
          | '-' :: '-' :: text => do
            let (given, waiting) ← level.readLong given text
            read level given waiting rest
          | '-' :: c :: cs => do
            let (given, waiting) ← level.readShort given (c :: cs)
            read level given waiting rest
          | _ => .error .misuse

end Level

structure Invocation where
  command : Command
  config : Option String := none
  spec : Option String := none
  httpFile : Option String := none
  output : OutputFormat := .terminal
  strict : Bool := false
  verbose : Bool := false
deriving DecidableEq, Repr

namespace Invocation

def ofGiven (command : Command) (given : Given) : Invocation :=
  { command
    config := given.lookup .config
    spec := given.lookup .spec
    httpFile := given.lookup .httpFile
    output := (given.lookup .output >>= OutputFormat.ofName?).getD .terminal
    strict := (given.lookup .strict).isSome
    verbose := (given.lookup .verbose).isSome }

def ofArguments (arguments : List String) : Except Interruption Invocation := do
  match ← Level.root.read [] none arguments with
  | (_, none) => throw .misuse
  | (outer, some (command, rest)) =>
    let (inner, _) ← (Level.command command).read [] none rest
    return ofGiven command (inner ++ outer)

end Invocation

end HttpPlan.CommandLine
