import HttpPlan.CommandLine.Help
import HttpPlan.CommandLine.Invocation
import HttpPlan.Config.File
import HttpPlan.Config
import HttpPlan.Description
import HttpPlan.Plan.Compilation
import HttpPlan.Plan.HttpFile
import HttpPlan.Plan.InterchangeSchema
import HttpPlan.Plan.Terminal

/-! Runs of the program. What a run writes before it fails stays written. -/
namespace HttpPlan.CommandLine

/-- What a run writes. -/
structure Streams where
  stdout : String := ""
  stderr : String := ""

/-- A run over some file system, which may fail with a message. -/
abbrev Session (m : Type → Type) := ExceptT String (StateT Streams m)

structure Outcome where
  exitCode : Nat
  streams : Streams := {}

namespace Session

variable {m : Type → Type} [Monad m]

/-- Writes lines to the standard output. -/
def print (lines : List String) : Session m Unit :=
  modify fun s => { s with stdout := s.stdout ++ String.join (lines.map (· ++ "\n")) }

/-- Writes lines to the standard error. -/
def note (lines : List String) : Session m Unit :=
  modify fun s => { s with stderr := s.stderr ++ String.join (lines.map (· ++ "\n")) }

/-- Takes a result, or fails with the message of its error. -/
def orFail {ε α : Type} (message : ε → String) (result : Except ε α) : Session m α :=
  match result with
  | .ok a => return a
  | .error e => throw (message e)

def run (session : Session m Nat) : m Outcome := do
  let (result, streams) ← StateT.run (ExceptT.run session) {}
  match result with
  | .ok exitCode => return { exitCode, streams }
  | .error message =>
    let stderr := streams.stderr ++ "Error: " ++ message ++ "\n"
    return { exitCode := 3, streams := { streams with stderr } }

end Session

open Session

/-- What a run tells about its settings. -/
def settingLines (spec : String) (config : Config) : List String :=
  let configured (label : String) (n : Nat) : List String :=
    if n = 0 then [] else ["  " ++ label ++ toString n ++ " configured"]
  ["Config:", "  spec:     " ++ spec, "  base_url: " ++ config.baseUrl] ++
    configured "headers:  " config.headers.entries.length ++
    configured "path_params: " config.pathParams.entries.length ++ [""]

/-- All requests of a plan, below the variable that they refer to. -/
def httpFileText (config : Config) (plan : TestPlan) : String :=
  "@base_url = " ++ config.baseUrl ++ "\n\n" ++ plan.httpText "base_url"

section

variable {m : Type → Type} [Monad m] [FileSystem m]

def readFileDescription (path : String) : Session m Json := do
  let content ← orFail (fun e => "Cannot read " ++ path ++ ": " ++ e.message)
    (← (FileSystem.read path : m _))
  orFail DescriptionFormat.errorMessage (readDescription path content)

/-- Writes a file, and the directories around it. -/
def writeFile (path content : String) : Session m Unit := do
  let parent := (FilePath.parent? path).getD ""
  orFail (fun e => "cannot create " ++ parent ++ ": " ++ e.message)
    (← (FileSystem.makeDirectories parent : m _))
  orFail (fun e => "cannot write " ++ path ++ ": " ++ e.message)
    (← (FileSystem.write path content : m _))

def runPlan (i : Invocation) : Session m Nat := do
  let talks := i.output ≠ .silent
  let config ← orFail ConfigError.message
    (← (i.config.elim Config.loadDefault Config.load : m _))
  let spec := i.spec.getD config.spec
  if talks then note (settingLines spec config)
  let description ← readFileDescription spec
  let plan ← orFail (fun e => "cannot model " ++ spec ++ ": " ++ e.message)
    (TestPlan.ofDescription description config)
  if plan.operations.isEmpty && plan.skipped.isEmpty then
    note ["Error: No operations found in " ++ spec ++ ". Check the `paths` section."]
    return 3
  match i.output with
  | .terminal => print [plan.terminalText]
  | .json => print [plan.toJson.pretty]
  | .silent => pure ()
  if let some path := i.httpFile then
    writeFile path (httpFileText config plan)
    if talks then note ["HTTP file: " ++ path]
  return plan.exitCode i.strict

def settingsFile : String := ".apiplan.toml"

/-- Makes a settings file, unless there is one. -/
def runInit : Session m Nat := do
  if ← (FileSystem.isPresent settingsFile : m _) then
    note [settingsFile ++ " already exists"]
    return 1
  orFail FileError.message (← (FileSystem.write settingsFile Config.template : m _))
  print ["Created " ++ settingsFile, "", "Edit the file to configure:",
    "  - spec: path to your OpenAPI document",
    "  - base_url: default for \x7b\x7bbase_url\x7d\x7d in .http output",
    "  - credentials: tokens for secured operations",
    "  - path_params: entity IDs known to exist"]
  return 0

def runSchema : Session m Nat := do
  print [TestPlan.jsonSchema.pretty]
  return 0

def Invocation.session (i : Invocation) : Session m Nat :=
  match i.command with
  | .plan => runPlan i
  | .init => runInit
  | .schema => runSchema

/-- Runs the program on its arguments. -/
def execute (arguments : List String) : m Outcome :=
  match Invocation.ofArguments arguments with
  | .ok i => i.session.run
  | .error .misuse =>
    return { exitCode := 2, streams := { stderr := "\n".intercalate Level.root.heading ++ "\n" } }
  | .error (.help level) => return { exitCode := 0, streams := { stdout := level.help } }
  | .error .helpOnHelp => return { exitCode := 0, streams := { stdout := helpOnHelp } }
  | .error .version => return { exitCode := 0, streams := { stdout := versionText } }

end

end HttpPlan.CommandLine
