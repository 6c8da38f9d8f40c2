/-! The commands of the command line and their options. -/
namespace HttpPlan.CommandLine

def programName : String := "apiplan"

def programVersion : String := "0.1.0"

inductive OutputFormat where
  | terminal
  | json
  | silent
deriving DecidableEq, Repr

namespace OutputFormat

def name : OutputFormat → String
  | terminal => "terminal"
  | json => "json"
  | silent => "silent"

def all : List OutputFormat := [terminal, json, silent]

def ofName? (s : String) : Option OutputFormat := all.find? (·.name = s)

end OutputFormat

inductive Command where
  | plan
  | init
  | schema
deriving DecidableEq, Repr

namespace Command

def name : Command → String
  | plan => "plan"
  | init => "init"
  | schema => "schema"

def summary : Command → String
  | plan => "Compile the API document into a test plan"
  | init => "Initialize config file"
  | schema => "Export JSON Schema for the test plan format"

def all : List Command := [plan, init, schema]

def ofName? (s : String) : Option Command := all.find? (·.name = s)

end Command

/-- Where an option stands: before the command, or behind it. -/
inductive Level where
  | root
  | command (c : Command)
deriving DecidableEq, Repr

inductive Switch where
  | config
  | output
  | spec
  | strict
  | httpFile
  | verbose
  | help
  | version
deriving DecidableEq, Repr

namespace Switch

def long : Switch → String
  | config => "config"
  | output => "output"
  | spec => "spec"
  | strict => "strict"
  | httpFile => "http-file"
  | verbose => "verbose"
  | help => "help"
  | version => "version"

def short? : Switch → Option Char
  | config => some 'c'
  | spec => some 's'
  | verbose => some 'v'
  | help => some 'h'
  | version => some 'V'
  | _ => none

/-- What its value is called; a switch without a value is on when it is given. -/
def valueName? : Switch → Option String
  | config => some "CONFIG"
  | output => some "OUTPUT"
  | spec => some "SPEC"
  | httpFile => some "HTTP_FILE"
  | _ => none

/-- Paths are not empty, and an output format is one of those there are. -/
def accepts (value : String) : Switch → Bool
  | output => (OutputFormat.ofName? value).isSome
  | _ => value ≠ ""

def summary : Switch → String
  | config => "Config file (default: .apiplan.toml)"
  | output =>
    "Output format [default: terminal] [possible values: " ++
      ", ".intercalate (OutputFormat.all.map OutputFormat.name) ++ "]"
  | spec => "API document (overrides `spec` from config)"
  | strict => "Strict mode (warnings fail the run)"
  | httpFile => "Also write every scenario as a runnable .http file"
  | verbose => "Verbose output (debug logging)"
  | help => "Print help"
  | version => "Print version"

end Switch

/-- The switches of a level, in the order in which help lists them. -/
def Level.switches : Level → List Switch
  | .root => [.output, .strict, .verbose, .help, .version]
  | .command .plan => [.config, .output, .spec, .strict, .httpFile, .verbose, .help]
  | .command _ => [.output, .strict, .verbose, .help]

def Level.ofLong? (level : Level) (name : String) : Option Switch :=
  level.switches.find? (·.long = name)

def Level.ofShort? (level : Level) (c : Char) : Option Switch :=
  level.switches.find? (·.short? = some c)

end HttpPlan.CommandLine
