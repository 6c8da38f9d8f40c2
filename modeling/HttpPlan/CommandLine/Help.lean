import HttpPlan.CommandLine.Option

/-! Help texts. -/
namespace HttpPlan.CommandLine

def padded (width : Nat) (s : String) : String :=
  s ++ String.ofList (List.replicate (width - s.length) ' ')

namespace Switch

/-- A switch as it is written, with room for a short form. -/
def form (s : Switch) : String :=
  let short := match s.short? with
    | some c => "-" ++ String.singleton c ++ ", "
    | none => "    "
  let value := s.valueName?.elim "" fun name => " <" ++ name ++ ">"
  short ++ "--" ++ s.long ++ value

end Switch

/-- Lines of two columns. -/
def columns (rows : List (String × String)) : List String :=
  let width := (rows.map (·.1.length)).foldl max 0
  rows.map fun (left, right) => "  " ++ padded width left ++ "  " ++ right

def helpSummary : String := "Print this message or the help of the given subcommand(s)"

namespace Level

def heading : Level → List String
  | root =>
    ["Generate HTTP-level regression test plans from OpenAPI documents", "",
      "Usage: " ++ programName ++ " [OPTIONS] <COMMAND>"]
  | command c => [c.summary, "", "Usage: " ++ programName ++ " " ++ c.name ++ " [OPTIONS]"]

def commandList : Level → List String
  | root =>
    ["", "Commands:"] ++
      columns (Command.all.map (fun c => (c.name, c.summary)) ++ [("help", helpSummary)])
  | command _ => []

def help (level : Level) : String :=
  let options := columns (level.switches.map fun s => (s.form, s.summary))
  "\n".intercalate (level.heading ++ level.commandList ++ ["", "Options:"] ++ options) ++ "\n"

end Level

/-- What the command that prints help says of itself. -/
def helpOnHelp : String :=
  let arguments := columns [("[COMMAND]...", "Print help for the subcommand(s)")]
  "\n".intercalate ([helpSummary, "", "Usage: " ++ programName ++ " help [COMMAND]...", "",
    "Arguments:"] ++ arguments) ++ "\n"

def versionText : String := programName ++ " " ++ programVersion ++ "\n"

end HttpPlan.CommandLine
