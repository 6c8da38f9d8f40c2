import HttpPlan.Config
import HttpPlan.Toml.Reader
import HttpPlan.FileSystem
import HttpPlan.Json.Reader

/-! Settings written in TOML. A date counts as a map of one entry. -/
namespace HttpPlan.Toml

def text? : Toml → Option String
  | string s => some s
  | _ => none

/-- The name under which a date holds its text. -/
def datetimeKey : String := "$__toml_private_datetime"

def entries? : Toml → Option (List (String × Toml))
  | table entries => some entries
  | datetime text => some [(datetimeKey, string text)]
  | _ => none

/-- A record is a map, or an array of its fields in their order, from which fields may be missing
at the end; elements too many are ignored. -/
def record? (names : List String) (v : Toml) : Option (String → Option Toml) :=
  match v with
  | array items => some (List.lookup · (names.zip items))
  | v => v.entries?.map fun entries => (List.lookup · entries)

instance : SettingFormat Toml where
  text? := text?
  isNull _ := false
  entries? := entries?
  record? := record?

end HttpPlan.Toml

/-! Settings files. They are JSON where the extension says so, and TOML otherwise. -/
namespace HttpPlan

/-- Why a settings file cannot be used. -/
inductive ConfigError where
  | unreadable (path : String) (error : FileError)
  | malformed
deriving DecidableEq, Repr

namespace ConfigError

def message : ConfigError → String
  | unreadable path error => "Cannot read " ++ path ++ ": " ++ error.message
  | malformed => "Parse error"

end ConfigError

namespace Config

/-- The settings in a file of some content. -/
def ofContent? (path content : String) : Option Config :=
  if FilePath.extension? path = some "json" then selection.read? content >>= read?
  else Toml.read? content >>= read?

/-- The names of settings files, the first of them preferred. -/
def fileNames : List String := [".apiplan.toml", ".apiplan.json", "apiplan.toml"]

variable {m : Type → Type} [Monad m] [FileSystem m]

def load (path : String) : m (Except ConfigError Config) := do
  match ← FileSystem.read path with
  | .error e => return .error (.unreadable path e)
  | .ok content =>
    match ofContent? path content with
    | some config => return .ok config
    | none => return .error .malformed

/-- Loads the first of some files that is there. Without any, all settings have their defaults. -/
def loadFirst : List String → m (Except ConfigError Config)
  | [] => return .ok {}
  | path :: rest => do
    if ← FileSystem.isPresent path then load path else loadFirst rest

/-- Loads the settings of the working directory. -/
def loadDefault : m (Except ConfigError Config) := loadFirst (fileNames.map ("./" ++ ·))

end Config

end HttpPlan
