import HttpPlan.FileSystem
import HttpPlan.Json.Reader
import HttpPlan.Text
import HttpPlan.Yaml.Value

/-! The text of an API description. Its format follows from the extension of its file or, where
that says nothing, from its first character. -/
namespace HttpPlan

inductive DescriptionFormat where
  | json
  | yaml
deriving DecidableEq, Repr

namespace DescriptionFormat

def name : DescriptionFormat → String
  | json => "JSON"
  | yaml => "YAML"

def ofExtension? (extension : String) : Option DescriptionFormat :=
  match extension.map Char.toLower with
  | "json" => some json
  | "yaml" | "yml" => some yaml
  | _ => none

/-- A text that opens a JSON object is taken for JSON. -/
def ofContent (content : String) : DescriptionFormat :=
  if (content.toList.dropWhile Text.isBlank).head? == some '\x7b' then json else yaml

def detect (path content : String) : DescriptionFormat :=
  (FilePath.extension? path >>= ofExtension?).getD (ofContent content)

def read? : DescriptionFormat → String → Option Json
  | json, content => (Json.read? content).map Json.distinct
  | yaml, content => Yaml.read? content

/-- What is said of a text that is not of the format. -/
def errorMessage (format : DescriptionFormat) : String := "Parse error: Invalid " ++ format.name

end DescriptionFormat

/-- Reads the description in a file of some content, or tells in which format it failed. -/
def readDescription (path content : String) : Except DescriptionFormat Json :=
  let format := DescriptionFormat.detect path content
  match format.read? content with
  | some v => .ok v
  | none => .error format

end HttpPlan
