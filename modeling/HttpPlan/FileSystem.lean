import HttpPlan.Text

/-! Paths of files: names with slashes between them. Empty names and single dots within a path
stand for nothing. -/
namespace HttpPlan.FilePath

/-- The names on the way, without those that stand for nothing. -/
def names (path : String) : List String :=
  ((Text.pieces '/' path.toList).map String.ofList).filter fun name => name ≠ "" && name ≠ "."

/-- The last name, unless it leads back up. -/
def fileName? (path : String) : Option String := (names path).getLast?.filter (· ≠ "..")

/-- What follows the last dot of the file name. A name that only starts with a dot has none. -/
def extension? (path : String) : Option String := do
  let name := (← fileName? path).toList
  let extension := Text.lastPiece '.' name
  if name.length ≤ extension.length + 1 then none else some (.ofList extension)

/-- Drops the slashes and single dots that a path ends in. A path keeps what it starts with. -/
def trimmed (reversed : List Char) : List Char :=
  match reversed with
  | ['/'] => ['/']
  | '/' :: rest => trimmed rest
  | '.' :: '/' :: rest => trimmed ('/' :: rest)
  | cs => cs

/-- The path without its last name: empty for a single name, nothing for one that has no name. -/
def parent? (path : String) : Option String :=
  match trimmed path.toList.reverse with
  | [] | ['/'] => none
  | cs => some (.ofList (trimmed (cs.dropWhile (· ≠ '/'))).reverse)

end HttpPlan.FilePath

/-! The file operations that planning needs, so that it runs on real files and on pure values
alike. -/
namespace HttpPlan

/-- Why a file operation fails. -/
inductive FileError where
  | notFound
  | alreadyExists
  | notDirectory
  | isDirectory
  | nulInName
  | other (message : String)
deriving DecidableEq, Repr

namespace FileError

def message : FileError → String
  | notFound => "No such file or directory (os error 2)"
  | alreadyExists => "File exists (os error 17)"
  | notDirectory => "Not a directory (os error 20)"
  | isDirectory => "Is a directory (os error 21)"
  | nulInName => "file name contained an unexpected NUL byte"
  | other message => message

end FileError

class FileSystem (m : Type → Type) where
  read : String → m (Except FileError String)
  /-- Replaces the content of a file, or makes a file with it. -/
  write : String → String → m (Except FileError Unit)
  /-- Makes one directory, inside one that is there. -/
  makeDirectory : String → m (Except FileError Unit)
  isDirectory : String → m Bool
  /-- Whether a file or a directory is there. -/
  isPresent : String → m Bool

namespace FileSystem

variable {m : Type → Type} [Monad m] [FileSystem m]

/-- A directory that is there already is as good as made. -/
def ensureDirectory (path : String) : m (Except FileError Unit) := do
  match ← makeDirectory path with
  | .ok () => return .ok ()
  | .error e => if ← isDirectory path then return .ok () else return .error e

/-- Makes a directory and those around it; `fuel` bounds how many. -/
def ensureDirectories : Nat → String → m (Except FileError Unit)
  | 0, _ => return .ok ()
  | fuel + 1, path => do
    if path.isEmpty then return .ok ()
    match ← ensureDirectory path with
    | .error .notFound =>
      match FilePath.parent? path with
      | none => return .error (.other "failed to create whole tree")
      | some parent =>
        match ← ensureDirectories fuel parent with
        | .ok () => ensureDirectory path
        | .error e => return .error e
    | result => return result

def makeDirectories (path : String) : m (Except FileError Unit) :=
  ensureDirectories (path.length + 1) path

end FileSystem

end HttpPlan
