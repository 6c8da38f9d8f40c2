import HttpPlan.FileSystem
import HttpPlan.Text

/-! Files and directories as a value. Paths are walked from the top of the tree, which is its own
parent. -/
namespace HttpPlan

structure FileTree where
  files : List (List String × String) := []
  directories : List (List String) := []
deriving DecidableEq, Repr

namespace FileTree

inductive Item where
  | directory
  | file (content : String)

/-- What stands at the end of some names. The directories around files need not be listed. -/
def item? (tree : FileTree) (place : List String) : Option Item :=
  match tree.files.lookup place with
  | some content => some (.file content)
  | none =>
    let isDirectory := place.isEmpty || tree.directories.contains place ||
      tree.files.any fun (file, _) => place.isPrefixOf file
    if isDirectory then some .directory else none

/-- Goes on from a place, which has to be a directory, to the name in it. -/
def enter (tree : FileTree) (place : List String) (name : String) :
    Except FileError (List String) :=
  match tree.item? place with
  | none => .error .notFound
  | some (.file _) => .error .notDirectory
  | some .directory =>
    if name = "" || name = "." then .ok place
    else if name = ".." then .ok place.dropLast
    else .ok (place ++ [name])

def names (path : String) : List String := (Text.pieces '/' path.toList).map String.ofList

/-- The place that a path leads to. Something need stand there only if the path says that it is a
directory. -/
def locate (tree : FileTree) (path : String) : Except FileError (List String) :=
  if path.isEmpty then .error .notFound
  else if path.contains '\x00' then .error .nulInName
  else (names path).foldlM tree.enter []

def find? (tree : FileTree) (path : String) : Except FileError Item := do
  match tree.item? (← tree.locate path) with
  | some item => return item
  | none => throw .notFound

def read (tree : FileTree) (path : String) : Except FileError String := do
  match ← tree.find? path with
  | .file content => return content
  | .directory => throw .isDirectory

/-- The content of a file, replaced or new. -/
def set (place : List String) (content : String) :
    List (List String × String) → List (List String × String)
  | [] => [(place, content)]
  | (file, old) :: rest =>
    if file = place then (file, content) :: rest else (file, old) :: set place content rest

/-- A path without the slashes that it ends in. -/
def body (path : String) : String :=
  let cs := (path.toList.reverse.dropWhile (· = '/')).reverse
  if cs.isEmpty then path else .ofList cs

/-- A path that ends in a slash is never one of a file. -/
def write (path content : String) (tree : FileTree) : Except FileError FileTree := do
  let place ← tree.locate (body path)
  match path.endsWith "/", tree.item? place with
  | false, none | false, some (.file _) =>
    return { tree with files := set place content tree.files }
  | _, _ => throw .isDirectory

def makeDirectory (path : String) (tree : FileTree) : Except FileError FileTree := do
  let place ← tree.locate (body path)
  if (tree.item? place).isSome then throw .alreadyExists
  return { tree with directories := tree.directories ++ [place] }

def isDirectory (tree : FileTree) (path : String) : Bool :=
  match tree.find? path with
  | .ok .directory => true
  | _ => false

/-- Applies a change that may fail, and then leaves all as it was. -/
def update (change : FileTree → Except FileError FileTree) :
    StateM FileTree (Except FileError Unit) :=
  fun tree =>
    match change tree with
    | .ok tree => (.ok (), tree)
    | .error e => (.error e, tree)

instance : FileSystem (StateM FileTree) where
  read path := do return (← get).read path
  write path content := update (write path content)
  makeDirectory path := update (makeDirectory path)
  isDirectory path := do return (← get).isDirectory path
  isPresent path := do return ((← get).find? path).isOk

def ofFiles (files : List (String × String)) : FileTree :=
  { files := files.foldl (fun done (name, content) => set (FilePath.names name) content done) [] }

end FileTree

end HttpPlan
