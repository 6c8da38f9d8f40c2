import HttpPlan.CommandLine.Session

/-! The program: runs over the real file system. -/
namespace HttpPlan

namespace FileError

def ofIO : IO.Error → FileError
  | .noFileOrDirectory .. => notFound
  | .alreadyExists .. => alreadyExists
  | .inappropriateType _ code _ => if code = 21 then isDirectory else notDirectory
  | e => other (toString e)

end FileError

/-- The result of an action, or the reason why it failed. -/
def attempt {α : Type} (action : IO α) : IO (Except FileError α) := do
  try return .ok (← action) catch e => return .error (.ofIO e)

def opens (path : String) : IO Bool := do
  match ← attempt (IO.FS.Handle.mk path .read) with
  | .ok _ => return true
  | .error _ => return false

instance : FileSystem IO where
  read path := attempt (IO.FS.readFile path)
  write path content := attempt (IO.FS.writeFile path content)
  makeDirectory path := attempt (IO.FS.createDir path)
  isDirectory path := opens (path ++ "/.")
  isPresent path := opens path

end HttpPlan

def main (arguments : List String) : IO UInt32 := do
  let outcome ← (HttpPlan.CommandLine.execute arguments : IO _)
  (← IO.getStderr).putStr outcome.streams.stderr
  (← IO.getStdout).putStr outcome.streams.stdout
  return outcome.exitCode.toUInt32
