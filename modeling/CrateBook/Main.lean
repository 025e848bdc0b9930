import CrateBook.CommandLine.Run
import Std.Time.DateTime.Timestamp

/-!
# The program

The command line over real files.
-/
namespace CrateBook.CommandLine

/-- The value of a step on files, or nothing if the system refuses it. -/
def attempt {α : Type} (x : IO α) : IO (Option α) := do
  try return some (← x)
  catch _ => return none

/-- The path from the root, with points taken out. -/
def absolute (p : FilePath) : IO FilePath := do
  let start ← if p.root.isEmpty then do pure (toString (← IO.currentDir)) else pure "/"
  let step (at_ : List String) (name : String) : List String :=
    if name == ".." then at_.dropLast else at_ ++ [name]
  return ⟨"/", p.names.foldl step (FilePath.ofText start).names⟩

/-- The seconds since the start of the epoch. -/
def secondsNow : IO Float := do
  let now ← Std.Time.Timestamp.now
  return Float.ofInt now.toNanosecondsSinceUnixEpoch.val / 1000000000

/-- The system as a host; `began` is when the run began. -/
def system (began : Float) : Host IO where
  resolve := absolute
  isThere p := return some (← attempt (IO.FS.realPath p.text)).isSome
  readText p := attempt (IO.FS.readFile p.text)
  writeText p text := do
    let written ← attempt do
      IO.FS.createDirAll p.parent.text
      IO.FS.writeFile p.text text
    return written.isSome
  printLine line := IO.println line
  warnLine line := IO.eprintln line
  clock := do
    let now ← secondsNow
    return (now, now - began)

end CrateBook.CommandLine

/-- Runs the program with the arguments of the command line. -/
def main (arguments : List String) : IO UInt32 := do
  let began ← CrateBook.CommandLine.secondsNow
  match ← (CrateBook.CommandLine.run (CrateBook.CommandLine.system began) arguments).run with
  | .ok code => return code.toUInt32
  | .error _ => do
    IO.eprintln "error: the export holds a value of a form that cannot be read"
    return 1
