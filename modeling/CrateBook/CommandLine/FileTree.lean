import CrateBook.CommandLine.Run

/-!
# Files in memory

A tree of files and directories, and a host that runs over one. A name leads on only from a
directory, and two points lead back up.
-/
namespace CrateBook.CommandLine

/-- Files and directories, each by the names from the root down. -/
structure FileTree where
  files : Table (List String) String := .empty
  directories : List (List String) := [[]]
  /-- The directory that relative paths start from. -/
  workdir : List String := []

namespace FileTree

def isDirectory (t : FileTree) (names : List String) : Bool := t.directories.contains names

/-- Where a path starts. -/
def start (t : FileTree) (p : FilePath) : List String :=
  if p.root.isEmpty then t.workdir else []

/-- One name further; up again behind two points. -/
def stepTo (at_ : List String) (name : String) : List String :=
  if name == ".." then at_.dropLast else at_ ++ [name]

/-- The names from the root down that a path means, without a look at the tree. -/
def resolve (t : FileTree) (p : FilePath) : FilePath :=
  ⟨"/", p.names.foldl stepTo (t.start p)⟩

/-- The place that names lead to, through directories only. -/
def locate (t : FileTree) : List String → List String → Option (List String)
  | at_, [] => some at_
  | at_, name :: names =>
    if t.isDirectory at_ then t.locate (stepTo at_ name) names else none

/-- The most bytes that a name may take. -/
def maxNameBytes : Nat := 255

/-- The name is longer than a directory can hold. -/
def isTooLong (name : String) : Bool := maxNameBytes < name.utf8ByteSize

/-- The most bytes that a path may take. -/
def maxPathBytes : Nat := 4095

/-- The path is longer than any that can be looked up. -/
def isEndless (p : FilePath) : Bool := maxPathBytes < p.text.utf8ByteSize

/-- The names lead to a directory that is asked for a name which it can not hold. -/
def meetsTooLong (t : FileTree) : List String → List String → Bool
  | _, [] => false
  | at_, name :: names =>
    t.isDirectory at_ && (isTooLong name || t.meetsTooLong (stepTo at_ name) names)

/-- Whether there is a file or directory at a path. A path that is too long, or holds a name that
is, can not be looked up; one with a null character leads nowhere. -/
def isThere (t : FileTree) (p : FilePath) : Option Bool :=
  if p.text.toList.contains '\x00' then some false
  else if isEndless p || t.meetsTooLong (t.start p) p.names then none
  else match t.locate (t.start p) p.names with
    | some place => some (t.isDirectory place || t.files.contains place)
    | none => some false

def readText (t : FileTree) (p : FilePath) : Option String :=
  if isEndless p then none else (t.locate (t.start p) p.names).bind t.files.get?

/-- The tree with the directories that names lead through; none if a file is in the way, or
if a name is too long. -/
def makeDirectories (t : FileTree) :
    List String → List String → Option (FileTree × List String)
  | at_, [] => some (t, at_)
  | at_, name :: names =>
    let next := stepTo at_ name
    if t.files.contains next || isTooLong name then none
    else if t.isDirectory next then t.makeDirectories next names
    else makeDirectories { t with directories := next :: t.directories } next names

/-- The tree with a file written, if nothing is in the way. -/
def writeText (t : FileTree) (p : FilePath) (text : String) : Option FileTree := do
  if isEndless p then none
  let (t, parent) ← t.makeDirectories (t.start p) p.parent.names
  let name ← p.names.getLast?
  let place := stepTo parent name
  if t.isDirectory place || isTooLong name then none
  else some { t with files := t.files.insert place text }

/-- A tree with some files below its working directory. -/
def ofFiles (workdir : List String) (files : List (String × String)) : FileTree :=
  let t : FileTree := {
    workdir := workdir
    directories := (List.range (workdir.length + 1)).map workdir.take }
  files.foldl (fun t f => (t.writeText (FilePath.ofText f.1) f.2).getD t) t

end FileTree

/-- Files in memory and what was printed. -/
structure Machine where
  tree : FileTree
  printed : List String := []
  warned : List String := []

/-- The host of a machine; its clock stands still. -/
def Machine.host : Host (StateM Machine) where
  resolve p := return (← get).tree.resolve p
  isThere p := return (← get).tree.isThere p
  readText p := return (← get).tree.readText p
  writeText p text := do
    match (← get).tree.writeText p text with
    | some tree =>
      modify fun s => { s with tree }
      return true
    | none => return false
  printLine line := modify fun s => { s with printed := s.printed ++ [line] }
  warnLine line := modify fun s => { s with warned := s.warned ++ [line] }
  clock := return (0, 0)

def Machine.run (s : Machine) (arguments : List String) : Checked Nat × Machine :=
  ((CommandLine.run Machine.host arguments).run : StateM Machine (Checked Nat)).run s

end CrateBook.CommandLine
