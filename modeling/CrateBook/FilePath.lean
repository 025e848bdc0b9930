import CrateBook.Text.Lines

/-!
# Paths of files

A path is a root, if it has one, and the names below it. Empty names and single points say
nothing and are dropped; two points stay.
-/
namespace CrateBook

/-- A path of a file or directory. -/
structure FilePath where
  /-- One slash, two slashes, or nothing for a relative path. -/
  root : String := ""
  names : List String := []
deriving DecidableEq, Repr

namespace FilePath

/-- The root that a text starts with; three slashes or more are as good as one. -/
def rootOf (s : String) : String :=
  match s.toList with
  | '/' :: '/' :: '/' :: _ => "/"
  | '/' :: '/' :: _ => "//"
  | '/' :: _ => "/"
  | _ => ""

def ofText (s : String) : FilePath :=
  ⟨rootOf s, (Text.splitAt '/' s).filter fun n => !n.isEmpty && n != "."⟩

/-- The path as text; the relative path without names is a point. -/
def text (p : FilePath) : String :=
  if p.root.isEmpty && p.names.isEmpty then "." else p.root ++ "/".intercalate p.names

/-- A path below another one; a path with a root stands for itself. -/
def join (p : FilePath) (s : String) : FilePath :=
  let q := ofText s
  if q.root.isEmpty then ⟨p.root, p.names ++ q.names⟩ else q

/-- The path one name up. -/
def parent (p : FilePath) : FilePath := { p with names := p.names.dropLast }

def name (p : FilePath) : String := p.names.getLastD ""

/-- The last point of a name with what follows it, if there is something on both sides. -/
def suffix (p : FilePath) : String :=
  let back := p.name.toList.reverse.takeWhile (· != '.')
  let front := p.name.toList.take (p.name.length - back.length - 1)
  if back.isEmpty || front.isEmpty then "" else String.ofList ('.' :: back.reverse)

/-- Where the navigation file of a package goes: to the place that is set, or to the
package's directory. -/
def navigationFile (outputRoot : FilePath) (package : String) (set_ : Option FilePath) :
    FilePath :=
  set_.getD ((outputRoot.join package).join "sidebar.json")

end FilePath

end CrateBook
