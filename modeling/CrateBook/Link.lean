import CrateBook.Export.Id

/-!
# Links

A link is a piece of shown text with the address it leads to. A target says where a
reference to an item points: within this package, into a package documented beside it, to
another site, or nowhere.
-/
namespace CrateBook

/-- A shown text and the address it leads to. -/
structure Link where
  token : String
  href : String
deriving DecidableEq, Repr

/-- Links without repetitions, in order of first appearance. -/
def Link.distinct (links : List Link) : List Link := links.eraseDups

/-- Where a link may lead. -/
inductive Reach where
  | internal
  | sibling
  | external
deriving DecidableEq, Repr

def Reach.name : Reach → String
  | internal => "internal"
  | sibling => "sibling"
  | external => "external"

/-- Where a reference to an item points. -/
inductive Target where
  | link (reach : Reach) (title href : String)
  | unlinked (title : String)
deriving DecidableEq, Repr

namespace Target

def title : Target → String
  | link _ t _ => t
  | unlinked t => t

/-- The address of a target that has one. -/
def href? : Target → Option String
  | link _ _ h => some h
  | unlinked _ => none

def kind : Target → String
  | link r _ _ => r.name
  | unlinked _ => "none"

/-- A label as a Markdown link to an address, or as it is where there is none. -/
def markdownLink (label : String) (href : Option String) : String :=
  match href with
  | some h => "[" ++ label ++ "](" ++ h ++ ")"
  | none => label

def markdown (t : Target) : String := markdownLink t.title t.href?

end Target

end CrateBook
