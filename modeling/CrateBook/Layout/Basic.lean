import CrateBook.Export.Id
import CrateBook.Layout.Url
import CrateBook.Table

/-!
# Layouts

A layout lists the files of a package and says where each item stands: the file that shows
it, and the anchor within the file. The first location that an item is given counts.
-/
namespace CrateBook

/-- A file to be written; `κ` says what it shows. -/
structure FilePlan (κ : Type) where
  /-- The path below the package's directory. -/
  path : String
  page : κ
  title : String
  targetId : Id

/-- The files of a package, and the locations of its items. -/
structure Layout (κ : Type) where
  package : String
  basePath : String
  files : List (FilePlan κ) := []
  fileOf : Table Id (FilePlan κ) := .empty
  anchorOf : Table Id String := .empty
  byPath : Table String (FilePlan κ) := .empty

namespace Layout

variable {κ : Type}

/-- Adds a file; its target stands there if the file is the target's own. -/
def addFile (l : Layout κ) (plan : FilePlan κ) (ownsTarget : Bool) : Layout κ :=
  { l with
    files := l.files ++ [plan]
    byPath := l.byPath.insert plan.path plan
    fileOf := if ownsTarget then l.fileOf.insertNew plan.targetId plan else l.fileOf }

/-- Puts an item at an anchor of a file. -/
def placeAnchor (l : Layout κ) (id : Id) (plan : FilePlan κ) (anchor : String) : Layout κ :=
  { l with
    fileOf := l.fileOf.insertNew id plan
    anchorOf := l.anchorOf.insertNew id anchor }

/-- The link of a file. -/
def urlOf (l : Layout κ) (plan : FilePlan κ) : String := pageUrl l.basePath l.package plan.path

/-- The file that shows an item. -/
def fileFor (l : Layout κ) (id : Id) : Option (FilePlan κ) := l.fileOf.get? id

def fileAt (l : Layout κ) (path : String) : Option (FilePlan κ) := l.byPath.get? path

/-- The anchor of an item within its file. -/
def anchorFor (l : Layout κ) (id : Id) : Option String := l.anchorOf.get? id

/-- The link of an item that has a location. -/
def hrefFor (l : Layout κ) (id : Id) : Option String :=
  (l.fileFor id).map fun plan =>
    match l.anchorFor id with
    | some a => if a.isEmpty then l.urlOf plan else l.urlOf plan ++ "#" ++ a
    | none => l.urlOf plan

end Layout

end CrateBook
