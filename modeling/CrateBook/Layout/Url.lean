import CrateBook.Fault
import CrateBook.Markdown

/-!
# Files and links

The link of a page is its path without the suffix, and an index page goes by its directory.
Where another package puts an item is predicted by the same rules.
-/
namespace CrateBook

/-- How a package is cut into pages: all on one page, a page for each module, or a page for
each item. -/
inductive Mode where
  | single
  | module
  | item
deriving DecidableEq, Repr, Inhabited

namespace Mode

def name : Mode → String
  | single => "single"
  | module => "module"
  | item => "item"

def ofName? : String → Option Mode
  | "single" => some single
  | "module" => some module
  | "item" => some item
  | _ => none

@[simp] theorem ofName?_name (m : Mode) : ofName? m.name = some m := by cases m <;> rfl

/-- The mode of a name for predicting links: an item page where the name is not known. -/
def forPrediction (s : String) : Mode := (ofName? s).getD item

end Mode

namespace Layout

/-- The words that stand in front of a name that clashes. -/
def kindPrefixes : List (String × String) :=
  [("module", "mod"), ("function", "fn"), ("struct", "struct"), ("enum", "enum"),
   ("union", "union"), ("trait", "trait"), ("trait_alias", "traitalias"),
   ("type_alias", "type"), ("constant", "constant"), ("static", "static"),
   ("macro", "macro"), ("proc_macro", "macro"), ("primitive", "primitive")]

/-- The word for a kind of item in front of a name that clashes. -/
def kindPrefix (kind : String) : String := (kindPrefixes.lookup kind).getD kind

/-- A path without its suffix, and without the name of an index page. -/
def pagePath (path : String) : String :=
  let rel := Text.dropSuffix ".md" path
  if rel == "index" then "" else Text.dropSuffix "/index" rel

/-- The link of a file, by its path below the package's directory. -/
def pageUrl (basePath package path : String) : String :=
  let url := Text.trimEndChar '/' basePath ++ "/" ++ package
  let rel := pagePath path
  if rel.isEmpty then url else url ++ "/" ++ rel

def moduleFile (path : List String) : String := "/".intercalate (path.tail ++ ["index.md"])

/-- Where a package with the same layout puts an item; `segments` is the item's path below
the package. -/
def predictedHref (basePath : String) (mode : Mode) (package : String)
    (segments : List String) (kind : String) : String :=
  let path := package :: segments
  if kind == "module" then pageUrl basePath package (moduleFile path)
  else match mode with
    | .single =>
      pageUrl basePath package "index.md" ++ "#" ++ Markdown.headerSlug ("-".intercalate path)
    | .module =>
      pageUrl basePath package (moduleFile (package :: segments.dropLast)) ++ "#" ++
        Markdown.headerSlug (path.getLastD "")
    | .item => pageUrl basePath package ("/".intercalate segments ++ ".md")

/-- Where a package with the same layout puts an item, by the item's whole path. -/
def predictedHrefOf (basePath : String) (mode : Mode) (path : List String) (kind : String) :
    Checked String :=
  match path with
  | [] => .error .outOfRange
  | package :: segments => .ok (predictedHref basePath mode package segments kind)

end Layout

end CrateBook
