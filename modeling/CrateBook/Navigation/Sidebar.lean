import CrateBook.Json.Writer
import CrateBook.Navigation.Basic
import CrateBook.Table
import CrateBook.Text.Letter
import CrateBook.Yaml.Writer

/-!
# Sidebars

A navigation tree is written to one file, with a sidebar for the whole package and one for
each module below it. The suffix of the file says in which format.
-/
namespace CrateBook

namespace Navigation

/-- Keys of sidebars do not keep this character. -/
def isKeyGap (c : Char) : Bool := c == '/' || c == '.' || c == '-'

/-- The key of a module's sidebar. -/
def sidebarKey (modulePath : List String) : String :=
  String.ofList (("_".intercalate modulePath).toList.map fun c => if isKeyGap c then '_' else c)

/-- The paths of the modules that have a sidebar. -/
def sidebarPaths (n : Navigation) : List (List String) :=
  (n.categories.map modulePath).filter fun p => 1 < p.length

/-- The sidebar of each module below the root. -/
def sidebars (n : Navigation) : Table String Navigation :=
  Table.ofList (n.sidebarPaths.filterMap fun p => (n.subtree? p).map fun m => (sidebarKey p, m))

/-- The format of a navigation file. -/
inductive Format where
  | yaml
  /-- A module of code that exports the sidebars, with a type annotation or without. -/
  | code (typed : Bool)
  | json
deriving DecidableEq, Repr

/-- The format for the suffix of a file. -/
def Format.ofSuffix (suffix : String) : Format :=
  match Text.lower suffix with
  | ".yml" => yaml
  | ".yaml" => yaml
  | ".js" => code false
  | ".ts" => code true
  | _ => json

def moduleValues (sidebars : Table String Navigation) : List (String × Value) :=
  (sidebars.entries.mergeSort fun a b => a.1 ≤ b.1).map fun e => (e.1, .list [e.2.toValue])

/-- The package's sidebar and those of its modules. -/
def sidebarValue (n : Navigation) (sidebars : Table String Navigation) : Value :=
  .object [("sidebar", .list [n.toValue]), ("modules", .object (moduleValues sidebars))]

/-- All sidebars by key, the package's first. -/
def keyedSidebars (n : Navigation) (sidebars : Table String Navigation) : Value :=
  .object (Table.ofList ((sidebarKey n.modulePath, .list [n.toValue]) ::
    moduleValues sidebars)).entries

/-- The comment at the head of a module of code. -/
def codeHeader : String :=
  "// This file is auto-generated by rustdoc-md\n" ++
  "// Do not edit manually - this file will be regenerated\n"

/-- A module of code that exports the sidebars. -/
def codeFile (typed : Bool) (sidebars : Value) : String :=
  let annotation := if typed then ": Record<string, any[]>" else ""
  codeHeader ++ "\nexport const rustSidebars" ++ annotation ++ " = " ++
    Json.render .readable sidebars ++ ";\n"

def render (n : Navigation) (sidebars : Table String Navigation) : Format → String
  | .yaml => Yaml.render (n.sidebarValue sidebars)
  | .code typed => codeFile typed (n.keyedSidebars sidebars)
  | .json => Json.render .readable (n.sidebarValue sidebars) ++ "\n"

end Navigation

end CrateBook
