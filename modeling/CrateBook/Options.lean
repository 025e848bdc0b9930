import CrateBook.FilePath
import CrateBook.Layout.Url

/-!
# Options of a run

What a run is told: which items to include, how to cut the package into pages, and where
links to other packages lead.
-/
namespace CrateBook

/-- How references to items of other packages become addresses. -/
structure LinkSettings where
  externalHost : String := "https://docs.rs"
  stdHost : String := "https://doc.rust-lang.org"
  defaultVersion : String := "latest"
  versions : List (String × String) := []
deriving DecidableEq, Repr

/-- The traits whose implementations are noise unless the configuration says otherwise. -/
def defaultNoise : List String :=
  ["Freeze", "RefUnwindSafe", "StructuralEq", "StructuralPartialEq", "Unpin", "UnwindSafe"]

/-- The options of a run. -/
structure Options where
  includePrivate : Bool := false
  mode : Mode := .module
  workspacePackages : List String := []
  basePath : String := ""
  navigationOutput : Option FilePath := none
  navigationCollapsed : Bool := true
  links : LinkSettings := {}
  noiseTraits : List String := defaultNoise
  configHash : String := ""
deriving DecidableEq, Repr

/-- The name of a package as paths write it. -/
def normalizePackageName (name : String) : String :=
  Text.replaceChar '-' '_' (Text.trim name)

end CrateBook
