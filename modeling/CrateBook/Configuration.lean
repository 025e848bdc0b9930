import CrateBook.FilePath
import CrateBook.Options
import CrateBook.Setting.Merge
import CrateBook.Setting.Reader

/-!
# Configurations

The configuration of a run has three layers: the defaults, the user's file, and what the
command line says. Each one is merged over those before it.
-/
namespace CrateBook.Configuration

open Setting (record str bool null list)

/-- The configuration without any file. -/
def defaults : Entries :=
  [(.str "output", record
      [("mode", str "module"), ("base_path", str ""), ("include_private", bool false)]),
   (.str "workspace", record [("packages", list [])]),
   (.str "navigation", record [("output", null), ("collapsed", bool true)]),
   (.str "links", record
      [("external_host", str "https://docs.rs"), ("std_host", str "https://doc.rust-lang.org"),
       ("default_version", str "latest"), ("versions", record [])]),
   (.str "noise", record [("traits", list (defaultNoise.map str))])]

/-- The fault of a run for a fault of its configuration file. -/
def faultOf (path : FilePath) : Yaml.ReadFault → Fault
  | .malformed => .config (.unreadable path.text)
  | .notANumber => .notANumber
  | .noSuchWord => .noSuchKey
  | .notATime => .noSuchField
  | .noDigits => .outOfRange
  | .unbounded => .unbounded
  | .wrongKind => .wrongKind
  | .tooDeep => .tooDeep

/-- The defaults with the user's entries over them. -/
def ofEntries (user : Entries) : Entries := Setting.merge defaults user

/-- Where the user's entries can be laid over the defaults, this is what comes out. -/
theorem eq_ofEntries_of_overlay {user config : Entries}
    (h : Setting.overlay none defaults user = .ok config) : config = ofEntries user :=
  (Setting.overlay_eq_ok.1 h).2.symm

/-- The configuration of a file with a given text; a file that holds nothing changes
nothing. -/
def ofText (path : FilePath) (text : String) : Checked Entries :=
  match Setting.parse text with
  | .error e => .error (faultOf path e)
  | .ok v =>
    match v.orMapping with
    | .mapping user => Setting.overlay none defaults user
    | v => .error (.config (.notAMapping path.text v.kind))

/-- What the command line says about the configuration. -/
structure Overrides where
  includePrivate : Bool := false
  mode : Option Mode := none
  basePath : Option String := none
  packages : Option (List String) := none
  navigationOutput : Option FilePath := none
  navigationCollapsed : Option Bool := none
deriving Repr

namespace Overrides

/-- A section with the entries that are there; no section without any. -/
def section_ (name : String) (entries : List (Option (String × Setting))) :
    List (Scalar × Setting) :=
  let es := entries.filterMap id
  if es.isEmpty then [] else [(.str name, record es)]

def entries (o : Overrides) : Entries :=
  section_ "output"
      [if o.includePrivate then some ("include_private", bool true) else none,
       o.mode.map fun m => ("mode", str m.name),
       o.basePath.map fun p => ("base_path", str p)] ++
    section_ "workspace" [o.packages.map fun ps => ("packages", list (ps.map str))] ++
    section_ "navigation"
      [o.navigationOutput.map fun p => ("output", str p.text),
       o.navigationCollapsed.map fun b => ("collapsed", bool b)]

end Overrides

/-- A configuration with the overrides of the command line. -/
def override (config : Entries) (o : Overrides) : Entries := Setting.merge config o.entries

end CrateBook.Configuration
