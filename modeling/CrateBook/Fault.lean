import CrateBook.Json.Syntax
import CrateBook.Json.Value

/-!
# Faults

A run ends early for two kinds of reasons. The export, the configuration or a file is not
usable: such a fault has a message for the user. Or a value deep in an export has a form
that a rule cannot work on: a look-up, a number, a kind of value is not there.
-/
namespace CrateBook

/-- The format version of exports that is read. -/
def supportedVersion : Int := 56

/-- Why a text is not a usable export. -/
inductive ExportFault where
  | malformed (fault : Json.SyntaxFault)
  | notAnObject
  | noVersion
  | versionNotANumber (found : Value)
  | unsupportedVersion (found : Int)
  | noIndex
  | noRoot
  | rootNotIndexed (id : String)
  | rootNotAModule (id : String)

/-- The wording of an export's fault. -/
def ExportFault.message : ExportFault → String
  | malformed f => "Malformed export: " ++ f.message
  | notAnObject => "Malformed export: top-level value is not an object"
  | noVersion =>
    s!"Export declares no format_version (supported: {supportedVersion}, found: none)"
  | versionNotANumber v =>
    s!"Export format_version is not a number (supported: {supportedVersion}, found: " ++
      v.literal ++ ")"
  | unsupportedVersion n =>
    s!"Unsupported format version: supported {supportedVersion}, found {n}"
  | noIndex => "Malformed export: missing 'index' object"
  | noRoot => "Malformed export: missing 'root' identifier"
  | rootNotIndexed id => s!"Malformed export: root item {id} is not in the index"
  | rootNotAModule id => s!"Malformed export: root item {id} is not a module"

/-- Why a configuration is not usable. -/
inductive ConfigFault where
  | unreadable (path : String)
  | notAMapping (path kind : String)
  | unknownMode (mode : String)

/-- The wording of a configuration's fault. -/
def ConfigFault.message : ConfigFault → String
  | unreadable path => s!"Failed to read config {path}"
  | notAMapping path kind => s!"Config {path} must be a mapping, got {kind}"
  | unknownMode mode =>
    s!"Unknown output mode {Text.quoted mode} (expected one of: single, module, item)"

/-- Why a step of a run fails. -/
inductive Fault where
  | badExport (fault : ExportFault)
  | config (fault : ConfigFault)
  | unreadableInput (path : String)
  | unwritableOutput (path : String)
  /-- A look-up of a key that is not there. -/
  | noSuchKey
  /-- A named part asked of a value that has none. -/
  | noSuchField
  /-- A value of a kind that the operation does not take. -/
  | wrongKind
  /-- A text or float that is no number of the kind that is needed, or a whole number with too
  many digits to be read or written. -/
  | notANumber
  /-- A value that contains itself where one with an end is needed. -/
  | endless
  /-- Values nested deeper than can be read. -/
  | tooDeep
  /-- A float without bounds where a whole number is needed. -/
  | unbounded
  /-- A place beyond the end of a list. -/
  | outOfRange
  /-- A path with a null character, which no system takes. -/
  | badPath
  /-- A path that the system refuses to look up. -/
  | refusedPath

/-- The message of a fault that has one for the user. -/
def Fault.message? : Fault → Option String
  | badExport f => some f.message
  | config f => some f.message
  | unreadableInput path => some s!"Failed to read file: {path}"
  | unwritableOutput path => some s!"Failed to write: {path}"
  | _ => none

/-- The outcome of a step that may fail. -/
abbrev Checked := Except Fault

/-- Two steps succeed if the first one does, and then the second one. -/
theorem Except.bind_eq_ok {ε α β : Type} {x : Except ε α} {f : α → Except ε β} {b : β} :
    x >>= f = .ok b ↔ ∃ a, x = .ok a ∧ f a = .ok b := by
  cases x <;> simp [bind, Except.bind]

end CrateBook
