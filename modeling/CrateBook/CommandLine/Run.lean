import CrateBook.CommandLine.Arguments
import CrateBook.Conversion
import CrateBook.Export.Reader
import CrateBook.Setting.Canonical
import CrateBook.Setting.Options

/-!
# A run of the command line

A run reads the configuration and the export, converts, and writes the pages and the
navigation file, or only a report. What it does to files and streams goes through a host,
so that a run is the same over real files and over files in memory.
-/
namespace CrateBook.CommandLine

/-- What a run needs from where it runs. -/
structure Host (m : Type → Type) where
  /-- The path from the root that a path means. -/
  resolve : FilePath → m FilePath
  /-- Whether there is a file or directory. Nothing if the system refuses to look the path up. -/
  isThere : FilePath → m (Option Bool)
  /-- The text of a file that can be read. -/
  readText : FilePath → m (Option String)
  /-- Writes a file, making the directories above it; tells whether that was possible. -/
  writeText : FilePath → String → m Bool
  /-- Prints a line. -/
  printLine : String → m Unit
  /-- Prints a line about a problem. -/
  warnLine : String → m Unit
  /-- The time of day in seconds, and the seconds since the run began. -/
  clock : m (Float × Float)

variable {m : Type → Type} [Monad m] (h : Host m)

/-- A step of a run. -/
abbrev Step (m : Type → Type) := ExceptT Fault m

/-- Takes over the outcome of a pure step. -/
def lifted {α : Type} (x : Checked α) : Step m α := ExceptT.mk (pure x)

/-- The export's text with all line breaks as line feeds. -/
def normalized (s : String) : String := String.ofList (Setting.normalizeBreaks s.toList)

/-- The source of the warnings about configuration files. -/
def configSource : String := "rustdoc_md.load_config"

/-- The configuration before the command line has its say. -/
def loadConfig (path : Option String) : Step m Entries := do
  match path.filter fun p => !p.isEmpty with
  | none => return Configuration.defaults
  | some p => do
    let file := FilePath.ofText p
    match ← h.isThere file with
    | none => throw .refusedPath
    | some true =>
      match ← h.readText file with
      | some text => lifted (Configuration.ofText file text)
      | none => throw (.config (.unreadable file.text))
    | some false =>
      h.warnLine (Report.warning configSource
        ("Config file " ++ file.text ++ " not found, using defaults"))
      return Configuration.defaults

/-- A path as a system takes it, without null characters. -/
def usable (path : FilePath) : Checked FilePath :=
  if path.text.toList.contains '\x00' then .error .badPath else .ok path

def loadExport (path : FilePath) : Step m Export := do
  match ← h.readText (← lifted (usable path)) with
  | none => throw (.unreadableInput path.text)
  | some text => do
    let x ← lifted (Export.parse (normalized text))
    h.printLine s!"Loaded crate: {x.package.name} (format version: {x.package.formatVersion})"
    return x

def write (path : FilePath) (text : String) : Step m Unit := do
  if !(← h.writeText (← lifted (usable path)) text) then throw (.unwritableOutput path.text)

/-- How many pages are written between two messages. -/
def pagesPerMessage : Nat := 50

/-- Writes pages, of which some were written before. -/
def writePages (directory : FilePath) (total : Nat) : Nat → List Document → Step m Unit
  | _, [] => return
  | written, d :: ds => do
    write h (directory.join d.path) d.body
    if (written + 1) % pagesPerMessage == 0 then
      h.printLine s!"  ... wrote {written + 1}/{total} pages"
    writePages directory total (written + 1) ds

/-- Writes the pages and the navigation file of a conversion. -/
def writeConversion (root : FilePath) (c : Conversion) : Step m Unit := do
  h.printLine s!"Writing {c.documents.length} pages..."
  writePages h (root.join c.package) c.documents.length 0 c.documents
  let file := FilePath.navigationFile root c.package c.site.options.navigationOutput
  write h file (c.navigation.render c.sidebars (Navigation.Format.ofSuffix file.suffix))

def writeReport (path : String) (r : Report) : Step m Unit := do
  let (time, duration) ← h.clock
  write h (FilePath.ofText path) (Json.render .portable (r.stamped time duration))

/-- Where a dry run puts its report unless it is told. -/
def defaultReport : String := "conversion_report.json"

/-- Converts a package as the command line asks. -/
def convert (i : Invocation) : Step m Unit := do
  let config := .mapping (Configuration.override (← loadConfig h i.config) i.overrides)
  let hash ← lifted (Setting.fingerprint config supportedVersion)
  let output ← lifted (i.output.elim (.error .noSuchField) .ok)
  let root ← h.resolve (← lifted (usable output))
  let options ← lifted (Setting.options config hash)
  let x ← loadExport h i.input
  let c ← lifted (x.convert options)
  c.report.warnings.forM fun w => h.warnLine w
  let report := i.report.filter fun p => !p.isEmpty
  if i.dryRun then
    let path := report.getD defaultReport
    writeReport h path c.report
    h.printLine ("Dry run complete. Report generated at " ++ path)
    h.printLine s!"{c.documents.length} pages planned; {c.report.summary}"
  else
    writeConversion h root c
    report.forM fun path => writeReport h path c.report
    h.printLine
      s!"Generated {c.documents.length} Markdown pages into: {(root.join c.package).text}"
    h.printLine c.report.summary

def programName : String := "rustdoc-md"

/-- How the program is used. -/
def usage : String :=
  "usage: " ++ programName ++ " [flags] input out_dir\n\nflags: " ++
    " ".intercalate (flagNames.map (·.1))

/-- Runs the program and gives its exit code: 2 if the arguments are wrong, 1 if something
is not usable. A fault without a message ends the run. -/
def run (arguments : List String) : Step m Nat := do
  match Invocation.parse arguments with
  | .error .help => do
    h.printLine usage
    return 0
  | .error (.usage f) => do
    h.warnLine (programName ++ ": error: " ++ f.message)
    return 2
  | .ok i =>
    tryCatch (do
      convert h i
      return 0) fun f => do
        match f.message? with
        | some text => do
          h.warnLine ("error: " ++ text)
          return 1
        | none => throw f

end CrateBook.CommandLine
