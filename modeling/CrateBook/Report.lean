import CrateBook.Export.Id
import CrateBook.Table

/-!
# Conversion reports

What a run could not do but went on without: references that lead nowhere, items of an
unknown kind, and names that clashed.
-/
namespace CrateBook

/-- Names that clashed in one directory or page, and what they became. -/
structure Collision where
  directory : String
  name : String
  resolved : Table Id String

/-- The problems of one run. -/
structure Report where
  configHash : String := ""
  formatVersion : Int := 0
  /-- The title under which each missing id was first asked for. -/
  misses : Table Id String := .empty
  /-- Items of an unknown kind, each with its tag. -/
  unsupported : Table Id String := .empty
  collisions : List Collision := []

namespace Report

/-- Records a reference to an id that is nowhere; the first one counts. -/
def addMiss (r : Report) (id : Id) (title : String) : Report :=
  { r with misses := r.misses.insertNew id title }

/-- Records an item of an unknown kind, once. -/
def addUnsupported (r : Report) (id : Id) (tag : String) : Report :=
  { r with unsupported := r.unsupported.insertNew id tag }

/-- Records a clash. -/
def addCollision (r : Report) (c : Collision) : Report :=
  { r with collisions := r.collisions ++ [c] }

/-- The counts of a report on one line. -/
def summary (r : Report) : String :=
  s!"{r.misses.size} unresolved references, {r.unsupported.size} unsupported items, " ++
    s!"{r.collisions.length} name collisions"

/-- The misses, in the order of their ids. -/
def sortedMisses (r : Report) : List (Id × String) :=
  r.misses.entries.mergeSort fun a b => a.1 ≤ b.1

def record (fields : List (String × String)) : Value :=
  .object (fields.map fun f => (f.1, .str f.2))

def collisionValue (c : Collision) : Value :=
  .object [("directory", .str c.directory), ("name", .str c.name),
    ("resolved", record c.resolved.entries)]

def count (n : Nat) : Value := .int n

/-- The report as a value, with some more entries about the run. -/
def toValueWith (r : Report) (run : List (String × Value)) : Value :=
  .object [
    ("meta", .object (run ++ [("config_hash", .str r.configHash),
      ("format_version", .int r.formatVersion)])),
    ("misses", .list (r.sortedMisses.map fun m => record [("item_id", m.1), ("title", m.2)])),
    ("unsupported",
      .list (r.unsupported.entries.map fun u => record [("item_id", u.1), ("tag", u.2)])),
    ("collisions", .list (r.collisions.map collisionValue)),
    ("stats", .object [("misses", count r.misses.size),
      ("unsupported", count r.unsupported.size),
      ("collisions", count r.collisions.length)])]

/-- The report as a value, without the times of the run. -/
def toValue (r : Report) : Value := r.toValueWith []

/-- The report as a value, with the time of day and the duration of the run in seconds. -/
def stamped (r : Report) (time duration : Float) : Value :=
  r.toValueWith [("timestamp", .float time), ("duration", .float duration)]

/-- The source of the warnings of a report. -/
def warningSource : String := "rustdoc_md.conversion_report"

def warning (source message : String) : String := "WARNING " ++ source ++ ": " ++ message

def collisionWarning (c : Collision) : String :=
  let names := c.resolved.values.mergeSort fun a b => a ≤ b
  warning warningSource <|
    "Name collision for " ++ c.name ++ " in " ++
      (if c.directory.isEmpty then "/" else c.directory) ++ " resolved as " ++
      ", ".intercalate names

/-- The warnings of a run: one for each clash, then one for each unknown kind. -/
def warnings (r : Report) : List String :=
  r.collisions.map collisionWarning ++ r.unsupported.values.eraseDups.map fun tag =>
    warning warningSource ("Unsupported item kind " ++ Text.quoted tag ++
      " rendered as placeholder")

end Report

end CrateBook
