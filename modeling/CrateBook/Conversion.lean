import CrateBook.Navigation.Sidebar
import CrateBook.Navigation.Site
import CrateBook.Report

/-!
# Conversions

A conversion makes the documents, the navigation and the report of a package. The report is
what the notes of all documents come to: a reference that was asked for counts as a miss if
its id is in no table.
-/
namespace CrateBook

namespace Site

/-- The report before the first page: the clashes of the layout. -/
def startReport (s : Site) : Report :=
  { configHash := s.options.configHash
    formatVersion := s.source.package.formatVersion
    collisions := s.collisions }

/-- Enters a note into a report. A miss without a title goes by its id. -/
def enter (s : Site) (r : Report) : Note → Report
  | .asked id title =>
    match s.locate id with
    | .missing => r.addMiss id (if title.isEmpty then id else title)
    | .target _ => r
  | .unsupported id tag => r.addUnsupported id tag
  | _ => r

/-- Enters several notes. -/
def enterAll (s : Site) (r : Report) (notes : List Note) : Report := notes.foldl s.enter r

end Site

/-- What a package is converted to. -/
structure Conversion where
  site : Site
  documents : List Document
  navigation : Navigation
  report : Report

namespace Conversion

def package (c : Conversion) : String := c.site.source.package.name

/-- The sidebars of the modules below the root. -/
def sidebars (c : Conversion) : Table String Navigation := c.navigation.sidebars

end Conversion

/-- Converts a package. -/
def Export.convert (x : Export) (o : Options) : Checked Conversion := do
  let s ← Site.plan x o
  let written := s.documents
  let documents ← written.result
  return ⟨s, documents, s.navigation documents, s.enterAll s.startReport written.notes⟩

end CrateBook
