import CrateBook.Link
import CrateBook.Markdown

/-!
# Segments

Text with links in it is a row of segments. It can be written as plain text, for code
blocks, or as Markdown with the literal text escaped.
-/
namespace CrateBook

/-- A literal text, or a name with a link. -/
inductive Segment where
  | text (s : String)
  | link (name href : String)
deriving DecidableEq, Repr

/-- How segments are written. -/
inductive Markup where
  | plain
  | markdown
deriving DecidableEq, Repr

namespace Segment

def plain : Segment → String
  | text s => s
  | link name _ => name

def markdown : Segment → String
  | text s => Markdown.escape s
  | link name href => "[" ++ Markdown.escape name ++ "](" ++ href ++ ")"

def write : Markup → Segment → String
  | .plain, s => s.plain
  | .markdown, s => s.markdown

def writeAll (m : Markup) (segments : List Segment) : String :=
  String.join (segments.map (write m))

/-- One literal text. -/
def lit (s : String) : List Segment := [text s]

/-- Rows of segments with a literal text between them. -/
def joined (sep : String) : List (List Segment) → List Segment
  | [] => []
  | [r] => r
  | r :: rs => r ++ lit sep ++ joined sep rs

end Segment

end CrateBook
