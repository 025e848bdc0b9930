import CrateBook.Text.Blank
import CrateBook.Text.Letter
import CrateBook.Text.Lines
import CrateBook.Yaml.Writer

/-!
# Pieces of Markdown

Anchors, escaped text, code spans, tables, code blocks and front matter: the pieces that
pages are made of.
-/
namespace CrateBook.Markdown

/-- The characters of an anchor: small ASCII letters and digits. -/
def isAnchorChar (c : Char) : Bool := ('a' ≤ c && c ≤ 'z') || ('0' ≤ c && c ≤ '9')

/-- The maximal runs of anchor characters, behind a run that is still open. -/
def anchorWords (run : List Char) : List Char → List (List Char)
  | [] => if run.isEmpty then [] else [run]
  | c :: rest =>
    if isAnchorChar c then anchorWords (run ++ [c]) rest
    else if run.isEmpty then anchorWords [] rest
    else run :: anchorWords [] rest

/-- Words joined by hyphens. -/
def hyphenated : List (List Char) → List Char
  | [] => []
  | [w] => w
  | w :: ws => w ++ '-' :: hyphenated ws

/-- The anchor of a heading: its letters and digits in lower case, with a hyphen for each
run of other characters between them. A heading without letters and digits is a section. -/
def headerSlug (s : String) : String :=
  match anchorWords [] (Text.lower s).toList with
  | [] => "section"
  | ws => String.ofList (hyphenated ws)

/-- The characters that Markdown or its component syntax would interpret. -/
def isMarkup (c : Char) : Bool := "\\\x60*_[]<>|".toList.contains c

/-- A text with a backslash in front of each character of markup. -/
def escape (s : String) : String :=
  String.ofList (s.toList.flatMap fun c => if isMarkup c then ['\\', c] else [c])

/-- An inline code span. A text with backquotes gets a wider fence, one that starts or ends
with a backquote a space inside the fence. -/
def code (s : String) : String :=
  let fence := if s.toList.contains '\x60' then "\x60\x60" else "\x60"
  let pad := if Text.startsWith "\x60" s || Text.endsWith "\x60" s then " " else ""
  fence ++ pad ++ s ++ pad ++ fence

/-- A text with a backslash in front of each bar that has none; `before` is the character
in front of the text. -/
def escapeBars (before : Option Char) : List Char → List Char
  | [] => []
  | c :: rest =>
    if c = '|' ∧ before ≠ some '\\' then '\\' :: c :: escapeBars (some c) rest
    else c :: escapeBars (some c) rest

/-- A table cell: one line, with its bars escaped. -/
def cell (s : String) : String :=
  Text.trim (String.ofList (escapeBars none (Text.replaceChar '\n' ' ' s).toList))

def row (cells : List String) : String := "| " ++ " | ".intercalate cells ++ " |"

/-- A table under its header; without rows there is no table. -/
def table (headers : List String) (rows : List (List String)) : String :=
  if rows.isEmpty then ""
  else Text.joinLines
    (row headers :: row (headers.map fun _ => "---") :: rows.map fun r => row (r.map cell))

/-- A fenced code block. Code that holds a fence gets a wider one. -/
def codeBlock (lang source : String) : String :=
  let fence :=
    if Text.occursIn "\x60\x60\x60" source then "\x60\x60\x60\x60" else "\x60\x60\x60"
  fence ++ lang ++ "\n" ++ Text.trimEnd source ++ "\n" ++ fence

/-- The front matter of a page, as lines. A label that holds nothing is the title. -/
def frontMatterOf (title label : Value) : List String :=
  let text :=
    if label.isSet then Yaml.render (.object [("title", title), ("sidebar_label", label)])
    else Yaml.renderTwice "title" "sidebar_label" title
  "---" :: Text.lines (Text.trimEnd text) ++ ["---", ""]

/-- The front matter of a page with a title and a label, which may be left out. -/
def frontMatter (title : String) (label : Option String) : List String :=
  frontMatterOf (.str title) (.str (label.getD ""))

/-- The text up to the first empty line. -/
def beforeEmptyLine : List Char → List Char
  | [] => []
  | '\n' :: '\n' :: _ => []
  | c :: rest => c :: beforeEmptyLine rest

/-- The first paragraph of a text, on one line. -/
def firstParagraph (docs : String) : String :=
  let para := String.ofList (beforeEmptyLine (Text.trim docs).toList)
  Text.trim (" ".intercalate ((Text.lines para).map Text.trim))

end CrateBook.Markdown
