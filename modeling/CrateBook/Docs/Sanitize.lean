import CrateBook.Docs.Fence
import CrateBook.Text.Letter
import CrateBook.Text.Lines

/-!
# Docs for site generators

Fenced blocks of Rust code are labelled as such and lose their hidden lines. Block-level
HTML is put on lines of its own, with empty lines around it, so that a site generator reads
it as HTML.
-/
namespace CrateBook.Docs

/-- A line that opens or closes a fenced block. -/
structure FenceLine where
  indent : List Char
  marker : List Char
  /-- The info string behind the marker. -/
  info : List Char

/-- The fence that a whole line is made of, behind blanks. -/
def fenceLine? (line : List Char) : Option FenceLine :=
  let indent := line.takeWhile Text.isBlank
  match line.dropWhile Text.isBlank with
  | [] => none
  | c :: rest =>
    if c = '\x60' ∨ c = '~' then
      let marker := c :: rest.takeWhile (· == c)
      let info := rest.dropWhile (· == c)
      if 3 ≤ marker.length ∧ endsLine info then some ⟨indent, marker, info⟩ else none
    else none

/-- The line closes the fenced block that a marker has opened. -/
def closes (marker line : List Char) : Bool :=
  (fenceLine? line).any fun f => marker.isPrefixOf f.marker

/-- The HTML tags that start a block. -/
def blockTags : List String := ["details", "summary", "div", "table", "pre", "blockquote"]

/-- The words behind a fence that leave the block Rust code. -/
def rustWords : List String :=
  ["rust", "ignore", "no_run", "should_panic", "compile_fail", "edition2015", "edition2018",
   "edition2021", "edition2024", "test_harness", "allow_fail"]

/-- Parts of a text between separators, the empty ones left out; `part` is the part that is
still open. -/
def wordsBy (sep : Char → Bool) (part : List Char) : List Char → List (List Char)
  | [] => if part.isEmpty then [] else [part]
  | c :: rest =>
    if sep c then
      if part.isEmpty then wordsBy sep [] rest else part :: wordsBy sep [] rest
    else wordsBy sep (part ++ [c]) rest

/-- A fenced block with this info string is Rust code. -/
def isRust (info : List Char) : Bool :=
  (wordsBy (fun c => c == ',' || Text.isBlank c) [] info).all fun w =>
    rustWords.contains (String.ofList w)

def isTagChar (c : Char) : Bool := c.isAlphanum

/-- The block-level tag that a trimmed line starts with. -/
def blockTag? (line : List Char) : Option (List Char) :=
  match line with
  | '<' :: rest =>
    let tag := rest.takeWhile isTagChar
    match tag, rest.dropWhile isTagChar with
    | t :: _, c :: _ =>
      if t.isAlpha && (Text.isBlank c || c == '>' || c == '/') &&
          blockTags.contains (String.ofList (tag.map Char.toLower)) then some tag
      else none
    | _, _ => none
  | _ => none

/-- The tag that closes a block. -/
def closingTag (tag : List Char) : List Char := '<' :: '/' :: tag ++ ['>']

def holds (part : List Char) (cs : List Char) : Bool := (Text.cutAt? part cs).isSome

def isBlankLine (cs : List Char) : Bool := cs.all Text.isBlank

/-- A text cut at its tags, the tags on their own; `part` is the text before, `rest` starts
behind it. With one unit of fuel for each character. -/
def cutTags : Nat → List Char → List Char → List (List Char)
  | 0, part, _ => [part]
  | _ + 1, part, [] => [part]
  | fuel + 1, part, c :: rest =>
    if c = '<' then
      match rest.dropWhile (· != '>') with
      | '>' :: after =>
        part :: ('<' :: rest.takeWhile (· != '>') ++ ['>']) :: cutTags fuel [] after
      | _ => [part ++ c :: rest]
    else cutTags fuel (part ++ [c]) rest

/-- The tags of a line and the texts between them, each on its own line. -/
def splitTags (line : List Char) : List (List Char) :=
  (cutTags (line.length + 1) [] line).filter fun p => !isBlankLine p

/-- Where a line stands. -/
inductive Place where
  | prose
  | fence (marker : List Char) (rust : Bool)
  | html (closing : List Char)

/-- What is written for a line of a fenced block. A hidden line of Rust code goes, and a
doubled number sign becomes a single one. -/
def codeLine (rust : Bool) (line : List Char) : List (List Char) :=
  let stripped := Text.dropAround Text.isBlank line
  if rust then
    match stripped with
    | ['#'] => []
    | '#' :: ' ' :: _ => []
    | '#' :: '#' :: more =>
      [line.takeWhile Text.isBlank ++ '#' :: more ++
        (line.reverse.takeWhile Text.isBlank).reverse]
    | _ => [line]
  else [line]

def openingLine (f : FenceLine) (line : List Char) : List Char :=
  if isRust f.info then f.indent ++ f.marker ++ "rust".toList else line

/-- An empty line in front of what follows, unless there is one or the text ends. -/
def gapBefore (rest : List (List Char)) : List (List Char) :=
  match rest with
  | [] => []
  | l :: _ => if isBlankLine l then [] else [[]]

/-- Where the line behind a line stands. -/
def Place.after (place : Place) (line : List Char) : Place :=
  let stripped := Text.dropAround Text.isBlank line
  match place with
  | .fence marker _ => if closes marker line then .prose else place
  | .html closing => if holds closing stripped then .prose else place
  | .prose =>
    match fenceLine? line with
    | some f => .fence f.marker (isRust f.info)
    | none =>
      match blockTag? stripped with
      | some tag =>
        if holds (closingTag tag) stripped then .prose else .html (closingTag tag)
      | none => .prose

/-- What is written for a line of a block of HTML: its tags and texts, with empty lines
around the block. `opened` tells that the line opens the block, `closed` that it closes
it. -/
def htmlLines (opened closed : Bool) (last stripped : List Char) (rest : List (List Char)) :
    List (List Char) :=
  (if opened && !isBlankLine last then [[]] else []) ++ splitTags stripped ++
    (if closed then gapBefore rest else [])

/-- What is written for a line at a place; `last` is the line that was written last, and
`rest` are the lines to come. -/
def writtenFor (place : Place) (last line : List Char) (rest : List (List Char)) :
    List (List Char) :=
  let stripped := Text.dropAround Text.isBlank line
  match place with
  | .fence marker rust => if closes marker line then [line] else codeLine rust line
  | .html closing =>
    if holds closing stripped then htmlLines false true last stripped rest else [stripped]
  | .prose =>
    match fenceLine? line with
    | some f => [openingLine f line]
    | none =>
      match blockTag? stripped with
      | some tag => htmlLines true (holds (closingTag tag) stripped) last stripped rest
      | none => [line]

/-- Sanitizes lines from a place on; `last` is the line that was written last. -/
def sanitizeFrom (place : Place) (last : List Char) : List (List Char) → List (List Char)
  | [] => []
  | line :: rest =>
    let out := writtenFor place last line rest
    out ++ sanitizeFrom (place.after line) (out.getLastD last) rest

def sanitizeLines (ls : List (List Char)) : List (List Char) := sanitizeFrom .prose [] ls

def sanitize (docs : String) : String :=
  String.ofList (Text.dropAround Text.isBlank
    (joinLines (sanitizeLines (Text.splitLines docs.toList))))

end CrateBook.Docs
