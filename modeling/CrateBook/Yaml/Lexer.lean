import CrateBook.Text.Number
import CrateBook.Yaml.ScalarText

/-!
# Cutting a YAML text into tokens

Indentation opens and closes blocks. Whether a scalar is a key shows only at the colon
behind it, so the last place where a key may have started is kept for each level of
brackets; the colon must follow on the same line, at most 1024 characters on. A text is cut
no further than its reader needs: tokens wait in a queue, and one is ready as soon as no
colon behind it can put another token in front of it.
-/
namespace CrateBook.Yaml

/-- A place where a key may have started. -/
structure KeyPlace where
  /-- How many tokens of the text come before it. -/
  before : Nat
  /-- A colon must follow. -/
  required : Bool
  index : Nat
  line : Nat
  column : Nat

/-- A text that is being cut. -/
structure Lexer where
  cursor : Cursor
  /-- The tokens that wait to be taken. -/
  tokens : List Token := []
  /-- How many tokens have been taken. -/
  taken : Nat := 0
  /-- The indentation of the innermost block; none is open at `-1`. -/
  indent : Int := -1
  /-- The indentations of the blocks around it. -/
  outer : List Int := []
  /-- A key may start here. -/
  allowsKey : Bool := true
  /-- The place of a key at this level of brackets. -/
  place : Option KeyPlace := none
  /-- The places of keys at the levels around it, one for each bracket that is open. -/
  places : List (Option KeyPlace) := []
  /-- The whole text has been cut. -/
  done : Bool := false

namespace Lexer

/-- A bracket is open. -/
def inFlow (s : Lexer) : Bool := !s.places.isEmpty

def push (s : Lexer) (t : Token) : Lexer := { s with tokens := s.tokens ++ [t] }

/-- Puts a token in front of all but the first `n` ones of the text. -/
def insertAt (s : Lexer) (n : Nat) (t : Token) : Lexer :=
  let k := n - s.taken
  { s with tokens := s.tokens.take k ++ t :: s.tokens.drop k }

/-- Closes the blocks that are indented deeper than a column. -/
def unwind (s : Lexer) (column : Int) : Lexer :=
  if s.inFlow then s
  else
    let closed := (s.indent :: s.outer).takeWhile (column < ·)
    match (s.indent :: s.outer).dropWhile (column < ·) with
    | [] => s
    | i :: outer =>
      { s with
        tokens := s.tokens ++ List.replicate closed.length .blockEnd
        indent := i
        outer := outer }

/-- Forgets the place of a key; one that is required may not be forgotten. -/
def dropPlace (s : Lexer) : Except ReadFault Lexer :=
  match s.place with
  | some p => if p.required then .error .malformed else .ok { s with place := none }
  | none => .ok s

/-- Takes note that a key may start here. -/
def savePlace (s : Lexer) : Except ReadFault Lexer :=
  if s.allowsKey then do
    let s ← s.dropPlace
    let c := s.cursor
    return { s with
      place := some
        ⟨s.taken + s.tokens.length, !s.inFlow && s.indent == c.column, c.index, c.line, c.column⟩ }
  else .ok s

/-- A key that started at this place is out of reach. -/
def isStale (c : Cursor) (p : KeyPlace) : Bool := p.line != c.line || 1024 < c.index - p.index

/-- A place that is still in reach. -/
def refresh (c : Cursor) : Option KeyPlace → Except ReadFault (Option KeyPlace)
  | none => .ok none
  | some p =>
    if isStale c p then if p.required then .error .malformed else .ok none
    else .ok (some p)

/-- Forgets the places that are out of reach. -/
def dropStale (s : Lexer) : Except ReadFault Lexer := do
  let place ← refresh s.cursor s.place
  let places ← s.places.mapM (refresh s.cursor)
  return { s with place, places }

/-- Skips blanks, comments and line breaks. Outside brackets a new line may start a key. -/
def skipGap : Nat → Lexer → Lexer
  | 0, s => s
  | n + 1, s =>
    let c := s.cursor.skipWhile isSpace
    let c := if c.sees (· == '#') then c.skipWhile fun ch => !isBreak ch else c
    if c.sees isBreak then
      skipGap n { s with cursor := c.lineBreak.2, allowsKey := s.allowsKey || !s.inFlow }
    else { s with cursor := c }

/-- Opens a block at a column that is deeper than the innermost one. -/
def openBlock (s : Lexer) (column : Nat) : Option Lexer :=
  if s.indent < column then
    some { s with indent := column, outer := s.indent :: s.outer }
  else none

/-- Adds a token of so many characters. -/
def take (s : Lexer) (n : Nat) (t : Token) : Lexer :=
  { s.push t with cursor := s.cursor.advanceBy n }

/-- The end of the text. -/
def finish (s : Lexer) : Except ReadFault Lexer := do
  let s ← (s.unwind (-1)).dropPlace
  return { s with allowsKey := false, places := [], done := true }

/-- A marker between documents. -/
def marker (s : Lexer) (t : Token) : Except ReadFault Lexer := do
  let s ← (s.unwind (-1)).dropPlace
  return { s.take 3 t with allowsKey := false }

def openFlow (s : Lexer) (t : Token) : Except ReadFault Lexer := do
  let s ← s.savePlace
  return { s.take 1 t with allowsKey := true, place := none, places := s.place :: s.places }

def closeFlow (s : Lexer) (t : Token) : Except ReadFault Lexer := do
  let s ← s.dropPlace
  match s.places with
  | [] => .error .malformed
  | place :: places => return { s.take 1 t with allowsKey := false, place, places }

/-- A comma between brackets. -/
def flowEntry (s : Lexer) : Except ReadFault Lexer := do
  let s ← s.dropPlace
  return { s.take 1 .flowEntry with allowsKey := true }

/-- Opens a block of a kind at the cursor, outside brackets, where an entry may start. -/
def startBlock (s : Lexer) (t : Token) : Except ReadFault Lexer :=
  if s.inFlow then .ok s
  else if s.allowsKey then .ok ((s.openBlock s.cursor.column).elim s (·.push t))
  else .error .malformed

/-- The dash of a sequence's entry. -/
def entry (s : Lexer) : Except ReadFault Lexer := do
  let s ← s.startBlock .blockSequence
  let s ← s.dropPlace
  return { s.take 1 .entry with allowsKey := true }

/-- The question mark of a key. -/
def key (s : Lexer) : Except ReadFault Lexer := do
  let s ← s.startBlock .blockMapping
  let s ← s.dropPlace
  return { s.take 1 .key with allowsKey := !s.inFlow }

/-- The colon of a value: behind a key that started before, or by itself. -/
def value (s : Lexer) : Except ReadFault Lexer :=
  match s.place with
  | some p =>
    let s := { s.insertAt p.before .key with place := none }
    let s :=
      if s.inFlow then s
      else (s.openBlock p.column).elim s (·.insertAt p.before .blockMapping)
    .ok { s.take 1 .value with allowsKey := false }
  | none => do
    let s ← s.startBlock .blockMapping
    let s ← s.dropPlace
    return { s.take 1 .value with allowsKey := !s.inFlow }

/-- A token that may start a key. -/
def content (s : Lexer) (read : Cursor → Except ReadFault (Token × Cursor)) :
    Except ReadFault Lexer := do
  let s ← s.savePlace
  let (t, cursor) ← read s.cursor
  return { s.push t with cursor, allowsKey := false }

/-- The name of an anchor, behind its sign. -/
def anchorName (make : String → Token) (c : Cursor) : Except ReadFault (Token × Cursor) :=
  let (name, c) := c.advance.takeWhile isNameChar
  if name.isEmpty || c.sees fun ch => !(isGap ch || "?:,]\x7d%@\x60".toList.contains ch) then
    .error .malformed
  else .ok (make (String.ofList name), c)

/-- The bytes of escapes in a tag, and the cursor behind them. -/
def tagEscapes : Nat → List UInt8 → Cursor → Except ReadFault (List UInt8 × Cursor)
  | 0, bytes, c => .ok (bytes, c)
  | n + 1, bytes, c =>
    match c.rest with
    | '%' :: rest =>
      match hexAt? 2 rest with
      | some b => tagEscapes n (bytes ++ [b.toUInt8]) (c.advanceBy 3)
      | none => .error .malformed
    | _ => .ok (bytes, c)

/-- The text of a tag behind its handle. -/
def tagText : Nat → List Char → Cursor → Except ReadFault (List Char × Cursor)
  | 0, text, c => .ok (text, c)
  | n + 1, text, c =>
    if c.sees (· == '%') then do
      let (bytes, c) ← tagEscapes (c.rest.length + 1) [] c
      match String.fromUTF8? ⟨bytes.toArray⟩ with
      | some s => tagText n (text ++ s.toList) c
      | none => .error .malformed
    else if c.sees isTagChar then tagText n (text ++ c.peek?.toList) c.advance
    else .ok (text, c)

/-- The text of a tag, which may not be empty. -/
def tagBody (c : Cursor) : Except ReadFault (String × Cursor) := do
  let (text, c) ← tagText (c.rest.length + 1) [] c
  if text.isEmpty then .error .malformed else return (String.ofList text, c)

/-- The handle of a tag: a name between exclamation marks, or a single one before a blank. -/
def tagHandle (c : Cursor) : Except ReadFault (String × Cursor) :=
  match c.rest with
  | '!' :: rest =>
    if rest.head? == some ' ' then .ok ("!", c.advance)
    else
      let name := rest.takeWhile isNameChar
      if (rest.drop name.length).head? == some '!' then
        .ok (String.ofList ('!' :: name ++ ['!']), c.advanceBy (name.length + 2))
      else .error .malformed
  | _ => .error .malformed

/-- The tag has a handle of its own: a second exclamation mark before the next blank. -/
def hasHandle (rest : List Char) : Bool :=
  (rest.takeWhile fun ch => !(ch == ' ' || isBreak ch)).contains '!'

def tag (c : Cursor) : Except ReadFault (Token × Cursor) := do
  let rest := c.advance.rest
  let (handle, suffix, c) ←
    if rest.head? == some '<' then do
      let (text, c) ← tagBody (c.advanceBy 2)
      if c.sees (· == '>') then pure (none, text, c.advance) else .error .malformed
    else if Cursor.endsOrGap rest then pure (none, "!", c.advance)
    else do
      let (handle, c) ← if hasHandle rest then tagHandle c else pure ("!", c.advance)
      let (text, c) ← tagBody c
      pure (some handle, text, c)
  if c.sees fun ch => !(ch == ' ' || isBreak ch) then .error .malformed
  else return (.tag handle suffix, c)

/-- A whole number of a version. -/
def versionPart (c : Cursor) : Except ReadFault (Nat × Cursor) :=
  let (ds, c) := c.takeWhile Char.isDigit
  if ds.isEmpty then .error .malformed
  else if Text.maxDigits < ds.length then .error .notANumber
  else .ok (ds.foldl (fun n d => 10 * n + (d.toNat - 48)) 0, c)

def versionDirective (c : Cursor) : Except ReadFault (Token × Cursor) := do
  let (major, c) ← versionPart (c.skipWhile isSpace)
  if c.sees (· == '.') then
    let (minor, c) ← versionPart c.advance
    if c.sees fun ch => !(ch == ' ' || isBreak ch) then .error .malformed
    else return (.version major minor, c)
  else .error .malformed

/-- The handle that a directive declares. -/
def tagDirective (c : Cursor) : Except ReadFault (Token × Cursor) := do
  let (handle, c) ← tagHandle (c.skipWhile isSpace)
  if c.sees isSpace then
    let (front, c) ← tagBody (c.skipWhile isSpace)
    if c.sees fun ch => !(ch == ' ' || isBreak ch) then .error .malformed
    else return (.tagHandle handle front, c)
  else .error .malformed

/-- A directive at its sign, with the rest of its line. -/
def directive (s : Lexer) : Except ReadFault Lexer := do
  let s ← (s.unwind (-1)).dropPlace
  let (name, c) := s.cursor.advance.takeWhile isNameChar
  if name.isEmpty || c.sees fun ch => !(ch == ' ' || isBreak ch) then .error .malformed
  else
    let (t, c) ← match String.ofList name with
      | "YAML" => versionDirective c
      | "TAG" => tagDirective c
      | _ => pure (.directive, c.skipWhile fun ch => !isBreak ch)
    return { s.push t with cursor := ← c.finishLine, allowsKey := false }

def quoted (isDouble : Bool) (c : Cursor) : Except ReadFault (Token × Cursor) := do
  let (text, c) ← quotedScalar isDouble c
  return (.scalar (String.ofList text) false, c)

def block (folded : Bool) (s : Lexer) : Except ReadFault Lexer := do
  let s ← s.dropPlace
  let (text, cursor) ← blockScalar folded s.indent s.cursor
  return { s.push (.scalar (String.ofList text) false) with cursor, allowsKey := true }

/-- A plain scalar. A new key may start behind it where it ends on another line. -/
def plain (s : Lexer) : Except ReadFault Lexer := do
  let s ← s.savePlace
  let (text, crossed, cursor) := plainScalar s.inFlow s.indent s.cursor
  return { s.push (.scalar (String.ofList text) true) with cursor, allowsKey := crossed }

/-- A plain scalar can start with these characters. -/
def startsPlain (inFlow : Bool) : List Char → Bool
  | [] => false
  | ch :: rest =>
    !(isGap ch || "-?:,[]\x7b\x7d#&*!|>'\"%@\x60".toList.contains ch) ||
      (!Cursor.endsOrGap rest && (ch == '-' || (!inFlow && (ch == '?' || ch == ':'))))

/-- The next token, behind gaps, at the cursor. -/
def next (s : Lexer) : Except ReadFault Lexer :=
  let c := s.cursor
  match c.rest with
  | [] => s.finish
  | ch :: rest =>
    if ch == '%' && c.column == 0 then s.directive
    else if c.column == 0 && c.atMarker then
      s.marker (if ch == '-' then .documentStart else .documentEnd)
    else if ch == '[' then s.openFlow .flowSequence
    else if ch == '\x7b' then s.openFlow .flowMapping
    else if ch == ']' then s.closeFlow .flowSequenceEnd
    else if ch == '\x7d' then s.closeFlow .flowMappingEnd
    else if ch == ',' then s.flowEntry
    else if ch == '-' && Cursor.endsOrGap rest then s.entry
    else if ch == '?' && (s.inFlow || Cursor.endsOrGap rest) then s.key
    else if ch == ':' && (s.inFlow || Cursor.endsOrGap rest) then s.value
    else if ch == '*' then s.content (anchorName .alias_)
    else if ch == '&' then s.content (anchorName .anchor)
    else if ch == '!' then s.content tag
    else if ch == '|' && !s.inFlow then s.block false
    else if ch == '>' && !s.inFlow then s.block true
    else if ch == '\'' then s.content (quoted false)
    else if ch == '"' then s.content (quoted true)
    else if startsPlain s.inFlow c.rest then s.plain
    else .error .malformed

/-- One more token, and those that it closes or opens. -/
def step (s : Lexer) : Except ReadFault Lexer := do
  let s := skipGap (s.cursor.rest.length + 1) s
  let s ← s.dropStale
  (s.unwind s.cursor.column).next

/-- More of the text is needed to know the next token. -/
def needsMore (s : Lexer) : Bool :=
  s.tokens.isEmpty || (s.place :: s.places).any fun p => p.any (·.before == s.taken)

/-- Cuts the text until the next token is known. Each step takes a character at least, until
the text ends. -/
def advance : Nat → Lexer → Except ReadFault Lexer
  | 0, s => .ok s
  | n + 1, s =>
    if s.done then .ok s
    else if s.tokens.isEmpty then do advance n (← s.step)
    else do
      let s ← s.dropStale
      if s.needsMore then advance n (← s.step) else return s

/-- The text with its next token known. -/
def ready (s : Lexer) : Except ReadFault Lexer := advance (s.cursor.rest.length + 2) s

/-- Takes the next token. -/
def pop (s : Lexer) : Lexer := { s with tokens := s.tokens.tail, taken := s.taken + 1 }

/-- A text that nothing has been cut from. -/
def ofText (cs : List Char) : Lexer where
  cursor := { rest := match cs with
    | '\uFEFF' :: rest => rest
    | cs => cs }

end Lexer

end CrateBook.Yaml
