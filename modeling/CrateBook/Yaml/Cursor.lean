import CrateBook.Yaml.Character
import CrateBook.Yaml.Token

/-!
# A place in a YAML text

A cursor is what is left of a text, with the line and column of its first character. A byte
order mark takes no column.
-/
namespace CrateBook.Yaml

/-- What is left of a text, and where that is. -/
structure Cursor where
  rest : List Char
  index : Nat := 0
  line : Nat := 0
  column : Nat := 0

namespace Cursor

/-- The cursor behind one character. -/
def advance (c : Cursor) : Cursor :=
  match c.rest with
  | [] => c
  | ch :: rest =>
    if isBreak ch then ⟨rest, c.index + 1, c.line + 1, 0⟩
    else if ch == '\uFEFF' then ⟨rest, c.index + 1, c.line, c.column⟩
    else ⟨rest, c.index + 1, c.line, c.column + 1⟩

/-- The cursor behind several characters. -/
def advanceBy : Nat → Cursor → Cursor
  | 0, c => c
  | n + 1, c => advanceBy n c.advance

def peek? (c : Cursor) : Option Char := c.rest.head?

/-- A character with the property stands at the cursor. -/
def sees (c : Cursor) (p : Char → Bool) : Bool := c.rest.head?.any p

def atEnd (c : Cursor) : Bool := c.rest.isEmpty

def atLineEnd (c : Cursor) : Bool := c.rest.head?.all isBreak

/-- The characters with a property at the cursor, and the cursor behind them. -/
def takeWhile (c : Cursor) (p : Char → Bool) : List Char × Cursor :=
  let cs := c.rest.takeWhile p
  (cs, c.advanceBy cs.length)

/-- The cursor behind the characters with a property. -/
def skipWhile (c : Cursor) (p : Char → Bool) : Cursor := (c.takeWhile p).2

/-- The break at the cursor as it is read, and the cursor behind it; nothing elsewhere. -/
def lineBreak (c : Cursor) : List Char × Cursor :=
  match c.rest with
  | [] => ([], c)
  | ch :: _ =>
    if ch == '\u2028' || ch == '\u2029' then ([ch], c.advance)
    else if isBreak ch then (['\n'], c.advance)
    else ([], c)

/-- The text ends here, or goes on with a gap. -/
def endsOrGap : List Char → Bool
  | [] => true
  | ch :: _ => isGap ch

/-- A marker between documents stands at the cursor. -/
def atMarker (c : Cursor) : Bool :=
  match c.rest with
  | '-' :: '-' :: '-' :: rest => endsOrGap rest
  | '.' :: '.' :: '.' :: rest => endsOrGap rest
  | _ => false

/-- The cursor behind blanks and a comment, which must be all that the line still holds. -/
def finishLine (c : Cursor) : Except ReadFault Cursor :=
  let c := c.skipWhile isSpace
  let c := if c.sees (· == '#') then c.skipWhile fun ch => !isBreak ch else c
  if c.atLineEnd then .ok c.lineBreak.2 else .error .malformed

end Cursor

end CrateBook.Yaml
