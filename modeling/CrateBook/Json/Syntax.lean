/-!
# Faults of JSON text

What can be wrong with a JSON text, and where. A place is given by line, column and
offset, lines ending at line feeds only.
-/
namespace CrateBook.Json

/-- What is wrong at a place of a JSON text. -/
inductive Cause where
  | byteOrderMark
  | value
  | propertyName
  | colon
  | comma
  | extraData
  | openString
  | controlCharacter
  | escape
  | unicodeEscape

def Cause.message : Cause → String
  | byteOrderMark => "Unexpected UTF-8 BOM (decode using utf-8-sig)"
  | value => "Expecting value"
  | propertyName => "Expecting property name enclosed in double quotes"
  | colon => "Expecting ':' delimiter"
  | comma => "Expecting ',' delimiter"
  | extraData => "Extra data"
  | openString => "Unterminated string starting at"
  | controlCharacter => "Invalid control character at"
  | escape => "Invalid \\escape"
  | unicodeEscape => "Invalid \\uXXXX escape"

/-- A cause and its place. -/
structure SyntaxFault where
  cause : Cause
  line : Nat
  column : Nat
  offset : Nat

def SyntaxFault.at (cs : List Char) (cause : Cause) (offset : Nat) : SyntaxFault :=
  let before := cs.take offset
  ⟨cause, before.count '\n' + 1, (before.reverse.takeWhile (· ≠ '\n')).length + 1, offset⟩

def SyntaxFault.message (f : SyntaxFault) : String :=
  s!"{f.cause.message}: line {f.line} column {f.column} (char {f.offset})"

end CrateBook.Json
