import CrateBook.Text.Blank
import CrateBook.Text.Digit

/-!
# Numbers written in a text

A whole number may stand between blanks, carry a sign, be written in the digits of any
script, and have single underscores between its digits. A number of more than 4300 digits
is neither read nor written, to a base that is no power of two.
-/
namespace CrateBook.Text

/-- The longest run of decimal digits that is read as a number, or written. -/
def maxDigits : Nat := 4300

/-- A character of a number as ASCII has it: digits of other scripts become ASCII digits,
and wider blanks become spaces. -/
def plainChar (c : Char) : Char :=
  if c.toNat < 0x80 then c
  else if isBlank c then ' '
  else ((decimal? c).map fun d => Char.ofNat (0x30 + d)).getD c

/-- One of the blanks that may stand around a number. -/
def isNumberBlank (c : Char) : Bool := c == ' ' || (9 ≤ c.toNat && c.toNat ≤ 13)

/-- The text of a number in ASCII, without the blanks around it. -/
def plainNumber (cs : List Char) : List Char := dropAround isNumberBlank (cs.map plainChar)

/-- Whether there is a minus in front of a number, and the number behind its sign. -/
def signed (cs : List Char) : Bool × List Char :=
  match cs with
  | '-' :: rest => (true, rest)
  | '+' :: rest => (false, rest)
  | rest => (false, rest)

/-- A number with its sign. -/
def withSign (negative : Bool) (n : Nat) : Int := if negative then -(n : Int) else n

/-- Digits with single underscores between them, the underscores taken out. -/
def ungrouped? : List Char → Option (List Char)
  | [] => none
  | [c] => if isDecimal c then some [c] else none
  | c :: '_' :: rest => if isDecimal c then (ungrouped? rest).map (c :: ·) else none
  | c :: rest => if isDecimal c then (ungrouped? rest).map (c :: ·) else none

/-- The number that a text without sign and blanks writes. -/
def readNat? (cs : List Char) : Option Nat := do
  let ds ← ungrouped? cs
  if ds.length ≤ maxDigits then decimalValue? ds else none

/-- The whole number that a text writes. -/
def readInt? (s : String) : Option Int :=
  let (negative, cs) := signed (plainNumber s.toList)
  (readNat? cs).map (withSign negative)

/-- The value of an ASCII letter or digit as a digit. -/
def digitValue? (c : Char) : Option Nat :=
  if '0' ≤ c ∧ c ≤ '9' then some (c.toNat - 0x30)
  else if 'a' ≤ c ∧ c ≤ 'z' then some (c.toNat - 0x61 + 10)
  else if 'A' ≤ c ∧ c ≤ 'Z' then some (c.toNat - 0x41 + 10)
  else none

/-- The letters that tell a base behind a zero. -/
def baseLetters : Nat → List Char
  | 2 => ['b', 'B']
  | 8 => ['o', 'O']
  | 16 => ['x', 'X']
  | _ => []

/-- The digits of a number to a base, without the zero and letter that tell the base. -/
def dropBase (base : Nat) : List Char → List Char
  | '0' :: c :: rest => if (baseLetters base).contains c then rest else '0' :: c :: rest
  | cs => cs

/-- The number that digits to a base write. -/
def natToBase? (base : Nat) (cs : List Char) : Option Nat :=
  if cs.isEmpty then none
  else cs.foldl
    (fun n? c => n?.bind fun n =>
      ((digitValue? c).filter (· < base)).map (base * n + ·)) (some 0)

/-- The whole number that a text writes to a base of two, eight or sixteen. -/
def readIntToBase? (base : Nat) (s : String) : Option Int :=
  let (negative, cs) := signed (plainNumber s.toList)
  (natToBase? base (dropBase base cs)).map (withSign negative)

/-- A number in so many digits at least. -/
def padded (width n : Nat) : String :=
  let ds := Nat.toDigits 10 n
  String.ofList (List.replicate (width - ds.length) '0' ++ ds)

/-- The whole number has few enough digits to be written. -/
def isWritable (n : Int) : Bool := (toString n.natAbs).length ≤ maxDigits

end CrateBook.Text
