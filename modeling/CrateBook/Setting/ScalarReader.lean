import CrateBook.Json.Reader
import CrateBook.Setting.Basic
import CrateBook.Text.Number
import CrateBook.Yaml.Node

/-!
# Scalars of a configuration file

The value of a scalar by its tag. Numbers may have underscores between their digits, and
parts to base sixty behind colons.
-/
namespace CrateBook.Scalar

open Yaml (ReadFault)

/-! ## Numbers -/

/-- A whole number to base ten. -/
def decimal (cs : List Char) : Except ReadFault Int :=
  match Text.readInt? (String.ofList cs) with
  | some n => .ok n
  | none => .error .notANumber

/-- A whole number to another base. -/
def toBase (base : Nat) (cs : List Char) : Except ReadFault Int :=
  match Text.readIntToBase? base (String.ofList cs) with
  | some n => .ok n
  | none => .error .notANumber

/-- A whole number, its underscores and its sign left out. -/
def wholeOf (cs : List Char) : Except ReadFault Int :=
  match cs with
  | [] => .error .noDigits
  | ['0'] => .ok 0
  | '0' :: 'b' :: ds => toBase 2 ds
  | '0' :: 'x' :: ds => toBase 16 ds
  | '0' :: ds => toBase 8 ('0' :: ds)
  | cs => do
    let parts ← (Text.splitChars ':' cs).mapM decimal
    return parts.foldl (fun n p => 60 * n + p) 0

/-- A whole number. -/
def readInt (s : String) : Except ReadFault Scalar := do
  let cs := s.toList.filter (· != '_')
  if cs.isEmpty then .error .noDigits
  else
    let (negative, body) := Text.signed cs
    let n ← wholeOf body
    return .int (if negative then -n else n)

/-- The words for the floats that are no decimals. -/
def floatNames : List (String × Float) := [("inf", 1 / 0), ("infinity", 1 / 0), ("nan", 0 / 0)]

/-- A decimal without a sign. -/
def decimalFloat (cs : List Char) : Except ReadFault Float :=
  let (whole, rest) := cs.span Char.isDigit
  let (fraction, rest) := match rest with
    | '.' :: more => more.span Char.isDigit
    | _ => ([], rest)
  let exponent? : Option Int := match rest with
    | [] => some 0
    | _ => match Json.exponent? rest with
      | some (e, []) => some e
      | _ => none
  match exponent? with
  | some e =>
    if whole.isEmpty && fraction.isEmpty then .error .notANumber
    else .ok (Json.floatOf false (Json.digitsValue (whole ++ fraction)) (e - fraction.length))
  | none => .error .notANumber

/-- A float between blanks, with a sign. -/
def floatOf (cs : List Char) : Except ReadFault Float := do
  let (negative, body) := Text.signed (Text.plainNumber cs)
  let x ← match floatNames.lookup (String.ofList body) with
    | some x => pure x
    | none => decimalFloat body
  return if negative then -x else x

/-- The most parts to base sixty that a float can have: the unit of one more is beyond all
floats. -/
def maxParts : Nat := 174

/-- The sum of parts to base sixty, the lowest one first. -/
def sixtieths (parts : List Float) : Float :=
  (parts.foldl (fun (acc : Float × Nat) p =>
    (acc.1 + p * Json.floatOf false acc.2 0, acc.2 * 60)) (0, 1)).1

/-- A float without its sign. -/
def unsignedFloat (body : List Char) : Except ReadFault Float :=
  if body == ".inf".toList then .ok (1 / 0)
  else if body == ".nan".toList then .ok (0 / 0)
  else if body.contains ':' then do
    let parts ← (Text.splitChars ':' body).mapM floatOf
    if maxParts < parts.length then .error .unbounded
    else return sixtieths parts.reverse
  else floatOf body

/-- The text of a float: small letters, and no underscores. -/
def floatChars (s : String) : List Char := (s.toList.filter (· != '_')).map Char.toLower

def readFloat (s : String) : Except ReadFault Scalar := do
  let cs := floatChars s
  if cs.isEmpty then .error .noDigits
  else
    let (negative, body) := Text.signed cs
    let x ← unsignedFloat body
    return .float (if negative then -x else x)

/-- The text is the word for the one float that is no number. -/
def isNanWord (s : String) : Bool := (Text.signed (floatChars s)).2 == ".nan".toList

/-! ## Words and times -/

/-- The words for truth values, in small letters. -/
def truthWords : List (String × Bool) :=
  [("yes", true), ("no", false), ("true", true), ("false", false), ("on", true), ("off", false)]

/-- A truth value. -/
def readBool (s : String) : Except ReadFault Scalar :=
  match truthWords.lookup (String.ofList (s.toList.map Char.toLower)) with
  | some b => .ok (.bool b)
  | none => .error .noSuchWord

/-- The offset of a written time zone, which has to be less than a day. -/
def zoneOf : Yaml.ZoneText → Except ReadFault (Option Int)
  | .missing => .ok none
  | .zero => .ok (some 0)
  | .offset negative hours minutes =>
    let total : Int := 60 * Json.digitsValue hours + Json.digitsValue minutes
    if 1440 ≤ total then .error .notANumber
    else .ok (some (if negative then -total else total))

/-- The millionth parts of a second that a fraction writes; further digits are left out. -/
def microOf (fraction : List Char) : Nat :=
  let ds := fraction.take 6
  Json.digitsValue (ds ++ List.replicate (6 - ds.length) '0')

/-- The value of a written date or time. -/
def timeOf (t : Yaml.TimeText) : Except ReadFault Scalar := do
  let zone ← (t.clock.map fun c => zoneOf c.zone).getD (.ok none)
  match Date.of? (Json.digitsValue t.year) (Json.digitsValue t.month) (Json.digitsValue t.day),
    t.clock with
  | none, _ => .error .notANumber
  | some d, none => return .date d
  | some d, some c =>
    let m : Moment :=
      ⟨d, Json.digitsValue c.hour, Json.digitsValue c.minute, Json.digitsValue c.second,
        microOf c.fraction, zone⟩
    if 24 ≤ m.hour ∨ 60 ≤ m.minute ∨ 60 ≤ m.second then .error .notANumber
    else return .moment m

/-- A date, or a date with a time of day. -/
def readTime (s : String) : Except ReadFault Scalar :=
  match Yaml.time? (Yaml.dropFinalBreak s.toList) with
  | some t => timeOf t
  | none => .error .notATime

/-! ## Bytes -/

/-- The sixty-four digits of bytes in text form. -/
def sixBitDigits : List Char :=
  "ABCDEFGHIJKLMNOPQRSTUVWXYZabcdefghijklmnopqrstuvwxyz0123456789+/".toList

/-- Bytes from digits of six bits. `place` counts the digits since the last whole group of
four, and `buffer` holds the bits that no byte has used yet. Characters that are no digits
are passed over. -/
def sixBits (place buffer : Nat) : List Char → Except ReadFault (List UInt8)
  | [] => if place = 0 then .ok [] else .error .malformed
  | c :: cs =>
    match sixBitDigits.findIdx? (· == c) with
    | some d =>
      let all := buffer * 64 + d
      match place with
      | 0 => sixBits 1 d cs
      | 1 => do return (all / 16).toUInt8 :: (← sixBits 2 (all % 16) cs)
      | 2 => do return (all / 4).toUInt8 :: (← sixBits 3 (all % 4) cs)
      | _ => do return all.toUInt8 :: (← sixBits 0 0 cs)
    | none =>
      if c == '=' then
        if place = 3 then .ok []
        else if place = 2 &&
            (cs.filter fun d => d == '=' || sixBitDigits.contains d).head? == some '=' then .ok []
        else sixBits place buffer cs
      else sixBits place buffer cs

/-- Bytes in text form. -/
def readBytes (s : String) : Except ReadFault Scalar := do
  if s.toList.all fun c => c.toNat < 128 then return .bytes (← sixBits 0 0 s.toList)
  else .error .malformed

def tagNames : List String := ["null", "bool", "int", "float", "timestamp", "binary", "str"]

/-- The value of a scalar by the short name of its tag; only some tags have one. -/
def read (name text : String) : Except ReadFault Scalar :=
  match name with
  | "null" => .ok .null
  | "bool" => readBool text
  | "int" => readInt text
  | "float" => readFloat text
  | "timestamp" => readTime text
  | "binary" => readBytes text
  | "str" => .ok (.str text)
  | _ => .error .malformed

end CrateBook.Scalar
