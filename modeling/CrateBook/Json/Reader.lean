import CrateBook.Json.Syntax
import CrateBook.Json.Value
import CrateBook.Table
import CrateBook.Text.Number

/-!
# Reading JSON

The reader takes the JSON grammar, the words for the floats that no decimal writes
included. Of several members with one key the last value counts, in the first one's place.
A fault is placed by how much of the text is left, so no function carries an offset.
-/
namespace CrateBook.Json

/-- Why reading ends: a fault of syntax before the last `left` characters, a number with too
many digits, or values nested too deep. -/
inductive Stop where
  | fault (cause : Cause) (left : Nat)
  | tooManyDigits
  | tooDeep

/-- A fault in front of the rest of a text. -/
def faultAt {α : Type} (cause : Cause) (cs : List Char) : Except Stop α :=
  .error (.fault cause cs.length)

/-- The blanks of JSON. -/
def isSpace (c : Char) : Bool := c == ' ' || c == '\t' || c == '\n' || c == '\r'

/-- The text behind the blanks at its start. -/
def skipSpace (cs : List Char) : List Char := cs.dropWhile isSpace

/-- The value of a hexadecimal digit. -/
def hexDigit? (c : Char) : Option Nat :=
  if '0' ≤ c ∧ c ≤ '9' then some (c.toNat - 48)
  else if 'a' ≤ c ∧ c ≤ 'f' then some (c.toNat - 87)
  else if 'A' ≤ c ∧ c ≤ 'F' then some (c.toNat - 55)
  else none

/-- The number of four hexadecimal digits that are not the end of the text. -/
def fourHex? : List Char → Option (Nat × List Char)
  | a :: b :: c :: d :: e :: rest => do
    let a ← hexDigit? a
    let b ← hexDigit? b
    let c ← hexDigit? c
    let d ← hexDigit? d
    some (((a * 16 + b) * 16 + c) * 16 + d, e :: rest)
  | _ => none

/-- The character that a letter behind a backslash stands for. -/
def escaped? : Char → Option Char
  | '"' => some '"'
  | '\\' => some '\\'
  | '/' => some '/'
  | 'b' => some '\x08'
  | 'f' => some '\x0c'
  | 'n' => some '\n'
  | 'r' => some '\r'
  | 't' => some '\t'
  | _ => none

/-- The number is the first half of a pair that writes one character. -/
def isHighHalf (n : Nat) : Bool := 0xD800 ≤ n && n ≤ 0xDBFF

/-- The number is the second half of such a pair. -/
def isLowHalf (n : Nat) : Bool := 0xDC00 ≤ n && n ≤ 0xDFFF

/-- The character of a number; half of a pair alone becomes the replacement character. -/
def charOf (n : Nat) : Char :=
  if n.isValidChar then Char.ofNat n else Char.ofNat 0xFFFD

/-- The character of a `u` escape, read behind the backslash and the `u`. A first half is
completed by the second one when that follows in the same form. -/
def unicodeEscape (fromU rest : List Char) : Except Stop (Char × List Char) :=
  match fourHex? rest with
  | none => faultAt .unicodeEscape fromU
  | some (n, after) =>
    match after with
    | '\\' :: 'u' :: more =>
      if isHighHalf n && 4 < more.length then
        match fourHex? more with
        | none => faultAt .unicodeEscape ('u' :: more)
        | some (low, end_) =>
          if isLowHalf low then
            .ok (charOf (0x10000 + (n - 0xD800) * 1024 + (low - 0xDC00)), end_)
          else .ok (charOf n, after)
      else .ok (charOf n, after)
    | _ => .ok (charOf n, after)

/-- The characters of a string up to its closing quote, read with one unit of fuel for each
character; `opening` is the text from the opening quote on. -/
def stringBody (opening : List Char) :
    Nat → List Char → List Char → Except Stop (String × List Char)
  | 0, _, _ => faultAt .openString opening
  | _ + 1, _, [] => faultAt .openString opening
  | fuel + 1, done, c :: rest =>
    if c = '"' then .ok (String.ofList done.reverse, rest)
    else if c = '\\' then
      match rest with
      | [] => faultAt .openString opening
      | 'u' :: more => do
        let (ch, after) ← unicodeEscape rest more
        stringBody opening fuel (ch :: done) after
      | e :: more =>
        match escaped? e with
        | some ch => stringBody opening fuel (ch :: done) more
        | none => faultAt .escape (c :: rest)
    else if c.toNat < 0x20 then faultAt .controlCharacter (c :: rest)
    else stringBody opening fuel (c :: done) rest

/-- A string, read behind its opening quote. -/
def string (rest : List Char) : Except Stop (String × List Char) :=
  stringBody ('"' :: rest) (rest.length + 1) [] rest

def isAsciiDigit (c : Char) : Bool := '0' ≤ c && c ≤ '9'

/-- The digits at the start of a text, and the rest. -/
def digits (cs : List Char) : List Char × List Char :=
  (cs.takeWhile isAsciiDigit, cs.dropWhile isAsciiDigit)

/-- The number that ASCII digits write. -/
def digitsValue (ds : List Char) : Nat := ds.foldl (fun n c => 10 * n + (c.toNat - 48)) 0

/-- A fraction: a point and digits. -/
def fraction? : List Char → Option (List Char × List Char)
  | '.' :: c :: rest =>
    if isAsciiDigit c then some (digits (c :: rest)) else none
  | _ => none

/-- An exponent: a letter, a sign that may be left out, digits. -/
def exponent? : List Char → Option (Int × List Char)
  | c :: rest =>
    if c = 'e' ∨ c = 'E' then
      let (negative, body) := match rest with
        | '-' :: r => (true, r)
        | '+' :: r => (false, r)
        | r => (false, r)
      let (ds, after) := digits body
      if ds.isEmpty then none
      else some (if negative then -(digitsValue ds : Int) else (digitsValue ds : Int), after)
    else none
  | [] => none

/-- The float nearest to `digits · 10 ^ exponent`. Exponents far beyond the range of floats
are cut, which does not change the float. -/
def floatOf (negative : Bool) (digits : Nat) (exponent : Int) : Float :=
  let size : Int := Decimal.width digits
  let x :=
    if digits = 0 then 0
    else if 400 < exponent + size then (1 / 0 : Float)
    else if exponent + size < -400 then 0
    else Float.ofScientific digits (exponent < 0) exponent.natAbs
  if negative then -x else x

/-- A number, read behind its sign. -/
def number (start : List Char) (negative : Bool) (cs : List Char) :
    Except Stop (Value × List Char) :=
  let whole : Option (List Char × List Char) := match cs with
    | '0' :: rest => some (['0'], rest)
    | c :: _ => if isAsciiDigit c then some (digits cs) else none
    | [] => none
  match whole with
  | none => faultAt .value start
  | some (ds, rest) =>
    let (fs, rest1, isFloat1) := match fraction? rest with
      | some (fs, r) => (fs, r, true)
      | none => ([], rest, false)
    let (e, rest2, isFloat2) := match exponent? rest1 with
      | some (e, r) => (e, r, true)
      | none => (0, rest1, false)
    if isFloat1 || isFloat2 then
      .ok (.float (floatOf negative (digitsValue (ds ++ fs)) (e - fs.length)), rest2)
    else if Text.maxDigits < ds.length then .error .tooManyDigits
    else .ok (.int (if negative then -(digitsValue ds : Int) else digitsValue ds), rest2)

/-- The text behind a word, where it starts with it. -/
def word? (w : String) (cs : List Char) : Option (List Char) :=
  if w.toList.isPrefixOf cs then some (cs.drop w.length) else none

def words : List (String × Value) :=
  [("null", .null), ("true", .bool true), ("false", .bool false), ("NaN", .float (0 / 0)),
   ("Infinity", .float (1 / 0)), ("-Infinity", .float (-1 / 0))]

/-- A value that holds no others. -/
def scalar (cs : List Char) : Except Stop (Value × List Char) :=
  match words.findSome? fun w => (word? w.1 cs).map fun rest => (w.2, rest) with
  | some found => .ok found
  | none =>
    match cs with
    | '-' :: rest => number cs true rest
    | _ => number cs false cs

/-- How many levels of objects and lists are read. -/
def maxDepth : Nat := 980

mutual

/-- A value at the start of a text, with room for so many levels. -/
def value (room : Nat) : Nat → List Char → Except Stop (Value × List Char)
  | 0, cs => faultAt .value cs
  | fuel + 1, cs =>
    match cs with
    | '"' :: rest => do
      let (s, after) ← string rest
      .ok (.str s, after)
    | '{' :: rest =>
      if room = 0 then .error .tooDeep
      else match skipSpace rest with
        | '}' :: after => .ok (.object [], after)
        | cs => members (room - 1) fuel [] cs
    | '[' :: rest =>
      if room = 0 then .error .tooDeep
      else match skipSpace rest with
        | ']' :: after => .ok (.list [], after)
        | cs => elements (room - 1) fuel [] cs
    | _ => scalar cs

/-- The members of an object up to its closing brace, behind members read before. -/
def members (room : Nat) :
    Nat → List (String × Value) → List Char → Except Stop (Value × List Char)
  | 0, _, cs => faultAt .value cs
  | fuel + 1, done, cs =>
    match cs with
    | '"' :: rest => do
      let (k, after) ← string rest
      match skipSpace after with
      | ':' :: after => do
        let (v, after) ← value room fuel (skipSpace after)
        match skipSpace after with
        | '}' :: after => .ok (.object (setEntry k v done), after)
        | ',' :: after => members room fuel (setEntry k v done) (skipSpace after)
        | cs => faultAt .comma cs
      | cs => faultAt .colon cs
    | cs => faultAt .propertyName cs

/-- The elements of a list up to its closing bracket, behind elements read before, the last
one first. -/
def elements (room : Nat) :
    Nat → List Value → List Char → Except Stop (Value × List Char)
  | 0, _, cs => faultAt .value cs
  | fuel + 1, done, cs => do
    let (v, after) ← value room fuel cs
    match skipSpace after with
    | ']' :: after => .ok (.list (v :: done).reverse, after)
    | ',' :: after => elements room fuel (v :: done) (skipSpace after)
    | cs => faultAt .comma cs

end

/-- A whole text as one value. Every step of the reader takes a character, so fuel for each
character, and one more, is enough. -/
def document (cs : List Char) : Except Stop Value :=
  match cs with
  | '\uFEFF' :: _ => faultAt .byteOrderMark cs
  | _ => do
    let (v, rest) ← value maxDepth (cs.length + 1) (skipSpace cs)
    match skipSpace rest with
    | [] => .ok v
    | cs => faultAt .extraData cs

/-- Why a text is not read. -/
inductive Failure where
  | syntaxFault (fault : SyntaxFault)
  | tooManyDigits
  | tooDeep

/-- The reason why reading a text ends, with the place of a fault. -/
def Stop.failure (cs : List Char) : Stop → Failure
  | .fault cause left => .syntaxFault (SyntaxFault.at cs cause (cs.length - left))
  | .tooManyDigits => .tooManyDigits
  | .tooDeep => .tooDeep

/-- Reads a JSON text. -/
def parse (s : String) : Except Failure Value :=
  let cs := s.toList
  match document cs with
  | .ok v => .ok v
  | .error stop => .error (stop.failure cs)

end CrateBook.Json
