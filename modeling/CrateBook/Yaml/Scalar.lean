/-!
# Plain scalars

A plain scalar of YAML 1.1 may be read as a truth value, a number, a timestamp, null, or a
key with a meaning of its own; any other one is text. A writer quotes a text that would be
read as something else.
-/
namespace CrateBook.Yaml

/-- What a plain scalar is read as. -/
inductive Kind where
  | bool
  | float
  | int
  | merge
  | null
  | timestamp
  | default
  | indicator
  | text
deriving DecidableEq, Repr

def isDigit (c : Char) : Bool := '0' ≤ c && c ≤ '9'

def isDigitOrLow (c : Char) : Bool := isDigit c || c == '_'

def trueWords : List String := ["yes", "Yes", "YES", "true", "True", "TRUE", "on", "On", "ON"]

def falseWords : List String :=
  ["no", "No", "NO", "false", "False", "FALSE", "off", "Off", "OFF"]

def nullWords : List String := ["~", "null", "Null", "NULL", ""]

/-- The text behind a sign that may be left out. -/
def dropSign : List Char → List Char
  | '-' :: cs => cs
  | '+' :: cs => cs
  | cs => cs

/-- A count of digits, and nothing behind them. -/
def digitsOnly (least most : Nat) (cs : List Char) : Bool :=
  cs.all isDigit && least ≤ cs.length && cs.length ≤ most

/-- One or more parts to base sixty, each behind a colon; the text behind them. -/
def sixtieths? : List Char → Option (List Char)
  | ':' :: a :: b :: rest =>
    if isDigit a && isDigit b then
      if a ≤ '5' then
        match rest with
        | ':' :: _ => sixtieths? rest
        | _ => some rest
      else none
    else if isDigit a then
      match b, rest with
      | ':', _ => sixtieths? (b :: rest)
      | _, _ => some (b :: rest)
    else none
  | [':', a] => if isDigit a then some [] else none
  | _ => none

def isExponent : List Char → Bool
  | [] => true
  | e :: s :: ds =>
    (e == 'e' || e == 'E') && (s == '-' || s == '+') && !ds.isEmpty && ds.all isDigit
  | _ => false

def isFloat (cs : List Char) : Bool :=
  let body := dropSign cs
  let whole := body.takeWhile isDigitOrLow
  let rest := body.dropWhile isDigitOrLow
  let plain := match whole, rest with
    | d :: _, '.' :: more => isDigit d && isExponent (more.dropWhile isDigitOrLow)
    | _, _ => false
  let point := match cs with
    | '.' :: d :: more => isDigit d && isExponent (more.dropWhile isDigitOrLow)
    | _ => false
  let sixty := match whole, sixtieths? rest with
    | d :: _, some ('.' :: more) => isDigit d && more.all isDigitOrLow
    | _, _ => false
  plain || point || sixty ||
    [".inf", ".Inf", ".INF"].contains (String.ofList body) ||
    [".nan", ".NaN", ".NAN"].contains (String.ofList cs)

def isHexOrLow (c : Char) : Bool :=
  isDigitOrLow c || ('a' ≤ c && c ≤ 'f') || ('A' ≤ c && c ≤ 'F')

/-- A whole number, to base two, eight, ten, sixteen or sixty. -/
def isInt (cs : List Char) : Bool :=
  match dropSign cs with
  | '0' :: 'b' :: more => !more.isEmpty && more.all fun c => c == '0' || c == '1' || c == '_'
  | '0' :: 'x' :: more => !more.isEmpty && more.all isHexOrLow
  | '0' :: more => more.all fun c => ('0' ≤ c && c ≤ '7') || c == '_'
  | d :: more =>
    ('1' ≤ d && d ≤ '9') &&
      match more.dropWhile isDigitOrLow with
      | [] => true
      | rest => sixtieths? rest == some []
  | [] => false

def isSpaceOrTab (c : Char) : Bool := c == ' ' || c == '\t'

/-- The time zone of a written time: none, the zone without an offset, or an offset's sign,
hours and minutes. -/
inductive ZoneText where
  | missing
  | zero
  | offset (negative : Bool) (hours minutes : List Char)
deriving DecidableEq, Repr

/-- The parts of a written time of day. -/
structure ClockText where
  hour : List Char
  minute : List Char
  second : List Char
  fraction : List Char
  zone : ZoneText
deriving DecidableEq, Repr

/-- The parts of a written date, with a time of day or without one. -/
structure TimeText where
  year : List Char
  month : List Char
  day : List Char
  clock : Option ClockText
deriving DecidableEq, Repr

/-- A time zone behind blanks, or nothing at all. -/
def zone? (cs : List Char) : Option ZoneText :=
  match cs.dropWhile isSpaceOrTab with
  | [] => if cs.isEmpty then some .missing else none
  | ['Z'] => some .zero
  | s :: body =>
    let hours := body.takeWhile isDigit
    let minutes? := match body.dropWhile isDigit with
      | [] => some []
      | ':' :: ms => if digitsOnly 2 2 ms then some ms else none
      | _ => none
    if (s == '-' || s == '+') && digitsOnly 1 2 hours then
      minutes?.map (.offset (s == '-') hours)
    else none

/-- A time of day with a fraction and a zone that may be left out. -/
def clock? (cs : List Char) : Option ClockText :=
  match cs.takeWhile isDigit, cs.dropWhile isDigit with
  | hs, ':' :: m1 :: m2 :: ':' :: s1 :: s2 :: rest =>
    let (fraction, rest) := match rest with
      | '.' :: more => (more.takeWhile isDigit, more.dropWhile isDigit)
      | _ => ([], rest)
    if digitsOnly 1 2 hs && [m1, m2, s1, s2].all isDigit then
      (zone? rest).map fun z => ⟨hs, [m1, m2], [s1, s2], fraction, z⟩
    else none
  | _, _ => none

/-- A date, or a date with a time of day behind a letter or blanks. -/
def time? (cs : List Char) : Option TimeText :=
  match cs.takeWhile isDigit, cs.dropWhile isDigit with
  | ys, '-' :: rest =>
    match rest.takeWhile isDigit, rest.dropWhile isDigit with
    | ms, '-' :: rest =>
      let ds := rest.takeWhile isDigit
      let clock? : Option (Option ClockText) := match rest.dropWhile isDigit with
        | [] => some none
        | 't' :: time => (clock? time).map some
        | 'T' :: time => (clock? time).map some
        | c :: time =>
          if isSpaceOrTab c then (clock? (time.dropWhile isSpaceOrTab)).map some else none
      if digitsOnly 4 4 ys && digitsOnly 1 2 ms && digitsOnly 1 2 ds then
        clock?.map (⟨ys, ms, ds, ·⟩)
      else none
    | _, _ => none
  | _, _ => none

/-- A date, or a date with a time of day. A date alone has all its digits. -/
def isTimestamp (cs : List Char) : Bool :=
  (time? cs).any fun t => t.clock.isSome || (t.month.length == 2 && t.day.length == 2)

/-- The text without a line feed at its end. -/
def dropFinalBreak (cs : List Char) : List Char :=
  if cs.getLast? == some '\n' then cs.dropLast else cs

/-- The indicators that no plain scalar starts with. -/
def indicatorWords : List String := ["!", "&", "*"]

/-- What a plain scalar is read as. A line feed at its end does not count. -/
def kindOf (s : String) : Kind :=
  let cs := dropFinalBreak s.toList
  let word := String.ofList cs
  if s == "\n" then .text
  else if trueWords.contains word || falseWords.contains word then .bool
  else if isFloat cs then .float
  else if isInt cs then .int
  else if word == "<<" then .merge
  else if nullWords.contains word then .null
  else if isTimestamp cs then .timestamp
  else if word == "=" then .default
  else if indicatorWords.contains word then .indicator
  else .text

end CrateBook.Yaml
