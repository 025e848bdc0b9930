import CrateBook.Text.Number

/-!
# Dates and moments

A date is a day of the calendar. A moment is a time of day on a date, to the microsecond,
with the offset of its time zone where it has one. Two moments with offsets are equal if
they are the same instant.
-/
namespace CrateBook

open Text (padded)

/-- A day of the calendar. -/
structure Date where
  year : Nat
  month : Nat
  day : Nat
deriving DecidableEq, Repr

namespace Date

def isLeap (year : Nat) : Bool := year % 4 == 0 && (year % 100 != 0 || year % 400 == 0)

/-- How many days a month has. -/
def daysOf (year month : Nat) : Nat :=
  if month == 2 then if isLeap year then 29 else 28
  else if [4, 6, 9, 11].contains month then 30
  else 31

/-- The date of a year, month and day, if there is one. -/
def of? (year month day : Nat) : Option Date :=
  if year = 0 ∨ month = 0 ∨ 12 < month ∨ day = 0 ∨ daysOf year month < day then none
  else some ⟨year, month, day⟩

/-- How many days there are from the start of year one up to a date. -/
def number (d : Date) : Nat :=
  let y := d.year - 1
  (List.range (d.month - 1)).foldl (fun n m => n + daysOf d.year (m + 1))
    (365 * y + y / 4 - y / 100 + y / 400 + d.day)

def text (d : Date) : String := padded 4 d.year ++ "-" ++ padded 2 d.month ++ "-" ++ padded 2 d.day

/-- The parts of the literal form. -/
def parts (d : Date) : List Nat := [d.year, d.month, d.day]

/-- The literal form of a date. -/
def literal (d : Date) : String :=
  "datetime.date(" ++ ", ".intercalate (d.parts.map toString) ++ ")"

end Date

/-- A time of day on a date. -/
structure Moment where
  date : Date
  hour : Nat
  minute : Nat
  second : Nat
  micro : Nat
  /-- The offset of the time zone in minutes. -/
  zone : Option Int
deriving DecidableEq, Repr

namespace Moment

/-- The offset of a time zone as text. -/
def zoneText (z : Int) : String :=
  (if z < 0 then "-" else "+") ++ padded 2 (z.natAbs / 60) ++ ":" ++ padded 2 (z.natAbs % 60)

/-- The moment as text: a fraction or an offset only where it has one. -/
def text (m : Moment) : String :=
  m.date.text ++ " " ++ padded 2 m.hour ++ ":" ++ padded 2 m.minute ++ ":" ++
    padded 2 m.second ++ (if m.micro == 0 then "" else "." ++ padded 6 m.micro) ++
    (m.zone.map zoneText).getD ""

/-- The literal form of a time zone: an offset in whole days, rounded down, and seconds. -/
def zoneLiteral (z : Int) : String :=
  if z = 0 then "datetime.timezone.utc"
  else
    let days := if z < 0 then "days=-1, " else ""
    let seconds := ((if z < 0 then z + 1440 else z) * 60).toNat
    "datetime.timezone(datetime.timedelta(" ++ days ++ "seconds=" ++ toString seconds ++ "))"

/-- The parts of the literal form: seconds and their fraction are left out if they are zero. -/
def parts (m : Moment) : List Nat :=
  m.date.parts ++ [m.hour, m.minute] ++
    (if m.micro != 0 then [m.second, m.micro]
    else if m.second != 0 then [m.second]
    else [])

/-- The literal form of a moment. -/
def literal (m : Moment) : String :=
  "datetime.datetime(" ++ ", ".intercalate (m.parts.map toString) ++
    (m.zone.map fun z => ", tzinfo=" ++ zoneLiteral z).getD "" ++ ")"

/-- The minutes from the start of year one up to a moment with an offset, seen from the zone
without one. -/
def minutes (m : Moment) (z : Int) : Int := 1440 * m.date.number + 60 * m.hour + m.minute - z

/-- The moments are one instant, or, without offsets, one time of one day. -/
def same (m n : Moment) : Bool :=
  match m.zone, n.zone with
  | some y, some z =>
    m.minutes y == n.minutes z && m.second == n.second && m.micro == n.micro
  | none, none => m == n
  | _, _ => false

end Moment

end CrateBook
