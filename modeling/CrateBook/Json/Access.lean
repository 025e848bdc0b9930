import CrateBook.Fault
import CrateBook.Table
import CrateBook.Text.Lines
import CrateBook.Text.Number

/-!
# Reading values by their parts

Exports are read leniently: a missing member reads as null, and null reads as empty. Where
a value has another kind than a rule needs, the rule fails with a fault that says what the
value lacks.
-/
namespace CrateBook.Value

/-- A member of an object, null where it is missing; other values have no members. -/
def field (v : Value) (k : String) : Checked Value :=
  match v with
  | object ms => .ok ((ms.lookup k).getD null)
  | _ => .error .noSuchField

/-- The object itself; a value that holds nothing reads as the empty object. -/
def orObject (v : Value) : Value := v.orElse (object [])

def members (v : Value) : Checked (List (String × Value)) :=
  match v with
  | object ms => .ok ms
  | _ => .error .noSuchField

/-- What a value runs through: a list's elements, a text's characters, an object's keys. -/
def elements (v : Value) : Checked (List Value) :=
  match v with
  | list xs => .ok xs
  | str s => .ok ((Text.characters s).map str)
  | object ms => .ok (ms.map fun m => str m.1)
  | _ => .error .wrongKind

/-- What a value runs through; a value that holds nothing runs through nothing. -/
def elementsOrNone (v : Value) : Checked (List Value) :=
  if v.isSet then v.elements else .ok []

/-- The text occurs in the value: as a key, as an element, as a part of the text. -/
def mentions (v : Value) (k : String) : Checked Bool :=
  match v with
  | object ms => .ok (ms.lookup k).isSome
  | list xs => .ok (xs.any fun | str s => s == k | _ => false)
  | str s => .ok (Text.occursIn k s)
  | _ => .error .wrongKind

/-- The member of an object that must be there. -/
def member (v : Value) (k : String) : Checked Value :=
  match v with
  | object ms =>
    match ms.lookup k with
    | some w => .ok w
    | none => .error .noSuchKey
  | _ => .error .wrongKind

/-- The element at a place of a list, the character at a place of a text. -/
def element (v : Value) (i : Nat) : Checked Value :=
  match v with
  | list xs =>
    match xs[i]? with
    | some w => .ok w
    | none => .error .outOfRange
  | str s =>
    match (Text.characters s)[i]? with
    | some c => .ok (str c)
    | none => .error .outOfRange
  | object _ => .error .noSuchKey
  | _ => .error .wrongKind

/-- A float cut to a whole number. -/
def truncate (x : Float) : Checked Int :=
  if x.isNaN then .error .notANumber
  else if x.isInf then .error .unbounded
  else
    let bits := x.toBits.toNat
    let b := Decimal.Binary.ofBits (bits % Decimal.signBit)
    let r := Decimal.Ratio.scaled b.mantissa b.exponent
    let n : Int := Int.ofNat (r.num / r.den)
    .ok (if bits / Decimal.signBit = 1 then -n else n)

/-- The whole number that a value gives. -/
def toInt (v : Value) : Checked Int :=
  match v with
  | int n => .ok n
  | bool b => .ok (if b then 1 else 0)
  | float x => truncate x
  | str s =>
    match Text.readInt? s with
    | some n => .ok n
    | none => .error .notANumber
  | _ => .error .wrongKind

end CrateBook.Value
