import CrateBook.Fault
import CrateBook.Setting.Number
import CrateBook.Setting.Time
import CrateBook.Text.Lines

/-!
# Settings

The values that a configuration file can hold. A mapping lists its entries in order, and
its keys are scalars of any kind. Two scalars are the same key if they are equal; truth
values, whole numbers and floats are compared as numbers.
-/
namespace CrateBook

/-- A value without parts; it can be a key. -/
inductive Scalar where
  | null
  | bool (b : Bool)
  | int (n : Int)
  | float (x : Float)
  | str (s : String)
  | date (d : Date)
  | moment (m : Moment)
  | bytes (bs : List UInt8)

/-- A value of a configuration. -/
inductive Setting where
  | scalar (s : Scalar)
  | list (xs : List Setting)
  | mapping (entries : List (Scalar × Setting))
  | set (keys : List Scalar)
  | pair (first second : Setting)
  /-- A value that contains itself. It has no end, and is known by the word for its kind and
  by its literal form, in which it stands for itself as three points. -/
  | endless (kind literal : String)
deriving Inhabited

namespace Scalar

/-- The number that a scalar is; a truth value is one or zero. -/
def number? : Scalar → Option Number
  | bool b => some ⟨if b then 1 else 0, 1⟩
  | int n => some ⟨n, 1⟩
  | float x => some (Number.ofFloat x)
  | _ => none

/-- The scalars are the same key. What is no number is equal to nothing. -/
def sameKey (a b : Scalar) : Bool :=
  match a.number?, b.number? with
  | some m, some n => m.same n
  | some _, none => false
  | none, some _ => false
  | none, none =>
    match a, b with
    | null, null => true
    | str s, str t => s == t
    | date d, date e => d == e
    | moment m, moment n => m.same n
    | bytes s, bytes t => s == t
    | _, _ => false

/-- The scalar holds something. Null, false, zero and what is empty do not. -/
def isSet : Scalar → Bool
  | null => false
  | bool b => b
  | int n => n != 0
  | float x => x != 0
  | str s => !s.isEmpty
  | date _ => true
  | moment _ => true
  | bytes bs => !bs.isEmpty

/-- One byte between quotes of the given kind. -/
def quotedByte (quote : Char) (b : UInt8) : List Char :=
  let c := Char.ofNat b.toNat
  if c = quote ∨ c = '\\' then ['\\', c]
  else if c = '\n' then ['\\', 'n']
  else if c = '\r' then ['\\', 'r']
  else if c = '\t' then ['\\', 't']
  else if 0x20 ≤ b.toNat ∧ b.toNat < 0x7F then [c]
  else '\\' :: 'x' :: Text.hex 2 b.toNat

def quotedBytes (bs : List UInt8) : String :=
  let q := Text.quoteFor (bs.map fun b => Char.ofNat b.toNat)
  String.ofList ('b' :: q :: bs.flatMap (quotedByte q) ++ [q])

/-- The literal form of a scalar: a text is quoted. -/
def literal : Scalar → String
  | null => "None"
  | bool true => "True"
  | bool false => "False"
  | int n => toString n
  | float x => Decimal.text Value.floatWords x
  | str s => Text.quoted s
  | date d => d.literal
  | moment m => m.literal
  | bytes bs => quotedBytes bs

/-- The text of a scalar: a text, a date or a moment in its own words, any other value in its
literal form. -/
def text : Scalar → String
  | str s => s
  | date d => d.text
  | moment m => m.text
  | s => s.literal

/-- The scalar can be written: it is no whole number with too many digits. -/
def isWritable : Scalar → Bool
  | int n => Text.isWritable n
  | _ => true

/-- The word for the kind of a scalar. -/
def kind : Scalar → String
  | null => "NoneType"
  | bool _ => "bool"
  | int _ => "int"
  | float _ => "float"
  | str _ => "str"
  | date _ => "date"
  | moment _ => "datetime"
  | bytes _ => "bytes"

end Scalar

/-- The entries of a mapping. -/
abbrev Entries := List (Scalar × Setting)

namespace Entries

/-- The value of a key. -/
def find? (es : Entries) (k : Scalar) : Option Setting :=
  (List.find? (fun e => e.1.sameKey k) es).map (·.2)

/-- Gives a key a value: in its old place and form, or at the end. -/
def put (k : Scalar) (v : Setting) : Entries → Entries
  | [] => [(k, v)]
  | e :: es => if e.1.sameKey k then (e.1, v) :: es else e :: put k v es

/-- The value of a key that is a text; null where it is missing. -/
def get (es : Entries) (k : String) : Setting :=
  (find? es (.str k)).getD (.scalar .null)

end Entries

namespace Setting

def str (s : String) : Setting := scalar (.str s)

/-- A setting that is a truth value. -/
def bool (b : Bool) : Setting := scalar (.bool b)

def null : Setting := scalar .null

/-- A mapping whose keys are texts. -/
def record (entries : List (String × Setting)) : Setting :=
  mapping (entries.map fun e => (.str e.1, e.2))

def isSet : Setting → Bool
  | scalar s => s.isSet
  | list xs => !xs.isEmpty
  | mapping es => !es.isEmpty
  | set ks => !ks.isEmpty
  | pair _ _ => true
  | endless _ _ => true

/-- The setting itself where it holds something, else another one. -/
def orElse (v w : Setting) : Setting := if v.isSet then v else w

/-- The word for the kind of a setting. -/
def kind : Setting → String
  | scalar s => s.kind
  | list _ => "list"
  | mapping _ => "dict"
  | set _ => "set"
  | pair _ _ => "tuple"
  | endless kind _ => kind

/-- The literal form of a set. -/
def setLiteral (ks : List Scalar) : String :=
  if ks.isEmpty then "set()"
  else "\x7b" ++ ", ".intercalate (ks.map Scalar.literal) ++ "\x7d"

mutual

/-- The literal form of a setting: texts are quoted, lists and mappings bracketed. -/
def literal : Setting → String
  | scalar s => s.literal
  | list xs => "[" ++ ", ".intercalate (literals xs) ++ "]"
  | mapping es => "\x7b" ++ ", ".intercalate (entryLiterals es) ++ "\x7d"
  | set ks => setLiteral ks
  | pair a b => "(" ++ literal a ++ ", " ++ literal b ++ ")"
  | endless _ text => text

/-- The literal forms of several settings. -/
def literals : List Setting → List String
  | [] => []
  | v :: vs => literal v :: literals vs

/-- The literal forms of a mapping's entries. -/
def entryLiterals : List (Scalar × Setting) → List String
  | [] => []
  | (k, v) :: es => (k.literal ++ ": " ++ literal v) :: entryLiterals es

end

mutual

/-- All that the setting holds can be written. -/
def isWritable : Setting → Bool
  | scalar s => s.isWritable
  | list xs => areWritable xs
  | mapping es => areEntriesWritable es
  | set ks => ks.all Scalar.isWritable
  | pair a b => isWritable a && isWritable b
  | endless _ _ => true

def areWritable : List Setting → Bool
  | [] => true
  | v :: vs => isWritable v && areWritable vs

def areEntriesWritable : List (Scalar × Setting) → Bool
  | [] => true
  | (k, v) :: es => k.isWritable && isWritable v && areEntriesWritable es

end

/-- The text of a setting: a scalar's own text, and the literal form of what has parts. -/
def text : Setting → String
  | scalar s => s.text
  | v => v.literal

/-- The text of a setting that holds something, else another text. -/
def textOr (v : Setting) (other : String) : String := if v.isSet then v.text else other

/-- The entry of a mapping for a key that is a text; null where it is missing. -/
def field (v : Setting) (k : String) : Checked Setting :=
  match v with
  | mapping es => .ok (Entries.get es k)
  | _ => .error .noSuchField

/-- The mapping itself; a setting that holds nothing reads as the empty mapping. -/
def orMapping (v : Setting) : Setting := v.orElse (mapping [])

def entries (v : Setting) : Checked Entries :=
  match v with
  | mapping es => .ok es
  | _ => .error .noSuchField

/-- What a setting runs through: a list's elements, a text's characters, the keys of a
mapping or set. -/
def elements (v : Setting) : Checked (List Setting) :=
  match v with
  | list xs => .ok xs
  | mapping es => .ok (es.map fun e => scalar e.1)
  | set ks => .ok (ks.map scalar)
  | pair a b => .ok [a, b]
  | scalar (.str s) => .ok ((Text.characters s).map str)
  | scalar (.bytes bs) => .ok (bs.map fun b => scalar (.int b.toNat))
  | _ => .error .wrongKind

/-- What a setting runs through; one that holds nothing runs through nothing. -/
def elementsOrNone (v : Setting) : Checked (List Setting) :=
  if v.isSet then v.elements else .ok []

mutual

def ofValue : Value → Setting
  | .null => null
  | .bool b => bool b
  | .int n => scalar (.int n)
  | .float x => scalar (.float x)
  | .str s => str s
  | .list xs => list (ofValues xs)
  | .object ms => mapping (ofMembers ms)

def ofValues : List Value → List Setting
  | [] => []
  | v :: vs => ofValue v :: ofValues vs

def ofMembers : List (String × Value) → List (Scalar × Setting)
  | [] => []
  | (k, v) :: ms => (.str k, ofValue v) :: ofMembers ms

end

end Setting

end CrateBook
