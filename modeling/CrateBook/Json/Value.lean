import CrateBook.Decimal.Shortest
import CrateBook.Text.Quoted

/-!
# Document values

A document is a tree of values. An object lists its members in order, each key once. Whole
numbers and floats are told apart, and whole numbers have any size.
-/
namespace CrateBook

/-- A value of a document. -/
inductive Value where
  | null
  | bool (b : Bool)
  | int (n : Int)
  | float (x : Float)
  | str (s : String)
  | list (xs : List Value)
  | object (members : List (String × Value))
deriving Inhabited

namespace Value

/-- The value holds something. Null, false, zero and what is empty do not. -/
def isSet : Value → Bool
  | null => false
  | bool b => b
  | int n => n != 0
  | float x => x != 0
  | str s => !s.isEmpty
  | list xs => !xs.isEmpty
  | object ms => !ms.isEmpty

def isNull : Value → Bool
  | null => true
  | _ => false

/-- The value itself where it holds something, else another one. -/
def orElse (v w : Value) : Value := if v.isSet then v else w

/-- How a text names the floats that are no numbers. -/
def floatWords : Decimal.Words := ⟨"nan", "inf"⟩

mutual

/-- The literal form of a value: texts are quoted, lists and objects bracketed. -/
def literal : Value → String
  | null => "None"
  | bool true => "True"
  | bool false => "False"
  | int n => toString n
  | float x => Decimal.text floatWords x
  | str s => Text.quoted s
  | list xs => "[" ++ ", ".intercalate (literals xs) ++ "]"
  | object ms => "\x7b" ++ ", ".intercalate (memberLiterals ms) ++ "\x7d"

/-- The literal forms of several values. -/
def literals : List Value → List String
  | [] => []
  | v :: vs => literal v :: literals vs

/-- The literal forms of an object's members. -/
def memberLiterals : List (String × Value) → List String
  | [] => []
  | (k, v) :: ms => (Text.quoted k ++ ": " ++ literal v) :: memberLiterals ms

end

/-- The text of a value: a text stands for itself, any other value for its literal form. -/
def text : Value → String
  | str s => s
  | v => v.literal

/-- The text of a value that holds something, else another text. -/
def textOr (v : Value) (other : String) : String := if v.isSet then v.text else other

/-- The text of a value that holds something. -/
def text? (v : Value) : Option String := if v.isSet then some v.text else none

end Value

end CrateBook
