import CrateBook.Json.Value

/-!
# Writing JSON

A style says how a value is laid out: on one line without spaces or indented, with the
members in their order or sorted by key, and with characters beyond ASCII as they are or
as escapes.
-/
namespace CrateBook.Json

/-- How JSON is laid out. -/
structure Style where
  /-- Spaces for each level; none puts all on one line. -/
  indent : Option Nat
  sortKeys : Bool
  asciiOnly : Bool

/-- One line without spaces, keys sorted, ASCII only. -/
def Style.canonical : Style := ⟨none, true, true⟩

/-- Two spaces for each level, all characters as they are. -/
def Style.readable : Style := ⟨some 2, false, false⟩

/-- Two spaces for each level, ASCII only. -/
def Style.portable : Style := ⟨some 2, false, true⟩

/-- The words for the floats that no decimal writes. -/
def floatWords : Decimal.Words := ⟨"NaN", "Infinity"⟩

/-- An escape of a sixteen-bit unit. -/
def unitEscape (n : Nat) : List Char := '\\' :: 'u' :: Text.hex 4 n

def stringChar (asciiOnly : Bool) (c : Char) : List Char :=
  if c = '"' ∨ c = '\\' then ['\\', c]
  else if c = '\n' then ['\\', 'n']
  else if c = '\r' then ['\\', 'r']
  else if c = '\t' then ['\\', 't']
  else if c = '\x08' then ['\\', 'b']
  else if c = '\x0c' then ['\\', 'f']
  else if c.toNat < 0x20 then unitEscape c.toNat
  else if !asciiOnly || c.toNat < 0x7F then [c]
  else if c.toNat < 0x10000 then unitEscape c.toNat
  else
    let n := c.toNat - 0x10000
    unitEscape (0xD800 + n / 1024) ++ unitEscape (0xDC00 + n % 1024)

def quote (asciiOnly : Bool) (s : String) : String :=
  String.ofList ('"' :: s.toList.flatMap (stringChar asciiOnly) ++ ['"'])

/-- A line break and the blanks of a level, where the style has lines. -/
def Style.newline (st : Style) (level : Nat) : String :=
  match st.indent with
  | none => ""
  | some n => "\n" ++ String.ofList (List.replicate (n * level) ' ')

/-- What stands between a key and its value. -/
def Style.colon (st : Style) : String := if st.indent.isSome then ": " else ":"

/-- Parts between brackets, each on a line of its own where the style has lines. -/
def Style.enclose (st : Style) (level : Nat) (open_ close : String) (parts : List String) :
    String :=
  if parts.isEmpty then open_ ++ close
  else open_ ++ st.newline (level + 1) ++ ("," ++ st.newline (level + 1)).intercalate parts ++
    st.newline level ++ close

/-- Members in the style's order. -/
def Style.arrange (st : Style) {α : Type} (ms : List (String × α)) : List (String × α) :=
  if st.sortKeys then ms.mergeSort fun a b => a.1 ≤ b.1 else ms

mutual

def renderAt (st : Style) (level : Nat) : Value → String
  | .null => "null"
  | .bool true => "true"
  | .bool false => "false"
  | .int n => toString n
  | .float x => Decimal.text floatWords x
  | .str s => quote st.asciiOnly s
  | .list xs => st.enclose level "[" "]" (renderElements st (level + 1) xs)
  | .object ms =>
    let parts := (st.arrange (renderMembers st (level + 1) ms)).map fun m =>
      quote st.asciiOnly m.1 ++ st.colon ++ m.2
    st.enclose level "\x7b" "\x7d" parts

def renderElements (st : Style) (level : Nat) : List Value → List String
  | [] => []
  | v :: vs => renderAt st level v :: renderElements st level vs

/-- The members of an object, each key with its written value. -/
def renderMembers (st : Style) (level : Nat) :
    List (String × Value) → List (String × String)
  | [] => []
  | (k, v) :: ms => (k, renderAt st level v) :: renderMembers st level ms

end

def render (st : Style) (v : Value) : String := renderAt st 0 v

end CrateBook.Json
