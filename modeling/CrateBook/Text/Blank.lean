/-!
# Blank characters

The characters that trimming removes and that separate words: the ASCII controls from tab
to carriage return and from file to unit separator, the space, the next-line control, and
the wider Unicode spaces and separators.
-/
namespace CrateBook.Text

def isBlank (c : Char) : Bool :=
  let n := c.toNat
  (9 ≤ n && n ≤ 13) || (28 ≤ n && n ≤ 32) || n == 0x85 || n == 0xA0 || n == 0x1680 ||
    (0x2000 ≤ n && n ≤ 0x200A) || n == 0x2028 || n == 0x2029 || n == 0x202F ||
    n == 0x205F || n == 0x3000

/-- Drops characters from the end while they satisfy `p`. -/
def dropBack (p : Char → Bool) (cs : List Char) : List Char :=
  (cs.reverse.dropWhile p).reverse

/-- Drops characters from both ends while they satisfy `p`. -/
def dropAround (p : Char → Bool) (cs : List Char) : List Char :=
  dropBack p (cs.dropWhile p)

/-- The text without the characters `p` at its start and end. -/
def trimBy (p : Char → Bool) (s : String) : String := String.ofList (dropAround p s.toList)

/-- The text without the blanks at its start and end. -/
def trim (s : String) : String := trimBy isBlank s

/-- The text without the blanks at its end. -/
def trimEnd (s : String) : String := String.ofList (dropBack isBlank s.toList)

/-- The text without a given character at its end. -/
def trimEndChar (c : Char) (s : String) : String := String.ofList (dropBack (· == c) s.toList)

end CrateBook.Text
