/-!
# Sets of characters given by ranges

Unicode properties are tables of ranges of code points. Membership is one pass over the
table; every table of this library lists its ranges in ascending order.
-/
namespace CrateBook.Text

/-- The code point is in one of the ranges, both ends included. -/
def inRanges (table : List (Nat × Nat)) (n : Nat) : Bool :=
  table.any fun r => r.1 ≤ n && n ≤ r.2

end CrateBook.Text
