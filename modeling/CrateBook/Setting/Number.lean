import CrateBook.Decimal.Shortest

/-!
# Numbers of any kind

Truth values, whole numbers and floats are compared by what they amount to, without rounding.
A number is a quotient. Over zero stand the two infinities and what is no number, which is
neither equal to nor less than anything.
-/
namespace CrateBook

/-- A quotient. Over zero, one and minus one are the infinities, and zero is no number. -/
structure Number where
  num : Int
  den : Nat
deriving DecidableEq, Repr

namespace Number

/-- The quotient that a float is. -/
def ofFloat (x : Float) : Number :=
  if x.isNaN then ⟨0, 0⟩
  else if x.isInf then ⟨if x < 0 then -1 else 1, 0⟩
  else
    let bits := x.toBits.toNat
    let b := Decimal.Binary.ofBits (bits % Decimal.signBit)
    let r := Decimal.Ratio.scaled b.mantissa b.exponent
    ⟨if bits / Decimal.signBit = 1 then -(r.num : Int) else (r.num : Int), r.den⟩

def isProper (m : Number) : Bool := m.num != 0 || m.den != 0

def same (m n : Number) : Bool :=
  m.isProper && n.isProper &&
    if m.den = 0 ∧ n.den = 0 then m.num == n.num else m.num * n.den == n.num * m.den

def lt (m n : Number) : Bool :=
  m.isProper && n.isProper &&
    if m.den = 0 ∧ n.den = 0 then m.num < n.num else m.num * n.den < n.num * m.den

theorem same_comm (m n : Number) : m.same n = n.same m := by
  unfold same
  rw [Bool.and_comm m.isProper]
  by_cases h : m.den = 0 ∧ n.den = 0
  · rw [if_pos h, if_pos h.symm, Bool.beq_comm]
  · rw [if_neg h, if_neg (fun g => h g.symm), Bool.beq_comm]

end Number

end CrateBook
