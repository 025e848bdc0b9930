import CrateBook.Decimal.Shortest
import Mathlib.Algebra.Order.Field.Basic
import Mathlib.Algebra.Order.Field.Power
import Mathlib.Data.Rat.Cast.Order
import Mathlib.Tactic.FieldSimp
import Mathlib.Tactic.IntervalCases
import Mathlib.Tactic.Linarith
import Mathlib.Tactic.NormNum
import Mathlib.Tactic.Positivity
import Mathlib.Tactic.Ring

/-!
# Floats that are written

Seventeen digits are enough for a decimal that reads back as a given double, so each finite double
but zero is written with a digit that is not zero. Only the two zeros are written as zero.
-/
namespace CrateBook.Decimal

/-! ## Quotients as rational numbers -/

namespace Ratio

variable {a b : Ratio}

/-- The rational number that a quotient is. -/
def val (r : Ratio) : ℚ := r.num / r.den

/-- A quotient by a power of a base, on either side of the line. -/
theorem den_pos_and_val {base : Nat} (hbase : 0 < base) (n : Nat) (e : Int) :
    let r : Ratio := if 0 ≤ e then ⟨n * Nat.pow base e.toNat, 1⟩ else ⟨n, Nat.pow base (-e).toNat⟩
    0 < r.den ∧ r.val = n * (base : ℚ) ^ e := by
  have hne : (base : ℚ) ≠ 0 := by exact_mod_cast hbase.ne'
  dsimp only
  split
  · next he =>
    refine ⟨Nat.one_pos, ?_⟩
    obtain ⟨k, rfl⟩ := Int.eq_ofNat_of_zero_le he
    simp [val]
  · next he =>
    refine ⟨Nat.pow_pos hbase, ?_⟩
    obtain ⟨k, rfl⟩ : ∃ k : Nat, e = -(k : Int) := ⟨(-e).toNat, by omega⟩
    simp [val, div_eq_mul_inv]

theorem den_scaled_pos (n : Nat) (e : Int) : 0 < (scaled n e).den :=
  (den_pos_and_val (by decide) n e).1

theorem den_decimal_pos (n : Nat) (e : Int) : 0 < (decimal n e).den :=
  (den_pos_and_val (by decide) n e).1

theorem val_scaled (n : Nat) (e : Int) : (scaled n e).val = n * 2 ^ e :=
  (den_pos_and_val (by decide) n e).2

theorem val_decimal (n : Nat) (e : Int) : (decimal n e).val = n * 10 ^ e :=
  (den_pos_and_val (by decide) n e).2

theorem lt_iff (ha : 0 < a.den) (hb : 0 < b.den) : a.lt b = true ↔ a.val < b.val := by
  have ha' : (0 : ℚ) < a.den := by exact_mod_cast ha
  have hb' : (0 : ℚ) < b.den := by exact_mod_cast hb
  rw [lt, decide_eq_true_eq, val, val, div_lt_div_iff₀ ha' hb']
  exact_mod_cast Iff.rfl

theorem num_pos (h : 0 < a.val) : 0 < a.num := by
  by_contra hzero
  rw [val, Nat.eq_zero_of_not_pos hzero, Nat.cast_zero, zero_div] at h
  exact lt_irrefl _ h

/-- How often one quotient goes into another. -/
theorem floor_bounds (ha : 0 < a.den) (hb : 0 < b.den) (hpos : 0 < b.num) :
    ((a.num * b.den / (a.den * b.num) : Nat) : ℚ) * b.val ≤ a.val ∧
      a.val < ((a.num * b.den / (a.den * b.num) + 1 : Nat) : ℚ) * b.val := by
  have ha' : (0 : ℚ) < a.den := by exact_mod_cast ha
  have hb' : (0 : ℚ) < b.den := by exact_mod_cast hb
  have hle := Nat.mul_div_le (a.num * b.den) (a.den * b.num)
  have hlt := Nat.lt_mul_div_succ (a.num * b.den) (Nat.mul_pos ha hpos)
  generalize a.num * b.den / (a.den * b.num) = q at hle hlt
  rw [val, val, ← mul_div_assoc, ← mul_div_assoc, div_le_div_iff₀ hb' ha', div_lt_div_iff₀ ha' hb']
  constructor
  · calc (q : ℚ) * b.num * a.den = ((a.den * b.num * q : Nat) : ℚ) := by push_cast; ring
      _ ≤ ((a.num * b.den : Nat) : ℚ) := by exact_mod_cast hle
      _ = a.num * b.den := by push_cast; ring
  · calc (a.num : ℚ) * b.den = ((a.num * b.den : Nat) : ℚ) := by push_cast; ring
      _ < ((a.den * b.num * (q + 1) : Nat) : ℚ) := by exact_mod_cast hlt
      _ = ((q + 1 : Nat) : ℚ) * b.num * a.den := by push_cast; ring

theorem width_bounds {n : Nat} (hn : 0 < n) : 10 ^ (width n - 1) ≤ n ∧ n < 10 ^ width n := by
  have hwidth : 0 < width n := List.length_pos_iff.2 Nat.toDigits_ne_nil
  have hiff {k : Nat} (hk : 0 < k) : width n ≤ k ↔ n < 10 ^ k :=
    Nat.length_toDigits_le_iff (by decide) hk
  refine ⟨?_, (hiff hwidth).1 (Nat.le_refl _)⟩
  by_contra hlt
  rcases Nat.eq_zero_or_pos (width n - 1) with hzero | hpos
  · rw [hzero] at hlt
    omega
  · have := (hiff hpos).2 (by omega)
    omega

/-- The magnitude of a quotient bounds it from below. -/
theorem le_of_magnitude (hnum : 0 < a.num) (hden : 0 < a.den) :
    (10 : ℚ) ^ (a.magnitude - 1) ≤ a.val := by
  have hden' : (0 : ℚ) < a.den := by exact_mod_cast hden
  unfold magnitude
  dsimp only
  split
  · have hlow : (10 : ℚ) ^ (width a.num - 1) ≤ a.num := by exact_mod_cast (width_bounds hnum).1
    have hhigh : (a.den : ℚ) ≤ 10 ^ width a.den := by exact_mod_cast (width_bounds hden).2.le
    have hwidth : 0 < width a.num := List.length_pos_iff.2 Nat.toDigits_ne_nil
    calc (10 : ℚ) ^ ((width a.num : Int) - width a.den - 1)
        = 10 ^ (width a.num - 1) / 10 ^ width a.den := by
          rw [← zpow_natCast, ← zpow_natCast, ← zpow_sub₀ (by norm_num)]
          congr 1
          omega
      _ ≤ a.num / 10 ^ width a.den := by gcongr
      _ ≤ a.num / a.den := by gcongr
  · next hlt =>
    rw [lt_iff hden (den_decimal_pos _ _), val_decimal, not_lt, Nat.cast_one, one_mul] at hlt
    rwa [add_sub_cancel_right]

end Ratio

/-! ## Seventeen digits -/

namespace Binary

variable {b : Binary} {x : Ratio}

/-- How far below a double the decimals still read back, in quarters of its last bit: half as
far as above where the double below is nearer. -/
def below (b : Binary) : Nat := if b.mantissa = leadingBit ∧ -1074 < b.exponent then 1 else 2

theorem reads_of_between (hx : 0 < x.den)
    (hlow : ((4 * b.mantissa - b.below : Nat) : ℚ) * 2 ^ (b.exponent - 2) < x.val)
    (hhigh : x.val < ((4 * b.mantissa + 2 : Nat) : ℚ) * 2 ^ (b.exponent - 2)) :
    b.reads x = true := by
  rw [← Ratio.val_scaled] at hlow hhigh
  have hlow' := Ratio.den_scaled_pos (4 * b.mantissa - b.below) (b.exponent - 2)
  have hhigh' := Ratio.den_scaled_pos (4 * b.mantissa + 2) (b.exponent - 2)
  unfold below at hlow hlow'
  unfold reads
  dsimp only
  split
  · rw [Bool.and_eq_true, Bool.not_eq_true', Bool.not_eq_true', Bool.eq_false_iff, Ne,
      Ratio.lt_iff hx hlow', Bool.eq_false_iff, Ne, Ratio.lt_iff hhigh' hx]
    exact ⟨hlow.le.not_gt, hhigh.le.not_gt⟩
  · rw [Bool.and_eq_true, Ratio.lt_iff hlow' hx, Ratio.lt_iff hx hhigh']
    exact ⟨hlow, hhigh⟩

/-- Zero reads back as no positive double. -/
theorem reads_decimal_zero (hb : 0 < b.mantissa) (e : Int) :
    b.reads (Ratio.decimal 0 e) = false := by
  have hlow' := Ratio.den_scaled_pos (4 * b.mantissa - b.below) (b.exponent - 2)
  have hzero : (Ratio.decimal 0 e).val = 0 := by rw [Ratio.val_decimal, Nat.cast_zero, zero_mul]
  have hpos : 0 < 4 * b.mantissa - b.below := by
    unfold below
    split <;> omega
  have hlt : (Ratio.decimal 0 e).val <
      (Ratio.scaled (4 * b.mantissa - b.below) (b.exponent - 2)).val := by
    rw [hzero, Ratio.val_scaled]
    positivity
  have hbelow := (Ratio.lt_iff (Ratio.den_decimal_pos 0 e) hlow').2 hlt
  have hnot := (Ratio.lt_iff hlow' (Ratio.den_decimal_pos 0 e)).not.2 hlt.le.not_gt
  unfold below at hbelow hnot
  unfold reads
  dsimp only
  split
  · rw [hbelow]
    rfl
  · rw [Bool.eq_false_iff.2 hnot]
    rfl

theorem reads_of_ofWidth? {n : Nat} {d : Digits} (h : b.ofWidth? n = some d) :
    b.reads (Ratio.decimal d.digits d.exponent) = true := by
  unfold ofWidth? at h
  dsimp only at h
  split at h
  · next hfits =>
    rw [Bool.and_eq_true] at hfits
    split at h <;> cases h
    · exact hfits.1
    · exact hfits.2
  · split at h
    · next hlow =>
      cases h
      exact hlow
    · split at h
      · next hhigh =>
        cases h
        exact hhigh
      · cases h

theorem digits_ne_zero_of_ofWidth? (hb : 0 < b.mantissa) {n : Nat} {d : Digits}
    (h : b.ofWidth? n = some d) : d.digits ≠ 0 := by
  intro hzero
  have hreads := reads_of_ofWidth? h
  rw [hzero, reads_decimal_zero hb] at hreads
  cases hreads

/-- A double in quarters of its last bit. -/
theorem val_eq_quarters (b : Binary) :
    (Ratio.scaled b.mantissa b.exponent).val = 4 * b.mantissa * 2 ^ (b.exponent - 2) := by
  rw [Ratio.val_scaled, zpow_sub₀ (by norm_num)]
  ring

theorem below_pos (b : Binary) : 0 < b.below := by
  unfold below
  split <;> decide

theorem below_le (hb : 0 < b.mantissa) : b.below ≤ 4 * b.mantissa := by
  unfold below
  split <;> omega

/-- A unit of the seventeenth digit is less than the distance between the ends of what reads
back. -/
theorem unit_lt (hsize : b.mantissa < 2 ^ 53) {u : ℚ}
    (hu : u * 10 ^ 16 ≤ (Ratio.scaled b.mantissa b.exponent).val) :
    u < (b.below + 2) * 2 ^ (b.exponent - 2) := by
  rw [val_eq_quarters] at hu
  have hr : (0 : ℚ) < 2 ^ (b.exponent - 2) := by positivity
  generalize (2 : ℚ) ^ (b.exponent - 2) = r at hu hr ⊢
  unfold below
  split
  · next hleading =>
    rw [hleading.1] at hu
    norm_num [leadingBit] at hu ⊢
    linarith
  · have hm : (b.mantissa : ℚ) < 2 ^ 53 := by exact_mod_cast hsize
    have hmr : (b.mantissa : ℚ) * r < 2 ^ 53 * r := mul_lt_mul_of_pos_right hm hr
    norm_num at hu hmr ⊢
    linarith

/-- One of two neighbouring multiples of a small unit reads back. -/
theorem reads_of_floor (hb : 0 < b.mantissa) (hsize : b.mantissa < 2 ^ 53) {low : Nat} {e : Int}
    (hu : (10 : ℚ) ^ e * 10 ^ 16 ≤ (Ratio.scaled b.mantissa b.exponent).val)
    (hle : (low : ℚ) * 10 ^ e ≤ (Ratio.scaled b.mantissa b.exponent).val)
    (hlt : (Ratio.scaled b.mantissa b.exponent).val < ((low + 1 : Nat) : ℚ) * 10 ^ e) :
    b.reads (Ratio.decimal low e) = true ∨ b.reads (Ratio.decimal (low + 1) e) = true := by
  have hunit := unit_lt hsize hu
  have hbelow : (b.below : ℚ) ≤ 4 * b.mantissa := by exact_mod_cast below_le hb
  have hr : (0 : ℚ) < 2 ^ (b.exponent - 2) := by positivity
  have hends : ((4 * b.mantissa - b.below : Nat) : ℚ) = 4 * b.mantissa - b.below := by
    push_cast [Nat.cast_sub (below_le hb)]
    ring
  rw [val_eq_quarters] at hle hlt
  have hlow := Ratio.val_decimal low e
  have hhigh := Ratio.val_decimal (low + 1) e
  by_cases hnear : 4 * b.mantissa * 2 ^ (b.exponent - 2) - (low : ℚ) * 10 ^ e <
      b.below * 2 ^ (b.exponent - 2)
  · refine .inl (reads_of_between (Ratio.den_decimal_pos _ _) ?_ ?_)
    · rw [hlow, hends]
      linarith
    · rw [hlow]
      push_cast
      linarith
  · refine .inr (reads_of_between (Ratio.den_decimal_pos _ _) ?_ ?_)
    · rw [hhigh, hends]
      push_cast at hlt ⊢
      have hpos : (0 : ℚ) < b.below * 2 ^ (b.exponent - 2) :=
        mul_pos (by exact_mod_cast b.below_pos) hr
      linarith
    · rw [hhigh]
      push_cast at hlt ⊢
      linarith

/-- Some decimal of seventeen digits reads back. -/
theorem exists_ofWidth? (hb : 0 < b.mantissa) (hsize : b.mantissa < 2 ^ 53) :
    ∃ d, b.ofWidth? 17 = some d := by
  have hden := Ratio.den_scaled_pos b.mantissa b.exponent
  have hval : 0 < (Ratio.scaled b.mantissa b.exponent).val := by
    rw [Ratio.val_scaled]
    positivity
  have hmagnitude := Ratio.le_of_magnitude (Ratio.num_pos hval) hden
  have hunit (e : Int) : (Ratio.decimal 1 e).val = 10 ^ e := by
    rw [Ratio.val_decimal, Nat.cast_one, one_mul]
  have hfloor (e : Int) := Ratio.floor_bounds hden (Ratio.den_decimal_pos 1 e)
    (Ratio.num_pos (by rw [hunit]; positivity))
  have hsixteen (k : Int) : (10 : ℚ) ^ (k - (17 : Nat)) * 10 ^ 16 = 10 ^ (k - 1) := by
    rw [← zpow_natCast 10 16, ← zpow_add₀ (by norm_num)]
    congr 1
    omega
  have hreads := reads_of_floor hb hsize ((hsixteen _).trans_le hmagnitude) (hunit _ ▸ (hfloor _).1)
    (hunit _ ▸ (hfloor _).2)
  unfold ofWidth?
  dsimp only
  split
  · split <;> exact ⟨_, rfl⟩
  · split
    · exact ⟨_, rfl⟩
    · split
      · exact ⟨_, rfl⟩
      · next hlow hhigh => exact absurd hreads (not_or.2 ⟨hlow, hhigh⟩)

/-- The shortest decimal of a positive double is not zero. -/
theorem digits_shortest_ne_zero (hb : 0 < b.mantissa) (hsize : b.mantissa < 2 ^ 53) :
    b.shortest.digits ≠ 0 := by
  obtain ⟨d, hd⟩ := exists_ofWidth? hb hsize
  have hsome : ((List.range 17).findSome? fun n => b.ofWidth? (n + 1)).isSome := by
    rw [List.findSome?_isSome_iff]
    exact ⟨16, by decide, by rw [hd]; rfl⟩
  obtain ⟨d', hd'⟩ := Option.isSome_iff_exists.1 hsome
  obtain ⟨n, -, hn⟩ := List.exists_of_findSome?_eq_some hd'
  rw [shortest, hd']
  exact digits_ne_zero_of_ofWidth? hb hn

theorem mantissa_ofBits {bits : Nat} (hpos : 0 < bits) (hsize : bits < signBit) :
    0 < (ofBits bits).mantissa ∧ (ofBits bits).mantissa < 2 ^ 53 := by
  have hmod := Nat.mod_lt bits (by decide : 0 < leadingBit)
  have hdiv := Nat.div_add_mod bits leadingBit
  unfold ofBits
  dsimp only
  unfold signBit leadingBit at *
  split
  · next hzero =>
    dsimp only
    omega
  · dsimp only
    omega

end Binary

/-! ## Digits of a text -/

def isNumeral (c : Char) : Bool := c.isDigit || ['.', 'e', '+', '-'].contains c

theorem isNumeral_of_mem_toDigits {n : Nat} {c : Char} (h : c ∈ Nat.toDigits 10 n) :
    isNumeral c = true := by
  rw [isNumeral, Nat.isDigit_of_mem_toDigits (by decide) (by decide) h, Bool.true_or]

theorem exists_digit_ne_zero {n : Nat} (h : n ≠ 0) : ∃ c ∈ Nat.toDigits 10 n, c ≠ '0' := by
  induction n using Nat.strongRecOn with
  | ind n ih =>
    by_cases hn : n < 10
    · rw [Nat.toDigits_of_lt_base hn]
      refine ⟨n.digitChar, List.mem_singleton_self _, ?_⟩
      interval_cases n
      · exact absurd rfl h
      all_goals decide
    · obtain ⟨c, hc, hne⟩ := ih (n / 10) (by omega) (by omega)
      rw [Nat.toDigits_of_base_le (by decide) (by omega)]
      exact ⟨c, List.mem_append_left _ hc, hne⟩

/-- The text of a number that is not zero: characters of a decimal, among them a digit that is
not zero. -/
def Writes (t : String) : Prop :=
  (∀ c ∈ t.toList, isNumeral c = true) ∧ ∃ c ∈ t.toList, c.isDigit = true ∧ c ≠ '0'

/-- A whole number is written as a sign and digits. -/
theorem toList_toString (n : Int) :
    (toString n).toList = (if n < 0 then ['-'] else []) ++ Nat.toDigits 10 n.natAbs := by
  cases n with
  | ofNat n =>
    rw [if_neg (by simp)]
    simp [toString, Int.repr, Nat.repr]
  | negSucc n =>
    rw [if_pos (by omega)]
    simp [toString, Int.repr, Nat.repr]

theorem isNumeral_of_mem_toString (n : Int) : ∀ c ∈ (toString n).toList, isNumeral c = true := by
  rw [toList_toString]
  refine List.forall_mem_append.2 ⟨?_, fun c => isNumeral_of_mem_toDigits⟩
  split
  · exact List.forall_mem_singleton.2 rfl
  · exact List.forall_mem_nil _

theorem writes_toString {n : Int} (h : n ≠ 0) : Writes (toString n) := by
  refine ⟨isNumeral_of_mem_toString n, ?_⟩
  obtain ⟨c, hc, hne⟩ := exists_digit_ne_zero (Int.natAbs_ne_zero.2 h)
  refine ⟨c, ?_, Nat.isDigit_of_mem_toDigits (by decide) (by decide) hc, hne⟩
  rw [toList_toString]
  exact List.mem_append_right _ hc

namespace Digits

variable {d : Digits}

theorem digits_normalize_ne_zero (n : Nat) (h : d.digits ≠ 0) : (normalize n d).digits ≠ 0 := by
  induction n generalizing d with
  | zero => exact h
  | succ n ih =>
    unfold normalize
    split
    · next htens => exact ih (by dsimp only; omega)
    · exact h

theorem text_ne_empty (d : Digits) : d.text ≠ "" := by
  unfold Digits.text
  dsimp only
  intro h
  split at h
  · split at h
    · simp at h
    · split at h <;> simp at h
  · simp at h

/-- All digits stand in the text. -/
theorem mem_text_of_mem {c : Char} (h : c ∈ Nat.toDigits 10 d.digits) : c ∈ d.text.toList := by
  unfold text
  dsimp only
  generalize Nat.toDigits 10 d.digits = ds at h ⊢
  split
  · split
    · simp [h]
    · split
      · simp [h]
      · generalize (Int.toNat _) = p
        have hparts := List.mem_append.1 ((List.take_append_drop p ds).symm ▸ h)
        simp only [String.toList_ofList, List.mem_append, List.mem_cons]
        tauto
  · match ds, h with
    | [a], h => simp_all
    | a :: b :: ds, h =>
      simp only [List.mem_cons] at h
      simp only [String.toList_ofList, List.mem_append, List.mem_cons]
      tauto

/-- The text has the characters of a decimal only. -/
theorem isNumeral_of_mem_text (d : Digits) : ∀ c ∈ d.text.toList, isNumeral c = true := by
  have hds (n : Nat) : ∀ c ∈ Nat.toDigits 10 n, isNumeral c = true :=
    fun c => isNumeral_of_mem_toDigits
  have hzeros (n : Nat) : ∀ c ∈ List.replicate n '0', isNumeral c = true :=
    fun c hc => (List.mem_replicate.1 hc).2 ▸ rfl
  have hall := hds d.digits
  unfold text
  dsimp only
  generalize Nat.toDigits 10 d.digits = ds at hall ⊢
  split
  · split
    · simp only [String.toList_ofList, List.forall_mem_cons, List.forall_mem_append]
      exact ⟨rfl, rfl, hzeros _, hall⟩
    · split
      · simp only [String.toList_ofList, List.forall_mem_cons, List.forall_mem_append]
        exact ⟨⟨hall, hzeros _⟩, rfl, rfl, List.forall_mem_nil _⟩
      · simp only [String.toList_ofList, List.forall_mem_cons, List.forall_mem_append]
        exact ⟨fun c hc => hall c (List.mem_of_mem_take hc), rfl,
          fun c hc => hall c (List.mem_of_mem_drop hc)⟩
  · have hsign (p : Prop) [Decidable p] : isNumeral (if p then '-' else '+') = true := by
      split <;> rfl
    have hexponent (p : Prop) [Decidable p] (n : Nat) : ∀ c ∈
        (if p then '0' :: Nat.toDigits 10 n else Nat.toDigits 10 n), isNumeral c = true := by
      split
      · exact List.forall_mem_cons.2 ⟨rfl, hds n⟩
      · exact hds n
    rcases ds with _ | ⟨a, _ | ⟨b, ds⟩⟩
    all_goals
      simp only [String.toList_ofList, List.forall_mem_cons, List.forall_mem_append] at hall ⊢
    · exact ⟨List.forall_mem_nil _, rfl, hsign _, hexponent _ _⟩
    · exact ⟨⟨hall.1, List.forall_mem_nil _⟩, rfl, hsign _, hexponent _ _⟩
    · exact ⟨⟨hall.1, rfl, hall.2⟩, rfl, hsign _, hexponent _ _⟩

end Digits

/-! ## Floats -/

section Floats

open Float.Model

theorem unpack_zero : (0 : Float).toModel.unpack = .zero .positive := by rfl

theorem beq_zero_iff_unpack (x : Float) : (x == 0) = true ↔ ∃ s, x.toModel.unpack = .zero s := by
  change x.toModel.unpack.beq (0 : Float).toModel.unpack = true ↔ _
  rw [unpack_zero]
  cases x.toModel.unpack with
  | zero s => exact ⟨fun _ => ⟨s, rfl⟩, fun _ => rfl⟩
  | notANumber =>
    refine iff_of_false (by decide) ?_
    rintro ⟨s, h⟩
    cases h
  | infinity s =>
    refine iff_of_false ?_ ?_
    · cases s <;> exact Bool.false_ne_true
    · rintro ⟨s, h⟩
      cases h
  | finite s m e hm =>
    refine iff_of_false ?_ ?_
    · cases s <;> exact Bool.false_ne_true
    · rintro ⟨s, h⟩
      cases h

theorem toNat_unpackMantissa (x : Float) :
    (@UnpackedFloat.unpackMantissa Format.binary64 x.toModel.toBits.toBitVec).toNat =
      x.toBits.toNat % leadingBit := by
  simp [UnpackedFloat.unpackMantissa]
  rfl

theorem toNat_unpackExponent (x : Float) :
    (@UnpackedFloat.unpackExponent Format.binary64 x.toModel.toBits.toBitVec).toNat =
      x.toBits.toNat / leadingBit % 2048 := by
  simp [UnpackedFloat.unpackExponent, Nat.shiftRight_eq_div_pow]
  rfl

theorem unpack_zero_iff (x : Float) :
    (∃ s, x.toModel.unpack = .zero s) ↔ x.toBits.toNat % signBit = 0 := by
  have hm := toNat_unpackMantissa x
  have he := toNat_unpackExponent x
  have hparts : x.toBits.toNat % signBit = 0 ↔
      x.toBits.toNat / leadingBit % 2048 = 0 ∧ x.toBits.toNat % leadingBit = 0 := by
    unfold signBit leadingBit
    omega
  rw [hparts, ← hm, ← he]
  unfold Float.Model.unpack UnpackedFloat.unpack
  dsimp only
  by_cases hones : @UnpackedFloat.unpackExponent Format.binary64 x.toModel.toBits.toBitVec = -1#_
  · rw [if_pos hones, hones]
    constructor
    · rintro ⟨s, h⟩
      by_cases hmantissa : @UnpackedFloat.unpackMantissa Format.binary64
          x.toModel.toBits.toBitVec = 0#_
      · rw [if_pos hmantissa] at h
        cases h
      · rw [if_neg hmantissa] at h
        cases h
    · intro h
      exact absurd h.1 (by decide)
  · rw [if_neg hones]
    by_cases hzero : @UnpackedFloat.unpackExponent Format.binary64 x.toModel.toBits.toBitVec = 0#_
    · rw [if_pos hzero, hzero]
      by_cases hmantissa : @UnpackedFloat.unpackMantissa Format.binary64
          x.toModel.toBits.toBitVec = 0#_
      · rw [dif_pos hmantissa, hmantissa]
        exact iff_of_true ⟨_, rfl⟩ ⟨rfl, rfl⟩
      · rw [dif_neg hmantissa]
        refine iff_of_false ?_ fun h => hmantissa (BitVec.eq_of_toNat_eq h.2)
        rintro ⟨s, h⟩
        cases h
    · rw [if_neg hzero]
      refine iff_of_false ?_ fun h => hzero (BitVec.eq_of_toNat_eq h.1)
      rintro ⟨s, h⟩
      cases h

/-- The floats that are equal to zero are the two zeros. -/
theorem beq_zero_iff (x : Float) : (x == 0) = true ↔ x.toBits.toNat % signBit = 0 :=
  (beq_zero_iff_unpack x).trans (unpack_zero_iff x)

end Floats

theorem text_ne_empty {words : Words} (hnan : words.nan ≠ "") (hinfinity : words.infinity ≠ "")
    (x : Float) : text words x ≠ "" := by
  unfold text
  dsimp only
  split
  · split
    · simp [hinfinity]
    · exact hnan
  · split
    · simp
    · simp [Digits.text_ne_empty]

/-- What stands in front of a negative float. -/
def signs : List String := ["", "-"]

/-- A zero is written as zero. -/
theorem text_of_eq_zero {x : Float} (h : (x == 0) = true) :
    ∃ sign ∈ signs, ∀ words, text words x = sign ++ "0.0" := by
  have hzero := (beq_zero_iff x).1 h
  refine ⟨if x.toBits.toNat / signBit = 1 then "-" else "", ?_, fun words => ?_⟩
  · split <;> decide
  · unfold text
    dsimp only
    rw [hzero, if_neg (by decide), if_pos rfl]

/-- Any other float is written by a word or with a digit that is not zero. -/
theorem text_of_ne_zero {x : Float} (h : (x == 0) = false) :
    (∀ words, text words x = words.nan) ∨
    (∃ sign ∈ signs, ∀ words, text words x = sign ++ words.infinity) ∨
    ∃ t, Writes t ∧ ∀ words, text words x = t := by
  have hrest : x.toBits.toNat % signBit ≠ 0 := fun hzero =>
    Bool.false_ne_true (h.symm.trans ((beq_zero_iff x).2 hzero))
  have hsize : x.toBits.toNat % signBit < signBit := Nat.mod_lt _ (by decide)
  have hsign : (if x.toBits.toNat / signBit = 1 then "-" else "") ∈ signs := by
    split <;> decide
  unfold text
  dsimp only
  generalize (if x.toBits.toNat / signBit = 1 then "-" else "") = sign at hsign ⊢
  generalize x.toBits.toNat % signBit = rest at hrest hsize ⊢
  split
  · split
    · exact .inr (.inl ⟨sign, hsign, fun _ => rfl⟩)
    · exact .inl fun _ => rfl
  · obtain ⟨hpos, hmantissa⟩ := Binary.mantissa_ofBits (Nat.pos_of_ne_zero hrest) hsize
    have hne := Digits.digits_normalize_ne_zero 17 (Binary.digits_shortest_ne_zero hpos hmantissa)
    generalize Digits.normalize 17 (Binary.ofBits rest).shortest = d at hne ⊢
    refine .inr (.inr ⟨_, ⟨?_, ?_⟩, fun _ => rfl⟩)
    · have hsigns : ∀ sign ∈ signs, sign.toList.all isNumeral = true := by decide
      rw [String.toList_append]
      exact List.forall_mem_append.2
        ⟨List.all_eq_true.1 (hsigns sign hsign), d.isNumeral_of_mem_text⟩
    · obtain ⟨c, hc, hdigit⟩ := exists_digit_ne_zero hne
      refine ⟨c, ?_, Nat.isDigit_of_mem_toDigits (by decide) (by decide) hc, hdigit⟩
      rw [String.toList_append]
      exact List.mem_append_right _ (Digits.mem_text_of_mem hc)

end CrateBook.Decimal
