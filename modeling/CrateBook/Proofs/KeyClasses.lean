import CrateBook.Setting.Merge
import Mathlib.Tactic.Ring

/-!
# Keys that are the same

Two scalars are the same key if they are one number, one instant, or equal and neither. This is
symmetric and transitive, and only what is no number is not the same key as itself. So a key can
be looked up in each of its forms; where a key is given a value, this value is found under all
forms of the key and nothing changes under any other; and what is laid over the value of a key
does not depend on the form.
-/
namespace CrateBook

namespace Number

variable {m n p : Number}

theorem same_iff : m.same n = true ↔ m.isProper = true ∧ n.isProper = true ∧
    if m.den = 0 ∧ n.den = 0 then m.num = n.num else m.num * n.den = n.num * m.den := by
  unfold same
  split <;> simp [and_assoc]

/-- Only an infinity is the same as an infinity. -/
theorem den_eq_zero_of_same (h : m.same n = true) (hm : m.den = 0) : n.den = 0 := by
  obtain ⟨hproper, -, heq⟩ := same_iff.1 h
  by_contra hn
  rw [if_neg fun hboth => hn hboth.2, hm, Int.natCast_zero, mul_zero, mul_eq_zero,
    Int.natCast_eq_zero, or_iff_left hn] at heq
  simp [isProper, hm, heq] at hproper

theorem same_trans (h : m.same n = true) (h' : n.same p = true) : m.same p = true := by
  obtain ⟨hm, -, heq⟩ := same_iff.1 h
  obtain ⟨-, hp, heq'⟩ := same_iff.1 h'
  refine same_iff.2 ⟨hm, hp, ?_⟩
  by_cases hzero : n.den = 0
  · have hmzero : m.den = 0 := den_eq_zero_of_same (same_comm n m ▸ h) hzero
    have hpzero := den_eq_zero_of_same h' hzero
    rw [if_pos ⟨hmzero, hzero⟩] at heq
    rw [if_pos ⟨hzero, hpzero⟩] at heq'
    rw [if_pos ⟨hmzero, hpzero⟩, heq, heq']
  · have hmzero : m.den ≠ 0 := fun hmzero => hzero (den_eq_zero_of_same h hmzero)
    rw [if_neg fun hboth => hzero hboth.2] at heq
    rw [if_neg fun hboth => hzero hboth.1] at heq'
    rw [if_neg fun hboth => hmzero hboth.1]
    have hcast : (n.den : Int) ≠ 0 := Int.natCast_ne_zero.2 hzero
    refine mul_right_cancel₀ hcast ?_
    calc m.num * p.den * n.den = m.num * n.den * p.den := by ring
      _ = n.num * m.den * p.den := by rw [heq]
      _ = n.num * p.den * m.den := by ring
      _ = p.num * n.den * m.den := by rw [heq']
      _ = p.num * m.den * n.den := by ring

end Number

namespace Moment

variable {m n p : Moment}

theorem same_iff : m.same n = true ↔
    (∃ y z, m.zone = some y ∧ n.zone = some z ∧ m.minutes y = n.minutes z ∧
      m.second = n.second ∧ m.micro = n.micro) ∨ (m.zone = none ∧ m = n) := by
  unfold same
  split
  · next y z hm hn => simp [hm, hn, and_assoc]
  · next hm hn => simp [hm]
  · next hsome hnone =>
    refine ⟨fun h => absurd h Bool.false_ne_true, ?_⟩
    rintro (⟨y, z, hm, hn, -⟩ | ⟨hm, rfl⟩)
    · exact absurd hn (hsome y z hm)
    · exact absurd hm (hnone hm)

theorem same_symm (h : m.same n = true) : n.same m = true := by
  rcases same_iff.1 h with ⟨y, z, hm, hn, hmin, hsec, hmic⟩ | ⟨hm, rfl⟩
  · exact same_iff.2 (.inl ⟨z, y, hn, hm, hmin.symm, hsec.symm, hmic.symm⟩)
  · exact same_iff.2 (.inr ⟨hm, rfl⟩)

theorem same_trans (h : m.same n = true) (h' : n.same p = true) : m.same p = true := by
  rcases same_iff.1 h with ⟨y, z, hm, hn, hmin, hsec, hmic⟩ | ⟨-, rfl⟩
  · rcases same_iff.1 h' with ⟨z', w, hn', hp, hmin', hsec', hmic'⟩ | ⟨-, rfl⟩
    · obtain rfl : z = z' := Option.some.inj (hn.symm.trans hn')
      exact same_iff.2 (.inl ⟨y, w, hm, hp, hmin.trans hmin', hsec.trans hsec', hmic.trans hmic'⟩)
    · exact h
  · exact h'

end Moment

namespace Scalar

variable {a b c : Scalar}

/-- The same key: one number, one instant, or the same scalar of another kind. -/
theorem sameKey_iff : a.sameKey b = true ↔
    (∃ m n, a.number? = some m ∧ b.number? = some n ∧ m.same n = true) ∨
      (∃ m n, a = .moment m ∧ b = .moment n ∧ m.same n = true) ∨
      (a.number? = none ∧ (∀ m, a ≠ .moment m) ∧ a = b) := by
  cases a <;> cases b <;> simp [sameKey, number?]

theorem sameKey_symm (h : a.sameKey b = true) : b.sameKey a = true := by
  rcases sameKey_iff.1 h with ⟨m, n, ha, hb, hsame⟩ | ⟨m, n, rfl, rfl, hsame⟩ | ⟨ha, hmoment, rfl⟩
  · exact sameKey_iff.2 (.inl ⟨n, m, hb, ha, Number.same_comm m n ▸ hsame⟩)
  · exact sameKey_iff.2 (.inr (.inl ⟨n, m, rfl, rfl, Moment.same_symm hsame⟩))
  · exact h

theorem sameKey_trans (h : a.sameKey b = true) (h' : b.sameKey c = true) :
    a.sameKey c = true := by
  rcases sameKey_iff.1 h with ⟨m, n, ha, hb, hsame⟩ | ⟨m, n, rfl, rfl, hsame⟩ | ⟨-, -, rfl⟩
  · rcases sameKey_iff.1 h' with ⟨n', p, hb', hc, hsame'⟩ | ⟨n', p, rfl, rfl, -⟩ | ⟨hb', -, rfl⟩
    · obtain rfl : n = n' := Option.some.inj (hb.symm.trans hb')
      exact sameKey_iff.2 (.inl ⟨m, p, ha, hc, Number.same_trans hsame hsame'⟩)
    · cases hb
    · rw [hb'] at hb
      cases hb
  · rcases sameKey_iff.1 h' with ⟨n', p, hb', -, -⟩ | ⟨n', p, heq, rfl, hsame'⟩ | ⟨-, hmoment, -⟩
    · cases hb'
    · cases heq
      exact sameKey_iff.2 (.inr (.inl ⟨m, p, rfl, rfl, Moment.same_trans hsame hsame'⟩))
    · exact absurd rfl (hmoment n)
  · exact h'

theorem sameKey_comm (a b : Scalar) : a.sameKey b = b.sameKey a :=
  Bool.eq_iff_iff.2 ⟨sameKey_symm, sameKey_symm⟩

/-- Forms of one key are the same as the same keys. -/
theorem sameKey_congr (h : a.sameKey b = true) (c : Scalar) : c.sameKey a = c.sameKey b :=
  Bool.eq_iff_iff.2 ⟨fun hc => sameKey_trans hc h, fun hc => sameKey_trans hc (sameKey_symm h)⟩

/-- What is the same key as anything is the same as itself. -/
theorem sameKey_self (h : a.sameKey b = true) : a.sameKey a = true :=
  sameKey_trans h (sameKey_symm h)

/-- Only a text is the same key as a text. -/
theorem sameKey_str_iff {k : Scalar} {name : String} :
    k.sameKey (.str name) = true ↔ k = .str name := by
  cases k <;> simp [sameKey, number?]

theorem str_sameKey_iff {k : Scalar} {name : String} :
    (str name).sameKey k = true ↔ k = .str name := by
  rw [sameKey_comm, sameKey_str_iff]

end Scalar

namespace Entries

variable {es : Entries} {j k : Scalar} {v : Setting}

theorem find?_congr (h : j.sameKey k = true) (es : Entries) : find? es j = find? es k := by
  unfold find?
  congr 2
  funext e
  exact Scalar.sameKey_congr h e.1

theorem find?_cons (e : Scalar × Setting) (es : Entries) (k : Scalar) :
    find? (e :: es) k = if e.1.sameKey k = true then some e.2 else find? es k := by
  unfold find?
  rw [List.find?_cons]
  cases e.1.sameKey k <;> rfl

/-- What is found under a key stands in an entry with a form of the key. -/
theorem exists_of_find? (h : find? es k = some v) : ∃ e ∈ es, e.1.sameKey k = true ∧ e.2 = v := by
  obtain ⟨e, he, hv⟩ := Option.map_eq_some_iff.1 h
  exact ⟨e, List.mem_of_find?_eq_some he, by simpa using List.find?_some he, hv⟩

theorem find?_eq_none_iff : find? es k = none ↔ ∀ e ∈ es, e.1.sameKey k = false := by
  simp [find?]

/-- A key that is given a value has this value in all of its forms; others keep theirs. -/
theorem find?_put (k : Scalar) (v : Setting) (es : Entries) (j : Scalar) :
    find? (put k v es) j = if k.sameKey j = true then some v else find? es j := by
  induction es with
  | nil => exact find?_cons _ _ _
  | cons e es ih =>
    rw [put]
    by_cases he : e.1.sameKey k = true
    · rw [if_pos he, find?_cons, find?_cons]
      by_cases hj : k.sameKey j = true
      · rw [if_pos hj, if_pos (Scalar.sameKey_trans he hj)]
      · have hne : ¬ e.1.sameKey j = true := fun h =>
          hj (Scalar.sameKey_trans (Scalar.sameKey_symm he) h)
        rw [if_neg hj, if_neg hne, if_neg hne]
    · rw [if_neg he, find?_cons, find?_cons, ih]
      by_cases hj : k.sameKey j = true
      · have hne : ¬ e.1.sameKey j = true := fun h =>
          he (Scalar.sameKey_trans h (Scalar.sameKey_symm hj))
        rw [if_neg hne, if_pos hj, if_pos hj]
      · rw [if_neg hj, if_neg hj]

end Entries

namespace Setting

variable {s t : Option Scalar} {j k : Scalar} {old : Option Setting} {v : Setting}

/-- Forms of one key that differ are no texts, so lists are not united under them, nor in them as
sections. -/
theorem isUnited_congr (h : j.sameKey k = true) :
    isUnited s j = isUnited s k ∧ isUnited (some j) = isUnited (some k) := by
  by_cases hk : ∃ name, k = .str name
  · obtain ⟨name, rfl⟩ := hk
    rw [Scalar.sameKey_str_iff.1 h]
    exact ⟨rfl, rfl⟩
  · have hj : ¬ ∃ name, j = .str name := fun ⟨name, hj⟩ =>
      hk ⟨name, Scalar.str_sameKey_iff.1 (hj ▸ h)⟩
    have hkey {i : Scalar} (hi : ¬ ∃ name, i = .str name) (s : Option Scalar) :
        isUnited s i = false := by
      unfold isUnited
      split
      · next name => exact absurd ⟨name, rfl⟩ hi
      · rfl
    have hsection {i : Scalar} (hi : ¬ ∃ name, i = .str name) (l : Scalar) :
        isUnited (some i) l = false := by
      unfold isUnited
      split
      · next name _ heq => exact absurd ⟨name, Option.some.inj heq⟩ hi
      · rfl
    exact ⟨(hkey hj s).trans (hkey hk s).symm,
      funext fun l => (hsection hj l).trans (hsection hk l).symm⟩

/-- A section counts only for which lists are united in it. -/
theorem mergeEntries_congr (h : isUnited s = isUnited t) (base es : Entries) :
    mergeEntries s base es = mergeEntries t base es := by
  have hvalue (k : Scalar) (old : Option Setting) (v : Setting) :
      mergeValue s k old v = mergeValue t k old v := by
    cases v with
    | list xs =>
      unfold mergeValue
      rw [h]
    | _ => rfl
  induction es generalizing base with
  | nil => rfl
  | cons e es ih => rw [mergeEntries, mergeEntries, hvalue, ih]

theorem mergeValue_congr (h : j.sameKey k = true) :
    mergeValue s j old v = mergeValue s k old v := by
  have hunited := isUnited_congr (s := s) h
  cases v with
  | list xs =>
    unfold mergeValue
    rw [hunited.1]
  | mapping es =>
    unfold mergeValue
    simp only [mergeEntries_congr hunited.2]
  | _ => rfl

end Setting

end CrateBook
