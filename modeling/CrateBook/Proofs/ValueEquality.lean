import CrateBook.Json.Reader

/-!
# Telling values apart

Whether two floats are one cannot be decided, so values with floats in them cannot be told
apart by their form. All other values can, and what a closed text reads as can be computed.
-/
namespace CrateBook

namespace Value

mutual

/-- Sameness of values without floats. -/
def same : Value → Value → Bool
  | null, null => true
  | bool a, bool b => a == b
  | int m, int n => m == n
  | str s, str t => s == t
  | list vs, list ws => sameAll vs ws
  | object ms, object ns => sameMembers ms ns
  | _, _ => false

def sameAll : List Value → List Value → Bool
  | [], [] => true
  | v :: vs, w :: ws => same v w && sameAll vs ws
  | _, _ => false

/-- The members are the same, and in the same order. -/
def sameMembers : List (String × Value) → List (String × Value) → Bool
  | [], [] => true
  | (k, v) :: ms, (l, w) :: ns => k == l && same v w && sameMembers ms ns
  | _, _ => false

end

mutual

theorem eq_of_same {v w : Value} (h : same v w = true) : v = w := by
  cases v <;> cases w <;> simp only [same, Bool.false_eq_true, beq_iff_eq] at h
  case null.null => rfl
  case bool.bool => rw [h]
  case int.int => rw [h]
  case str.str => rw [h]
  case list.list vs ws => rw [eq_of_sameAll h]
  case object.object ms ns => rw [eq_of_sameMembers h]

theorem eq_of_sameAll {vs ws : List Value} (h : sameAll vs ws = true) : vs = ws := by
  match vs, ws with
  | [], [] => rfl
  | v :: vs, w :: ws =>
    rw [sameAll, Bool.and_eq_true] at h
    rw [eq_of_same h.1, eq_of_sameAll h.2]

theorem eq_of_sameMembers {ms ns : List (String × Value)} (h : sameMembers ms ns = true) :
    ms = ns := by
  match ms, ns with
  | [], [] => rfl
  | (k, v) :: ms, (l, w) :: ns =>
    rw [sameMembers, Bool.and_eq_true, Bool.and_eq_true, beq_iff_eq] at h
    rw [h.1.1, eq_of_same h.1.2, eq_of_sameMembers h.2]

end

end Value

/-- What a text reads as, from its characters. -/
theorem Json.parse_eq_ok {text : String} {v : Value} (h : ∃ cs, text = String.ofList cs ∧
    (document cs).toOption.any (·.same v) = true) : parse text = .ok v := by
  obtain ⟨cs, rfl, hsame⟩ := h
  cases hdocument : document cs with
  | error stop =>
    rw [hdocument] at hsame
    cases hsame
  | ok w =>
    rw [hdocument] at hsame
    rw [← Value.eq_of_same hsame]
    simp only [parse, String.toList_ofList, hdocument]

end CrateBook
