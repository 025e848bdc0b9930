import CrateBook.Proofs.Denotations
import CrateBook.Proofs.Rereading

/-!
# Types with the same text

The plain text of a type is the text of its shape down to the greatest depth, and clear shapes are
read back from their texts. So clear types are told apart by their texts as far down as they are
written. Both limits are met: two types of which one is not clear, or two that differ further down,
can have the same text.
-/
namespace CrateBook

namespace TypeText

/-- Two clear types have the same plain text if they are the same down to the greatest depth, and
only then. So types that end above it are told apart by their texts. -/
theorem plainText_eq_iff (t : TypeText) {a b : Shape} {v w : Value} (hv : a.Denotes v)
    (hw : b.Denotes w) (ha : a.isClear false = true) (hb : b.isClear false = true) :
    ∃ r s, t.plainText v = .ok r ∧ t.plainText w = .ok s ∧
      (r = s ↔ a.cut t.levels = b.cut t.levels) ∧
      (a.cut t.levels = a → b.cut t.levels = b → r = s → a = b) := by
  have hiff : (a.cut t.levels).text = (b.cut t.levels).text ↔ a.cut t.levels = b.cut t.levels := by
    refine ⟨Shape.eq_of_text ?_ ?_, congrArg Shape.text⟩
    · exact Shape.isClear_cut t.levels false a ha
    · exact Shape.isClear_cut t.levels false b hb
  refine ⟨_, _, t.plainText_of_denotes hv, t.plainText_of_denotes hw, hiff, ?_⟩
  intro hcuta hcutb heq
  rw [← hcuta, ← hcutb]
  exact hiff.1 heq

/-- A trait without arguments. -/
def plainTrait (name : String) : Value :=
  .object [("trait", .object [("path", .str name), ("id", .int 1), ("args", .null)]),
    ("generic_params", .list [])]

/-- A trait without inputs that gives something. -/
def givingTrait (name : String) (output : Value) : Value :=
  .object [("trait", .object [("path", .str name), ("id", .int 2), ("args", .object
      [("parenthesized", .object [("inputs", .list []), ("output", output)])])]),
    ("generic_params", .list [])]

def traitObject (traits : List Value) : Value :=
  .object [("dyn_trait", .object [("traits", .list traits), ("lifetime", .null)])]

def nameA : TypeName := ⟨"A", by decide, unbroken_of_all (by decide), by decide⟩

def nameB : TypeName := ⟨"B", by decide, unbroken_of_all (by decide), by decide⟩

def nameFn : TypeName := ⟨"Fn", by decide, unbroken_of_all (by decide), by decide⟩

theorem plainTrait_denotes (n : TypeName) : (Bound.plain n).Denotes (plainTrait n.text) :=
  ⟨_, _, rfl, rfl, rfl, rfl, .inl rfl⟩

theorem givingTrait_denotes (n : TypeName) {t : Shape} {v : Value} (h : t.Denotes v) :
    (Bound.called n [] (some t)).Denotes (givingTrait n.text v) :=
  ⟨_, _, _, [], rfl, rfl, rfl, rfl, rfl, rfl, ⟨rfl, rfl⟩, h⟩

/-- A trait object whose first trait gives a trait object, and whose second one is `B`. -/
def outerSum : Shape := .dyn (.called nameFn [] (some (.dyn (.plain nameA) []))) [.plain nameB]

/-- A trait object whose one trait gives a trait object with a second trait `B`. -/
def innerSum : Shape := .dyn (.called nameFn [] (some (.dyn (.plain nameA) [.plain nameB]))) []

def outerSumValue : Value :=
  traitObject [givingTrait "Fn" (traitObject [plainTrait "A"]), plainTrait "B"]

def innerSumValue : Value :=
  traitObject [givingTrait "Fn" (traitObject [plainTrait "A", plainTrait "B"])]

theorem outerSum_denotes : outerSum.Denotes outerSumValue :=
  ⟨_, _, _, rfl, rfl, rfl, givingTrait_denotes nameFn
    ⟨_, _, _, rfl, rfl, rfl, plainTrait_denotes nameA, rfl⟩, plainTrait_denotes nameB, rfl⟩

theorem innerSum_denotes : innerSum.Denotes innerSumValue :=
  ⟨_, _, _, rfl, rfl, rfl, givingTrait_denotes nameFn
    ⟨_, _, _, rfl, rfl, rfl, plainTrait_denotes nameA, plainTrait_denotes nameB, rfl⟩, rfl⟩

/-- The text of the two trait objects is one and the same. -/
theorem text_sums : outerSum.text = "dyn Fn() -> dyn A + B" ∧
    innerSum.text = "dyn Fn() -> dyn A + B" := by
  decide +kernel

theorem outerSum_ne_innerSum : outerSum ≠ innerSum := fun h => nomatch (Shape.dyn.inj h).2

/-- A shape inside so many slices. -/
def sliced : Nat → Shape → Shape
  | 0, t => t
  | n + 1, t => .slice (sliced n t)

def slicedValue : Nat → Value → Value
  | 0, v => v
  | n + 1, v => .object [("slice", slicedValue n v)]

theorem sliced_denotes {t : Shape} {v : Value} (h : t.Denotes v) (n : Nat) :
    (sliced n t).Denotes (slicedValue n v) := by
  induction n with
  | zero => exact h
  | succ n ih => exact ⟨_, rfl, ih⟩

theorem isClear_sliced {t : Shape} (h : t.isClear false = true) (n : Nat) :
    (sliced n t).isClear false = true := by
  induction n with
  | zero => exact h
  | succ n ih => rwa [sliced, Shape.isClear]

/-- Nothing is seen of a shape inside as many slices as are written. -/
theorem cut_sliced (n : Nat) (t : Shape) : (sliced n t).cut n = sliced n .dots := by
  induction n with
  | zero => rw [sliced, Shape.cut, sliced]
  | succ n ih => rw [sliced, Shape.cut, ih, sliced]

theorem sliced_inj {n : Nat} {t u : Shape} (h : sliced n t = sliced n u) : t = u := by
  induction n with
  | zero => exact h
  | succ n ih => exact ih (Shape.slice.inj h)

def generic (name : String) : Value := .object [("generic", .str name)]

theorem generic_denotes (n : TypeName) : (Shape.name n).Denotes (generic n.text) := by
  rw [Shape.Denotes, generic]

/-- Two types that differ have the same text: two trait objects of which one stands at the end of a
trait's output, though nothing is too deep, and two slices that differ below the greatest depth,
though they are clear. -/
theorem plainText_ambiguous :
    (outerSum.Denotes outerSumValue ∧ innerSum.Denotes innerSumValue ∧
      ({} : TypeText).plainText outerSumValue = .ok "dyn Fn() -> dyn A + B" ∧
      ({} : TypeText).plainText innerSumValue = .ok "dyn Fn() -> dyn A + B" ∧
      outerSum ≠ innerSum) ∧
    (sliced 51 (.name nameA)).Denotes (slicedValue 51 (generic "A")) ∧
      (sliced 51 (.name nameB)).Denotes (slicedValue 51 (generic "B")) ∧
      (sliced 51 (.name nameA)).isClear false = true ∧
      (sliced 51 (.name nameB)).isClear false = true ∧
      ({} : TypeText).plainText (slicedValue 51 (generic "A")) =
        ({} : TypeText).plainText (slicedValue 51 (generic "B")) ∧
      sliced 51 (.name nameA) ≠ sliced 51 (.name nameB) := by
  have houter : outerSum.cut ({} : TypeText).levels = outerSum := rfl
  have hinner : innerSum.cut ({} : TypeText).levels = innerSum := rfl
  have hlevels : ({} : TypeText).levels = 51 := rfl
  have hA := sliced_denotes (generic_denotes nameA) 51
  have hB := sliced_denotes (generic_denotes nameB) 51
  have hclear (n : TypeName) : (Shape.name n).isClear false = true := by rw [Shape.isClear]
  refine ⟨⟨outerSum_denotes, innerSum_denotes, ?_, ?_, outerSum_ne_innerSum⟩, hA, hB,
    isClear_sliced (hclear nameA) 51, isClear_sliced (hclear nameB) 51, ?_, fun h => ?_⟩
  · rw [plainText_of_denotes {} outerSum_denotes, houter, text_sums.1]
  · rw [plainText_of_denotes {} innerSum_denotes, hinner, text_sums.2]
  · exact (plainText_of_denotes {} hA).trans ((by rw [hlevels, cut_sliced, cut_sliced]) :
      _ = _) |>.trans (plainText_of_denotes {} hB).symm
  · have hname := Shape.name.inj (sliced_inj h)
    exact absurd (congrArg TypeName.text hname) (by decide)

/-- A function pointer and a slice, neither with an ambiguous nesting, are told apart by their
texts. -/
theorem plainText_outerSum : outerSum.Denotes outerSumValue ∧
    (Shape.slice (.name nameA)).Denotes (slicedValue 1 (generic "A")) ∧
    outerSum.isClear false = true ∧ (Shape.slice (.name nameA)).isClear false = true ∧
    ∃ r s, ({} : TypeText).plainText outerSumValue = .ok r ∧
      ({} : TypeText).plainText (slicedValue 1 (generic "A")) = .ok s ∧
      (r = s ↔ outerSum.cut 51 = (Shape.slice (.name nameA)).cut 51) ∧
      (outerSum.cut 51 = outerSum → (Shape.slice (.name nameA)).cut 51 = .slice (.name nameA) →
        r = s → outerSum = .slice (.name nameA)) := by
  have hslice := sliced_denotes (generic_denotes nameA) 1
  have houter : outerSum.isClear false = true := rfl
  have hclear : (Shape.slice (.name nameA)).isClear false = true := rfl
  exact ⟨outerSum_denotes, hslice, houter, hclear,
    plainText_eq_iff {} outerSum_denotes hslice houter hclear⟩

end TypeText

end CrateBook
