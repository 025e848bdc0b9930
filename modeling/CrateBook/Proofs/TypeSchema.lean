import CrateBook.Export.Index
import CrateBook.Proofs.Readable
import CrateBook.TypeText.Basic

/-!
# The schema of types

What an export may say about types, paths, bounds and generics. A value has a form if it is of
a kind that the form allows and its members and elements have forms of their own, which the
rule of the form tells. What is missing reads as null, so every part may be left out. Members
that no rule names, and kinds of types that are not known, may have any form.
-/
namespace CrateBook

/-- What a value in a type, or in generics, stands for. -/
inductive Form where
  | any
  | anys
  | word
  | words
  | lifetime
  | abi
  | type
  | types
  | typed
  | reference
  | qualified
  | path
  | args
  | angled
  | parens
  | arg
  | argList
  | constraint
  | constraints
  | binding
  | term
  | bound
  | bounds
  | traitBound
  | traitBounds
  | dynTrait
  | pointer
  | signature
  | header
  | input
  | inputs
  | param
  | params
  | paramKind
  | outlives
  | typeParam
  | predicate
  | boundPredicate
  | equation
deriving DecidableEq, Repr

namespace Form

/-- What a form asks of a value: its kind, and the forms of its members and elements. -/
structure Rule where
  allows : Value → Bool
  members : List (String × Form) := []
  element : Form := any

namespace Rule

/-- Any kind of value, with forms for some members of an object. -/
def open_ (members : List (String × Form)) : Rule := ⟨fun _ => true, members, any⟩

/-- An object with forms for some members, or what holds nothing. -/
def record (members : List (String × Form)) : Rule := ⟨Value.isRecord, members, any⟩

/-- A list of elements of a form, or what holds nothing. -/
def row (element : Form) : Rule where
  allows
    | .list _ => true
    | v => !v.isSet
  element := element

def text : Rule where
  allows
    | .str _ => true
    | _ => false

/-- A text, or what holds nothing. -/
def textOrNone : Rule where
  allows
    | .str _ => true
    | v => !v.isSet

/-- A text, or an object whose first key is the name. -/
def tag : Rule where
  allows
    | .str _ => true
    | .object _ => true
    | v => !v.isSet

/-- A list with a second element. -/
def pair (element : Form) : Rule where
  allows
    | .list (_ :: _ :: _) => true
    | _ => false
  element := element

end Rule

def rule : Form → Rule
  | any => .open_ []
  | anys => .row any
  | word => .text
  | words => .row word
  | lifetime => .textOrNone
  | abi => .tag
  | type => .open_ [("resolved_path", path), ("dyn_trait", dynTrait),
      ("function_pointer", pointer), ("tuple", types), ("slice", type), ("array", typed),
      ("pat", typed), ("impl_trait", bounds), ("raw_pointer", typed),
      ("borrowed_ref", reference), ("qualified_path", qualified)]
  | types => .row type
  | typed => .record [("type", type)]
  | reference => .record [("type", type), ("lifetime", lifetime)]
  | qualified => .record [("args", args), ("self_type", type), ("trait", path)]
  | path => .open_ [("args", args)]
  | args => .open_ [("angle_bracketed", angled), ("parenthesized", parens)]
  | angled => .record [("args", argList), ("constraints", constraints)]
  | parens => .record [("inputs", types), ("output", type)]
  | arg => .open_ [("type", type)]
  | argList => .row arg
  | constraint => .open_ [("args", args), ("binding", binding)]
  | constraints => .row constraint
  | binding => .record [("equality", term), ("constraint", bounds)]
  | term => .record [("type", type)]
  | bound => .open_ [("trait_bound", traitBound), ("use", anys)]
  | bounds => .row bound
  | traitBound => .record [("generic_params", params), ("trait", path)]
  | traitBounds => .row traitBound
  | dynTrait => .record [("traits", traitBounds)]
  | pointer => .record [("sig", signature), ("header", header), ("generic_params", params)]
  | signature => .record [("inputs", inputs), ("output", type)]
  | header => .record [("abi", abi)]
  | input => .pair type
  | inputs => .row input
  | param => .open_ [("kind", paramKind)]
  | params => .row param
  | paramKind => .record [("lifetime", outlives), ("type", typeParam), ("const", typed)]
  | outlives => .record [("outlives", words)]
  | typeParam => .record [("bounds", bounds), ("default", type)]
  | predicate => .open_ [("bound_predicate", boundPredicate),
      ("lifetime_predicate", outlives), ("eq_predicate", equation)]
  | boundPredicate => .record [("bounds", bounds), ("generic_params", params), ("type", type)]
  | equation => .record [("lhs", type), ("rhs", term)]

/-- The form of a member under a key. -/
def member (f : Form) (k : String) : Form := (f.rule.members.lookup k).getD any

mutual

/-- The value has the form. -/
def fits : Form → Value → Bool
  | f, .list vs => f.rule.allows (.list vs) && f.rule.element.fitsAll vs
  | f, .object ms => f.rule.allows (.object ms) && f.fitsMembers ms
  | f, v => f.rule.allows v

def fitsAll : Form → List Value → Bool
  | _, [] => true
  | f, v :: vs => f.fits v && f.fitsAll vs

/-- The members of an object have the forms that their keys ask for. -/
def fitsMembers : Form → List (String × Value) → Bool
  | _, [] => true
  | f, (k, v) :: ms => (f.member k).fits v && f.fitsMembers ms

end

variable {f : Form} {v : Value}

theorem allows_of_fits (h : f.fits v = true) : f.rule.allows v = true := by
  cases v with
  | list vs => exact (Bool.and_eq_true_iff.1 (by simpa only [fits] using h)).1
  | object ms => exact (Bool.and_eq_true_iff.1 (by simpa only [fits] using h)).1
  | _ => simpa only [fits] using h

theorem fitsAll_iff {vs : List Value} : f.fitsAll vs = true ↔ ∀ v ∈ vs, f.fits v = true := by
  induction vs with
  | nil => simp [fitsAll]
  | cons v vs ih => simp [fitsAll, ih]

theorem fitsMembers_iff {ms : List (String × Value)} :
    f.fitsMembers ms = true ↔ ∀ m ∈ ms, (f.member m.1).fits m.2 = true := by
  induction ms with
  | nil => simp [fitsMembers]
  | cons m ms ih => simp [fitsMembers, ih]

theorem fits_of_mem {vs : List Value} (h : f.fits (.list vs) = true) :
    ∀ w ∈ vs, f.rule.element.fits w = true := by
  simp only [fits, Bool.and_eq_true] at h
  exact fitsAll_iff.1 h.2

theorem fits_of_lookup {ms : List (String × Value)} (h : f.fits (.object ms) = true)
    {k : String} {w : Value} (hw : ms.lookup k = some w) : (f.member k).fits w = true := by
  simp only [fits, Bool.and_eq_true] at h
  exact fitsMembers_iff.1 h.2 _ (mem_of_lookup_eq_some hw)

/-- The only member of an object has the form that its key asks for. -/
theorem fits_body {k : String} {w : Value} (h : f.fits (.object [(k, w)]) = true) :
    (f.member k).fits w = true :=
  fits_of_lookup h (by simp)

/-- A member that may be left out has its form, there or not. -/
theorem fits_part (k : String) {ms : List (String × Value)} (h : f.fits (.object ms) = true)
    (hnull : (f.member k).fits .null = true) :
    (f.member k).fits ((ms.lookup k).getD .null) = true := by
  cases hw : ms.lookup k with
  | none => exact hnull
  | some w => exact fits_of_lookup h hw

/-- What has a record's form reads as an object of this form. -/
theorem exists_record {members : List (String × Form)} (hrule : f.rule = .record members)
    (h : f.fits v = true) : ∃ ms, v.orObject = .object ms ∧ f.fits (.object ms) = true := by
  have hrecord : v.isRecord = true := by simpa [hrule, Rule.record] using allows_of_fits h
  obtain ⟨ms, hms, -⟩ := Value.orObject_of_isRecord hrecord
  refine ⟨ms, hms, ?_⟩
  cases hset : v.isSet with
  | true =>
    rw [Value.orObject, Value.orElse, hset, if_pos rfl] at hms
    exact hms ▸ h
  | false =>
    rw [Value.orObject, Value.orElse, hset, if_neg Bool.false_ne_true] at hms
    obtain rfl : [] = ms := Value.object.inj hms
    simp [fits, fitsMembers, hrule, Rule.record, Value.isRecord]

/-- A member of a record is found, and has its form. -/
theorem exists_field (k : String) {members : List (String × Form)}
    (hrule : f.rule = .record members) (h : f.fits v = true)
    (hnull : (f.member k).fits .null = true) :
    ∃ w, v.orObject.field k = .ok w ∧ (f.member k).fits w = true := by
  obtain ⟨ms, hms, hfits⟩ := exists_record hrule h
  exact ⟨_, by rw [hms]; rfl, fits_part k hfits hnull⟩

/-- A row is run through, and its elements have their form. -/
theorem exists_elements {e : Form} (hrule : f.rule = .row e) (h : f.fits v = true) :
    ∃ vs, v.elementsOrNone = .ok vs ∧ ∀ w ∈ vs, e.fits w = true := by
  have hallows := allows_of_fits h
  have helement : f.rule.element = e := by rw [hrule]; rfl
  rw [hrule] at hallows
  unfold Value.elementsOrNone
  cases hset : v.isSet with
  | false => exact ⟨[], rfl, fun _ hw => absurd hw List.not_mem_nil⟩
  | true =>
    cases v with
    | list vs => exact ⟨vs, rfl, helement ▸ fits_of_mem h⟩
    | _ => simp [Rule.row, hset] at hallows

end Form

end CrateBook
