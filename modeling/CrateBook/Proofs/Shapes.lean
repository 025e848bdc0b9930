/-!
# Shapes of types

A shape says what a type is made of: names of generics, references, trait objects, tuples, slices
and pointers to functions. It has a text, and it can be cut off below some levels. A shape is clear
if no trait object with several traits stands where the output of a trait ends; there a plus sign
would belong to the trait object around that output. The rules for types and the reader of their
texts both spend fuel; what holds with enough of it can be put together here.
-/
namespace CrateBook

/-! ## The grammar -/

/-- Words that begin a type, or stand in front of one, and are no names. -/
def keywords : List String := ["dyn", "extern", "fn", "mut", "unsafe"]

/-- The character ends a name in the text of a type. -/
def endsName (c : Char) : Bool := [' ', '&', '(', ')', ',', '.', ':', '[', ']'].contains c

/-- The name of a generic or of a trait. -/
structure TypeName where
  text : String
  nonempty : text ≠ ""
  unbroken : ∀ c ∈ text.toList, endsName c = false
  free : text ∉ keywords

theorem unbroken_of_all {s : String} (h : (s.toList.all fun c => !endsName c) = true) :
    ∀ c ∈ s.toList, endsName c = false := by
  simpa using h

/-- What a pointer to a function says about its callee. -/
structure PointerHead where
  isUnsafe : Bool := false
  /-- The calling convention, if it is not the usual one. -/
  abi : Option {s : String // '"' ∉ s.toList} := none

mutual

/-- What a type is made of. -/
inductive Shape where
  /-- Three dots: what is too deep to be written, or more arguments of any type. -/
  | dots
  | name (n : TypeName)
  | ref (isMutable : Bool) (t : Shape)
  | dyn (first : Bound) (more : List Bound)
  | tuple (ts : List Shape)
  | slice (t : Shape)
  | pointer (head : PointerHead) (inputs : List Shape) (output : Option Shape)

/-- A trait of a trait object. -/
inductive Bound where
  | plain (n : TypeName)
  | called (n : TypeName) (inputs : List Shape) (output : Option Shape)

end

/-! ## Texts -/

/-- The text between the parentheses of a tuple; a comma tells one of one element. -/
def tupleText : List String → String
  | [s] => s ++ ","
  | ss => ", ".intercalate ss

def callText (inputs : List String) (output : Option String) : String :=
  "(" ++ ", ".intercalate inputs ++ ")" ++ (output.map (" -> " ++ ·)).getD ""

/-- The text in front of the inputs of a pointer. -/
def PointerHead.text (h : PointerHead) : String :=
  (if h.isUnsafe then "unsafe " else "") ++
    (h.abi.map fun s => "extern \"" ++ s.val ++ "\" ").getD "" ++ "fn"

mutual

def Shape.text : Shape → String
  | .dots => "..."
  | .name n => n.text
  | .ref isMutable t => "&" ++ (if isMutable then "mut " else "") ++ t.text
  | .dyn b bs => "dyn " ++ " + ".intercalate (b.text :: Bound.texts bs)
  | .tuple ts => "(" ++ tupleText (Shape.texts ts) ++ ")"
  | .slice t => "[" ++ t.text ++ "]"
  | .pointer head ts out => head.text ++ callText (Shape.texts ts) (Shape.outputText out)

def Bound.text : Bound → String
  | .plain n => n.text
  | .called n ts out => n.text ++ callText (Shape.texts ts) (Shape.outputText out)

def Shape.texts : List Shape → List String
  | [] => []
  | t :: ts => t.text :: Shape.texts ts

def Bound.texts : List Bound → List String
  | [] => []
  | b :: bs => b.text :: Bound.texts bs

def Shape.outputText : Option Shape → Option String
  | none => none
  | some t => some t.text

end

mutual

/-- A shape down to so many levels. -/
def Shape.cut : Nat → Shape → Shape
  | 0, _ => .dots
  | _ + 1, .dots => .dots
  | _ + 1, .name n => .name n
  | n + 1, .ref isMutable t => .ref isMutable (t.cut n)
  | n + 1, .dyn b bs => .dyn (b.cut n) (Bound.cutAll n bs)
  | n + 1, .tuple ts => .tuple (Shape.cutAll n ts)
  | n + 1, .slice t => .slice (t.cut n)
  | n + 1, .pointer head ts out => .pointer head (Shape.cutAll n ts) (Shape.cutOutput n out)

/-- A trait with its inputs and its output down to so many levels. -/
def Bound.cut : Nat → Bound → Bound
  | _, .plain n => .plain n
  | n, .called m ts out => .called m (Shape.cutAll n ts) (Shape.cutOutput n out)

/-- Several shapes down to so many levels. -/
def Shape.cutAll : Nat → List Shape → List Shape
  | _, [] => []
  | n, t :: ts => t.cut n :: Shape.cutAll n ts

/-- Several traits down to so many levels. -/
def Bound.cutAll : Nat → List Bound → List Bound
  | _, [] => []
  | n, b :: bs => b.cut n :: Bound.cutAll n bs

/-- An output down to so many levels. -/
def Shape.cutOutput : Nat → Option Shape → Option Shape
  | _, none => none
  | n, some t => some (t.cut n)

end

theorem Shape.cut_dots (n : Nat) : Shape.dots.cut n = .dots := by
  cases n <;> rw [Shape.cut]

/-! ## Clear shapes -/

mutual

/-- No trait object with several traits stands at the end of a trait's output. `atEnd` tells that
the shape stands there itself. -/
def Shape.isClear : Bool → Shape → Bool
  | _, .dots => true
  | _, .name _ => true
  | atEnd, .ref _ t => t.isClear atEnd
  | atEnd, .dyn b bs => (!atEnd || bs.isEmpty) && b.isClear && Bound.areClear bs
  | _, .tuple ts => Shape.areClear ts
  | _, .slice t => t.isClear false
  | atEnd, .pointer _ ts out => Shape.areClear ts && Shape.isClearOutput atEnd out

/-- The inputs and the output of a trait are clear. -/
def Bound.isClear : Bound → Bool
  | .plain _ => true
  | .called _ ts out => Shape.areClear ts && Shape.isClearOutput true out

/-- Several shapes, which stand at no end, are clear. -/
def Shape.areClear : List Shape → Bool
  | [] => true
  | t :: ts => t.isClear false && Shape.areClear ts

def Bound.areClear : List Bound → Bool
  | [] => true
  | b :: bs => b.isClear && Bound.areClear bs

def Shape.isClearOutput : Bool → Option Shape → Bool
  | _, none => true
  | atEnd, some t => t.isClear atEnd

end

theorem Bound.isEmpty_cutAll (n : Nat) (bs : List Bound) :
    (Bound.cutAll n bs).isEmpty = bs.isEmpty := by
  cases bs with
  | nil => rw [Bound.cutAll]
  | cons b bs => rw [Bound.cutAll, List.isEmpty_cons, List.isEmpty_cons]

mutual

/-- Cutting off what is deep leaves a shape clear. -/
theorem Shape.isClear_cut : ∀ (n : Nat) (atEnd : Bool) (s : Shape), s.isClear atEnd = true →
    (s.cut n).isClear atEnd = true
  | 0, _, _, _ => by rw [Shape.cut, Shape.isClear]
  | _ + 1, _, .dots, _ => by rw [Shape.cut, Shape.isClear]
  | _ + 1, _, .name _, _ => by rw [Shape.cut, Shape.isClear]
  | n + 1, atEnd, .ref _ t, h => by
    rw [Shape.isClear] at h
    rw [Shape.cut, Shape.isClear]
    exact Shape.isClear_cut n atEnd t h
  | n + 1, atEnd, .dyn b bs, h => by
    simp only [Shape.isClear, Bool.and_eq_true] at h
    simp only [Shape.cut, Shape.isClear, Bool.and_eq_true, Bound.isEmpty_cutAll]
    exact ⟨⟨h.1.1, Bound.isClear_cut n b h.1.2⟩, Bound.areClear_cut n bs h.2⟩
  | n + 1, _, .tuple ts, h => by
    rw [Shape.isClear] at h
    rw [Shape.cut, Shape.isClear]
    exact Shape.areClear_cut n ts h
  | n + 1, _, .slice t, h => by
    rw [Shape.isClear] at h
    rw [Shape.cut, Shape.isClear]
    exact Shape.isClear_cut n false t h
  | n + 1, atEnd, .pointer _ ts out, h => by
    simp only [Shape.isClear, Bool.and_eq_true] at h
    simp only [Shape.cut, Shape.isClear, Bool.and_eq_true]
    exact ⟨Shape.areClear_cut n ts h.1, Shape.isClearOutput_cut n atEnd out h.2⟩

theorem Bound.isClear_cut : ∀ (n : Nat) (b : Bound), b.isClear = true → (b.cut n).isClear = true
  | _, .plain _, _ => by rw [Bound.cut, Bound.isClear]
  | n, .called _ ts out, h => by
    simp only [Bound.isClear, Bool.and_eq_true] at h
    simp only [Bound.cut, Bound.isClear, Bool.and_eq_true]
    exact ⟨Shape.areClear_cut n ts h.1, Shape.isClearOutput_cut n true out h.2⟩

theorem Shape.areClear_cut : ∀ (n : Nat) (ts : List Shape), Shape.areClear ts = true →
    Shape.areClear (Shape.cutAll n ts) = true
  | _, [], _ => by rw [Shape.cutAll, Shape.areClear]
  | n, t :: ts, h => by
    simp only [Shape.areClear, Bool.and_eq_true] at h
    simp only [Shape.cutAll, Shape.areClear, Bool.and_eq_true]
    exact ⟨Shape.isClear_cut n false t h.1, Shape.areClear_cut n ts h.2⟩

theorem Bound.areClear_cut : ∀ (n : Nat) (bs : List Bound), Bound.areClear bs = true →
    Bound.areClear (Bound.cutAll n bs) = true
  | _, [], _ => by rw [Bound.cutAll, Bound.areClear]
  | n, b :: bs, h => by
    simp only [Bound.areClear, Bool.and_eq_true] at h
    simp only [Bound.cutAll, Bound.areClear, Bool.and_eq_true]
    exact ⟨Bound.isClear_cut n b h.1, Bound.areClear_cut n bs h.2⟩

theorem Shape.isClearOutput_cut : ∀ (n : Nat) (atEnd : Bool) (out : Option Shape),
    Shape.isClearOutput atEnd out = true →
    Shape.isClearOutput atEnd (Shape.cutOutput n out) = true
  | _, _, none, _ => by rw [Shape.cutOutput, Shape.isClearOutput]
  | n, atEnd, some t, h => by
    rw [Shape.isClearOutput] at h
    rw [Shape.cutOutput, Shape.isClearOutput]
    exact Shape.isClear_cut n atEnd t h

end

/-! ## Fuel -/

/-- Something holds with enough fuel. -/
def Finally (p : Nat → Prop) : Prop := ∃ least, ∀ fuel, least ≤ fuel → p fuel

namespace Finally

variable {p q : Nat → Prop}

theorem always (h : ∀ fuel, p fuel) : Finally p := ⟨0, fun fuel _ => h fuel⟩

/-- What holds with enough fuel holds together with enough fuel. -/
theorem and (hp : Finally p) (hq : Finally q) : Finally fun fuel => p fuel ∧ q fuel := by
  obtain ⟨m, hm⟩ := hp
  obtain ⟨n, hn⟩ := hq
  exact ⟨max m n, fun fuel hfuel => ⟨hm fuel (by omega), hn fuel (by omega)⟩⟩

/-- What follows at every amount of fuel holds with enough fuel. -/
theorem imp (hp : Finally p) (h : ∀ fuel, p fuel → q fuel) : Finally q := by
  obtain ⟨m, hm⟩ := hp
  exact ⟨m, fun fuel hfuel => h fuel (hm fuel hfuel)⟩

/-- A rule spends a unit of fuel and goes on with the rest. -/
theorem spend (hp : Finally p) (h : ∀ fuel, p fuel → q (fuel + 1)) : Finally q := by
  obtain ⟨m, hm⟩ := hp
  refine ⟨m + 1, fun fuel hfuel => ?_⟩
  obtain ⟨fuel, rfl⟩ := Nat.exists_eq_succ_of_ne_zero (n := fuel) (by omega)
  exact h fuel (hm fuel (by omega))

/-- What holds whenever there is fuel to spend holds with enough fuel. -/
theorem succ (h : ∀ fuel, p (fuel + 1)) : Finally p :=
  spend (always fun _ => trivial) fun fuel _ => h fuel

end Finally

end CrateBook
