import CrateBook.Setting.Basic

/-!
# The order of keys

Keys are sorted where they are texts only or numbers only. What is no number is less than
nothing and nothing is less than it, so that the way in which keys are sorted shows: the
run that the keys start with, rising or falling, is sorted as it is, and each further key
goes where halving the sorted ones leads.
-/
namespace CrateBook

namespace Scalar

def isText : Scalar → Bool
  | str _ => true
  | _ => false

/-- The order of keys: texts in theirs, numbers in theirs, and none between both. -/
def keyLt : Scalar → Scalar → Bool
  | str s, str t => s < t
  | a, b =>
    match a.number?, b.number? with
    | some m, some n => m.lt n
    | _, _ => false

/-- The keys can be sorted. One alone always can. -/
def sortable (ks : List Scalar) : Bool :=
  ks.length ≤ 1 || ks.all isText || ks.all fun k => k.number?.isSome

end Scalar

namespace KeyOrder

variable {α : Type}

/-- The elements that go on with a run behind `a`, and those from the first break on. -/
def runFrom (breaks : α → α → Bool) : α → List α → List α × List α
  | _, [] => ([], [])
  | a, b :: rest =>
    if breaks a b then ([], b :: rest)
    else
      let (run, rest) := runFrom breaks b rest
      (b :: run, rest)

/-- The run that a list starts with, in rising order, and the elements behind it. -/
def leadingRun (lt : α → α → Bool) : List α → List α × List α
  | a :: b :: rest =>
    if lt b a then
      let falling := runFrom (fun x y => !lt y x) a (b :: rest)
      ((a :: falling.1).reverse, falling.2)
    else
      let rising := runFrom (fun x y => lt y x) a (b :: rest)
      (a :: rising.1, rising.2)
  | xs => (xs, [])

/-- The place to which halving leads between two places of a list: to the lower half where an
element is beyond the one that is looked for. Each step takes a place away. -/
def halving (isBeyond : α → Bool) (xs : List α) : Nat → Nat → Nat → Nat
  | 0, low, _ => low
  | n + 1, low, high =>
    let middle := low + (high - low) / 2
    match xs[middle]? with
    | some x =>
      if high ≤ low then low
      else if isBeyond x then halving isBeyond xs n low middle
      else halving isBeyond xs n (middle + 1) high
    | none => low

/-- Puts an element among sorted ones. -/
def insert (lt : α → α → Bool) (xs : List α) (x : α) : List α :=
  let i := halving (lt x) xs xs.length 0 xs.length
  xs.take i ++ x :: xs.drop i

/-- The elements in rising order. -/
def sorted (lt : α → α → Bool) (xs : List α) : List α :=
  let (run, rest) := leadingRun lt xs
  rest.foldl (insert lt) run

theorem runFrom_append (breaks : α → α → Bool) (a : α) (xs : List α) :
    (runFrom breaks a xs).1 ++ (runFrom breaks a xs).2 = xs := by
  induction xs generalizing a with
  | nil => rfl
  | cons b rest ih =>
    unfold runFrom
    split
    · rfl
    · simpa using ih b

theorem leadingRun_perm (lt : α → α → Bool) (xs : List α) :
    ((leadingRun lt xs).1 ++ (leadingRun lt xs).2).Perm xs := by
  match xs with
  | [] => exact .refl _
  | [_] => exact .refl _
  | a :: b :: rest =>
    have falling := runFrom_append (fun x y => !lt y x) a (b :: rest)
    have rising := runFrom_append (fun x y => lt y x) a (b :: rest)
    by_cases h : lt b a = true
    · simp only [leadingRun, if_pos h]
      refine ((List.reverse_perm _).append_right _).trans ?_
      rw [List.cons_append, falling]
    · simp only [leadingRun, if_neg h]
      rw [List.cons_append, rising]

theorem insert_perm (lt : α → α → Bool) (xs : List α) (x : α) :
    (insert lt xs x).Perm (x :: xs) := by
  refine List.perm_middle.trans ?_
  rw [List.take_append_drop]

theorem foldl_insert_perm (lt : α → α → Bool) (run rest : List α) :
    (rest.foldl (insert lt) run).Perm (run ++ rest) := by
  induction rest generalizing run with
  | nil => simp
  | cons x rest ih =>
    refine (ih _).trans (((insert_perm lt run x).append_right rest).trans ?_)
    exact List.perm_middle.symm

/-- Sorting keeps the elements. -/
theorem sorted_perm (lt : α → α → Bool) (xs : List α) : (sorted lt xs).Perm xs :=
  (foldl_insert_perm lt _ _).trans (leadingRun_perm lt xs)

end KeyOrder

end CrateBook
