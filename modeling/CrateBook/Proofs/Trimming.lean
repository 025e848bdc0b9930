import CrateBook.Docs.Sanitize
import CrateBook.Proofs.Fences
import Mathlib.Data.List.DropRight

/-!
# Trimmed texts

Trimming cuts blanks off both ends of a text and leaves what is between. Of a text that is made
of lines it cuts off the blank lines at both ends, the indentation of the first line that is left
and the blanks behind the last one; all other lines stay.
-/
namespace CrateBook

namespace Text

section

variable {p : Char → Bool} {cs : List Char}

/-- The back is cut off behind what stays. -/
theorem dropBack_append (cs ds : List Char) :
    dropBack p (cs ++ ds) = if dropBack p ds = [] then dropBack p cs else cs ++ dropBack p ds := by
  rw [dropBack, List.reverse_append, List.dropWhile_append]
  by_cases hnil : ds.reverse.dropWhile p = []
  · rw [if_pos (by simp [hnil]), if_pos (by simp [dropBack, hnil]), dropBack]
  · rw [if_neg (by simpa using hnil), if_neg (by simpa [dropBack] using hnil)]
    simp [dropBack]

theorem dropBack_cons_of_neg {c : Char} (hc : p c = false) (cs : List Char) :
    dropBack p (c :: cs) = c :: dropBack p cs := by
  have happend := dropBack_append (p := p) [c] cs
  rw [List.singleton_append] at happend
  rw [happend]
  split
  · next hnil =>
    rw [hnil]
    exact List.rdropWhile_concat_neg p [] c (by simp [hc])
  · rfl

theorem dropBack_append_of_not {ds : List Char} (h : ∀ c ∈ cs, p c = false) :
    dropBack p (cs ++ ds) = cs ++ dropBack p ds := by
  induction cs with
  | nil => rfl
  | cons c cs ih =>
    obtain ⟨hc, hcs⟩ := List.forall_mem_cons.1 h
    rw [List.cons_append, dropBack_cons_of_neg hc, ih hcs, List.cons_append]

theorem dropBack_eq_nil_iff : dropBack p cs = [] ↔ ∀ c ∈ cs, p c = true :=
  List.rdropWhile_eq_nil_iff

@[simp] theorem dropBack_dropBack : dropBack p (dropBack p cs) = dropBack p cs :=
  List.rdropWhile_idempotent p cs

/-- What is left, and what is cut off the back. -/
theorem dropBack_append_back (cs : List Char) :
    dropBack p cs ++ (cs.reverse.takeWhile p).reverse = cs :=
  List.rdropWhile_append_rtakeWhile

theorem dropBack_cons (c : Char) (cs : List Char) :
    dropBack p (c :: cs) = [] ∨ ∃ more, dropBack p (c :: cs) = c :: more := by
  cases hback : dropBack p (c :: cs) with
  | nil => exact .inl rfl
  | cons d more =>
    have happend := dropBack_append_back (p := p) (c :: cs)
    rw [hback] at happend
    exact .inr ⟨more, by rw [(List.cons.inj happend).1]⟩

/-- A run of characters that stay is not touched from the back. -/
theorem dropWhile_dropBack {q : Char → Bool} (hpq : ∀ c, q c = true → p c = false)
    (cs : List Char) : (dropBack p cs).dropWhile q = dropBack p (cs.dropWhile q) := by
  induction cs with
  | nil => rfl
  | cons c cs ih =>
    cases hq : q c with
    | true => simp [dropBack_cons_of_neg (hpq c hq), hq, ih]
    | false =>
      rw [List.dropWhile_cons_of_neg (by simp [hq])]
      obtain hback | ⟨more, hback⟩ := dropBack_cons (p := p) c cs
      · simp [hback]
      · simp [hback, hq]

theorem takeWhile_dropBack {q : Char → Bool} (hpq : ∀ c, q c = true → p c = false)
    (cs : List Char) : (dropBack p cs).takeWhile q = cs.takeWhile q := by
  induction cs with
  | nil => rfl
  | cons c cs ih =>
    cases hq : q c with
    | true => simp [dropBack_cons_of_neg (hpq c hq), hq, ih]
    | false =>
      obtain hback | ⟨more, hback⟩ := dropBack_cons (p := p) c cs
      · simp [hback, hq]
      · simp [hback, hq]

end

end Text

namespace Docs

open Text (isBlank)

/-! ## Trimmed lines -/

/-- Lines without the blank ones in front of them, and without indentation of the first. -/
def trimFront : List (List Char) → List (List Char)
  | [] => []
  | l :: ls => if isBlankLine l then trimFront ls else l.dropWhile isBlank :: ls

/-- Lines without the blank ones behind them, and without blanks behind the last. -/
def trimBack : List (List Char) → List (List Char)
  | [] => []
  | l :: ls =>
    match trimBack ls with
    | [] => if isBlankLine l then [] else [Text.dropBack isBlank l]
    | k :: ks => l :: k :: ks

variable {line : List Char} {ls : List (List Char)}

theorem isBlankLine_iff : isBlankLine line = true ↔ ∀ c ∈ line, isBlank c = true := by
  simp [isBlankLine]

theorem dropWhile_of_isBlankLine (h : isBlankLine line = true) : line.dropWhile isBlank = [] :=
  List.dropWhile_eq_nil_iff.2 (isBlankLine_iff.1 h)

theorem dropWhile_joinLines (ls : List (List Char)) :
    (joinLines ls).dropWhile isBlank = joinLines (trimFront ls) := by
  induction ls with
  | nil => rfl
  | cons l ls ih =>
    cases ls with
    | nil =>
      rw [trimFront, joinLines_singleton]
      split
      · next hblank => exact dropWhile_of_isBlankLine hblank
      · exact (joinLines_singleton _).symm
    | cons k ls =>
      rw [joinLines_cons_cons, List.dropWhile_append, trimFront]
      split
      · next hnil =>
        have hblank : isBlankLine l = true := by simpa [isBlankLine] using hnil
        have hfeed : isBlank '\n' = true := by decide
        rw [if_pos hblank, List.dropWhile_cons_of_pos hfeed, ih]
      · next hsome =>
        have hblank : ¬isBlankLine l = true := by simpa [isBlankLine] using hsome
        rw [if_neg hblank, joinLines_cons_cons]

theorem getLast?_trimBack_ne : (trimBack ls).getLast? ≠ some [] := by
  fun_induction trimBack ls with
  | case1 => simp
  | case2 => simp
  | case3 l ls hnil hblank ih =>
    simpa [Text.dropBack_eq_nil_iff, isBlankLine] using hblank
  | case4 l ls k ks hcons ih =>
    rw [List.getLast?_cons_cons]
    exact hcons ▸ ih

theorem joinLines_eq_nil_iff (h : ls.getLast? ≠ some []) : joinLines ls = [] ↔ ls = [] := by
  match ls, h with
  | [], _ => simp [joinLines]
  | [l], h => simpa [joinLines] using h
  | l :: k :: ls, _ => simp [joinLines_cons_cons]

/-- The last line goes if it is blank. -/
theorem dropBack_line (l : List Char) : Text.dropBack isBlank l =
    joinLines (if isBlankLine l then [] else [Text.dropBack isBlank l]) := by
  split
  · next hblank => exact Text.dropBack_eq_nil_iff.2 (isBlankLine_iff.1 hblank)
  · exact (joinLines_singleton _).symm

theorem dropBack_joinLines (ls : List (List Char)) :
    Text.dropBack isBlank (joinLines ls) = joinLines (trimBack ls) := by
  induction ls with
  | nil => rfl
  | cons l ls ih =>
    cases ls with
    | nil =>
      rw [joinLines_singleton]
      exact dropBack_line l
    | cons k ls =>
      have hfeed : isBlank '\n' = true := by decide
      have hrest : Text.dropBack isBlank ('\n' :: joinLines (k :: ls)) =
          if trimBack (k :: ls) = [] then [] else '\n' :: joinLines (trimBack (k :: ls)) := by
        have happend := Text.dropBack_append (p := isBlank) ['\n'] (joinLines (k :: ls))
        rw [List.singleton_append, ih] at happend
        simp only [joinLines_eq_nil_iff getLast?_trimBack_ne] at happend
        rw [happend]
        simp [Text.dropBack, hfeed]
      rw [joinLines_cons_cons, Text.dropBack_append, hrest, trimBack.eq_def (l :: k :: ls)]
      dsimp only
      cases trimBack (k :: ls) with
      | nil =>
        rw [if_pos rfl, if_pos rfl]
        exact dropBack_line l
      | cons m ms => simp [joinLines_cons_cons]

theorem isLine_trimFront (h : ∀ l ∈ ls, IsLine l) : ∀ l ∈ trimFront ls, IsLine l := by
  fun_induction trimFront ls with
  | case1 => simp
  | case2 l ls hblank ih => exact ih (List.forall_mem_cons.1 h).2
  | case3 l ls hblank =>
    obtain ⟨hl, hls⟩ := List.forall_mem_cons.1 h
    exact List.forall_mem_cons.2 ⟨fun c hc => hl c ((List.dropWhile_suffix _).subset hc), hls⟩

theorem isLine_trimBack (h : ∀ l ∈ ls, IsLine l) : ∀ l ∈ trimBack ls, IsLine l := by
  fun_induction trimBack ls with
  | case1 => simp
  | case2 => simp
  | case3 l ls hnil ih hblank =>
    have hl := (List.forall_mem_cons.1 h).1
    have happend := Text.dropBack_append_back (p := isBlank) l
    refine List.forall_mem_singleton.2 fun c hc => hl c ?_
    rw [← happend]
    exact List.mem_append_left _ hc
  | case4 l ls k ks hcons ih =>
    obtain ⟨hl, hls⟩ := List.forall_mem_cons.1 h
    exact List.forall_mem_cons.2 ⟨hl, hcons ▸ ih hls⟩

/-- The lines of a trimmed text. -/
theorem splitLines_dropAround_joinLines (h : ∀ l ∈ ls, IsLine l) :
    Text.splitLines (Text.dropAround isBlank (joinLines ls)) = trimBack (trimFront ls) := by
  rw [Text.dropAround, dropWhile_joinLines, dropBack_joinLines,
    splitLines_joinLines (isLine_trimBack (isLine_trimFront h)), if_neg getLast?_trimBack_ne]

end Docs

end CrateBook
