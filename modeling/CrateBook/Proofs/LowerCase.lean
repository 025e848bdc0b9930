import CrateBook.Text.Letter

/-!
# What lower case leaves alone

Lower case moves letters only. A printable ASCII character that is no letter stays where it
is, and nothing else becomes one: the signs that names are joined with can be read off a name
in lower case. The two sides of a hyphen or a slash have the lower-case forms that they have
alone.
-/
namespace CrateBook.Text

/-- The character is printable ASCII and no letter. -/
def isSign (c : Char) : Bool :=
  (0x20 ≤ c.toNat && c.toNat < 0x41) || (0x5B ≤ c.toNat && c.toNat < 0x61) ||
    (0x7B ≤ c.toNat && c.toNat < 0x7F)

theorem isSign_iff {c : Char} : isSign c = true ↔ 0x20 ≤ c.toNat ∧ c.toNat < 0x41 ∨
    0x5B ≤ c.toNat ∧ c.toNat < 0x61 ∨ 0x7B ≤ c.toNat ∧ c.toNat < 0x7F := by
  simp only [isSign, Bool.or_eq_true, Bool.and_eq_true, decide_eq_true_eq, or_assoc]

theorem isSign_of_isDigit {c : Char} (h : c.isDigit = true) : isSign c = true := by
  simp only [Char.isDigit, Bool.and_eq_true, decide_eq_true_eq] at h
  have hdigit : 48 ≤ c.toNat ∧ c.toNat ≤ 57 := h
  rw [isSign_iff]
  omega

/-- Lower case of ASCII ends in the small letters, or changes nothing. -/
theorem toLower_cases (c : Char) : c.toLower = c ∨
    0x61 ≤ c.toLower.toNat ∧ c.toLower.toNat ≤ 0x7A := by
  delta Char.toLower
  split
  · next h =>
    obtain ⟨hlow, hhigh⟩ : 0x41 ≤ c.val.toNat ∧ c.val.toNat ≤ 0x5A := h
    have hshift : ('a'.val - 'A'.val).toNat = 0x20 := rfl
    refine .inr ?_
    rw [Char.toNat, UInt32.toNat_add, hshift]
    omega
  · exact .inl rfl

/-- From outside of ASCII no run of letters leads into it, but for the sign of the kelvin. -/
theorem le_moveCase_lowerRuns {n : Nat} (h : 0x80 ≤ n) :
    0x80 ≤ moveCase lowerRuns n ∨ moveCase lowerRuns n = 0x6B := by
  have hruns : ∀ r ∈ lowerRuns, r.last < 0x80 ∨ 0x80 ≤ (r.first : Int) + r.shift ∨
      r.first = r.last ∧ (r.first : Int) + r.shift = 0x6B := by decide +kernel
  unfold moveCase
  split
  · next r hr =>
    have hholds := List.find?_some hr
    simp only [CaseRun.holds, Bool.and_eq_true, decide_eq_true_eq] at hholds
    rcases hruns r (List.mem_of_find?_eq_some hr) with hlast | hfirst | ⟨hlast, hshift⟩
    · omega
    · exact .inl (by omega)
    · exact .inr (by omega)
  · exact .inl h

/-- The character of a number has this number, or is the null character. -/
theorem toNat_ofNat_cases (n : Nat) : (Char.ofNat n).toNat = n ∨ (Char.ofNat n).toNat = 0 := by
  by_cases h : n.isValidChar
  · left
    rw [Char.ofNat, dif_pos h]
    rfl
  · right
    rw [Char.ofNat, dif_neg h]
    rfl

/-- ASCII apart from the capital letters is left alone. -/
theorem lowerChar_of_ascii {c : Char} (hascii : c.toNat < 0x80)
    (hupper : ¬ (0x41 ≤ c.toNat ∧ c.toNat ≤ 0x5A)) : lowerChar c = [c] := by
  rw [lowerChar, if_pos hascii]
  delta Char.toLower
  rw [dif_neg]
  exact hupper

section

variable {c d : Char} (hd : isSign d = true)

include hd

theorem lowerChar_of_isSign : lowerChar d = [d] := by
  rw [isSign_iff] at hd
  exact lowerChar_of_ascii (by omega) (by omega)

/-- Only a sign becomes a sign. -/
theorem eq_of_mem_lowerChar (h : d ∈ lowerChar c) : d = c := by
  rw [isSign_iff] at hd
  unfold lowerChar at h
  split at h
  · rcases toLower_cases c with hsame | hletter
    · rw [hsame] at h
      exact List.mem_singleton.1 h
    · rw [← List.mem_singleton.1 h] at hletter
      omega
  · split at h
    · rcases List.mem_cons.1 h with rfl | h
      · exact absurd hd (by decide)
      · rw [List.mem_singleton.1 h] at hd
        exact absurd hd (by decide)
    · next hascii _ =>
      have hmove := le_moveCase_lowerRuns (Nat.le_of_not_lt hascii)
      have hcode := toNat_ofNat_cases (moveCase lowerRuns c.toNat)
      rw [← List.mem_singleton.1 h] at hcode
      omega

theorem lowerAt_of_isSign (before rest : List Char) : lowerAt before d rest = [d] := by
  have hsigma : d ≠ 'Σ' := fun h => absurd (h ▸ hd) (by decide)
  rw [lowerAt, if_neg hsigma, lowerChar_of_isSign hd]

theorem eq_of_mem_lowerAt {before rest : List Char} (h : d ∈ lowerAt before c rest) : d = c := by
  unfold lowerAt at h
  split at h
  · have hsigmas : isSign 'ς' = false ∧ isSign 'σ' = false := by decide
    rw [List.mem_singleton.1 h] at hd
    split at hd <;> simp [hsigmas] at hd
  · exact eq_of_mem_lowerChar hd h

/-- A sign stands in a text in lower case where it stands in the text. -/
theorem mem_lowerAfter {before cs : List Char} : d ∈ lowerAfter before cs ↔ d ∈ cs := by
  induction cs generalizing before with
  | nil => rfl
  | cons c rest ih =>
    rw [lowerAfter, List.mem_append, ih, List.mem_cons]
    refine or_congr_left ⟨eq_of_mem_lowerAt hd, ?_⟩
    rintro rfl
    rw [lowerAt_of_isSign hd]
    exact List.mem_singleton_self d

end

/-- Signs only are left as they are. -/
theorem lowerAfter_of_signs {before ds : List Char} (h : ∀ d ∈ ds, isSign d = true) :
    lowerAfter before ds = ds := by
  induction ds generalizing before with
  | nil => rfl
  | cons d ds ih =>
    rw [lowerAfter, lowerAt_of_isSign (h d List.mem_cons_self),
      ih fun e he => h e (List.mem_cons_of_mem d he)]
    rfl

/-- The end of a text has the lower-case form that it has behind the rest. -/
theorem suffix_lowerAfter (before cs ds : List Char) :
    lowerAfter (cs.reverse ++ before) ds <:+ lowerAfter before (cs ++ ds) := by
  induction cs generalizing before with
  | nil => exact List.suffix_rfl
  | cons c cs ih =>
    have hrest := ih (c :: before)
    rw [List.reverse_cons, List.append_assoc, List.singleton_append, List.cons_append, lowerAfter]
    exact hrest.trans (List.suffix_append _ _)

/-- The sign stands between words: it has no case, and the search for a neighbouring letter does
not pass over it. -/
def separates (d : Char) : Bool := isSign d && !isCaseIgnorable d && !isCased d

section

variable {d : Char} (hd : separates d = true)

include hd

theorem isSign_of_separates : isSign d = true := by
  simp only [separates, Bool.and_eq_true] at hd
  exact hd.1.1

theorem not_cased_of_separates : isCaseIgnorable d = false ∧ isCased d = false := by
  simp only [separates, Bool.and_eq_true, Bool.not_eq_true'] at hd
  exact ⟨hd.1.2, hd.2⟩

theorem dropWhile_append_separator (cs ds : List Char) :
    (cs ++ d :: ds).dropWhile isCaseIgnorable = cs.dropWhile isCaseIgnorable ++ d :: ds := by
  rw [List.dropWhile_append]
  split
  · next hempty =>
    rw [List.isEmpty_iff.1 hempty, List.nil_append,
      List.dropWhile_cons_of_neg (by simp [(not_cased_of_separates hd).1])]
  · rfl

/-- A separator ends a word as the end of the text does. -/
theorem endsWord_append_separator (before rest ds : List Char) :
    endsWord before (rest ++ d :: ds) = endsWord before rest := by
  unfold endsWord
  rw [dropWhile_append_separator hd]
  cases rest.dropWhile isCaseIgnorable with
  | nil => simp [(not_cased_of_separates hd).2]
  | cons c cs => rfl

/-- A separator starts a word as the start of the text does. -/
theorem endsWord_separator (before front rest : List Char) :
    endsWord (before ++ d :: front) rest = endsWord before rest := by
  unfold endsWord
  rw [dropWhile_append_separator hd]
  cases before.dropWhile isCaseIgnorable with
  | nil => simp [(not_cased_of_separates hd).2]
  | cons c cs => rfl

/-- What stands behind a separator has the lower-case form that it has alone. -/
theorem lowerAfter_separator (before front cs : List Char) :
    lowerAfter (before ++ d :: front) cs = lowerAfter before cs := by
  induction cs generalizing before with
  | nil => rfl
  | cons c cs ih =>
    have hat : lowerAt (before ++ d :: front) c cs = lowerAt before c cs := by
      unfold lowerAt
      rw [endsWord_separator hd]
    rw [lowerAfter, hat, ← List.cons_append, ih, lowerAfter]

/-- What stands in front of a separator has the lower-case form that it has alone. -/
theorem lowerAfter_append_separator (before cs ds : List Char) :
    lowerAfter before (cs ++ d :: ds) =
      lowerAfter before cs ++ lowerAfter (cs.reverse ++ before) (d :: ds) := by
  induction cs generalizing before with
  | nil => rfl
  | cons c cs ih =>
    have hat : lowerAt before c (cs ++ d :: ds) = lowerAt before c cs := by
      unfold lowerAt
      rw [endsWord_append_separator hd]
    have hcons : lowerAfter before (c :: cs) =
        lowerAt before c cs ++ lowerAfter (c :: before) cs := rfl
    rw [List.cons_append, lowerAfter, hat, ih, hcons, List.append_assoc, List.reverse_cons,
      List.append_assoc, List.singleton_append]

/-- The two sides of a separator have the lower-case forms that they have alone. -/
theorem lower_append_separator (s t : String) :
    lower (s ++ String.singleton d ++ t) = lower s ++ String.singleton d ++ lower t := by
  have hsign : lowerAt s.toList.reverse d t.toList = [d] :=
    lowerAt_of_isSign (isSign_of_separates hd) _ _
  have hlist : (s ++ String.singleton d ++ t).toList = s.toList ++ d :: t.toList := by simp
  refine String.toList_inj.1 ?_
  rw [lower, hlist, lowerAfter_append_separator hd, List.append_nil, lowerAfter, hsign]
  have hbehind := lowerAfter_separator hd [] s.toList.reverse t.toList
  rw [List.nil_append] at hbehind
  rw [hbehind]
  simp [lower]

end

/-- The two sides of a hyphen have the lower-case forms that they have alone. -/
theorem lower_append_hyphen (s t : String) : lower (s ++ "-" ++ t) = lower s ++ "-" ++ lower t := by
  have hseparates : separates '-' = true := by decide +kernel
  exact lower_append_separator hseparates s t

/-- A number behind a hyphen is left alone, and so is what stands in front of the hyphen. -/
theorem lower_numbered (s : String) (k : Nat) :
    lower (s ++ "-" ++ toString k) = lower s ++ "-" ++ toString k := by
  have hdigits : ∀ d ∈ (toString k).toList, isSign d = true := by
    intro d hd
    rw [Nat.toString_eq_repr, Nat.toList_repr] at hd
    exact isSign_of_isDigit (Nat.isDigit_of_mem_toDigits (by decide) (by decide) hd)
  have hnumber : lower (toString k) = toString k := by
    rw [lower, lowerAfter_of_signs hdigits, String.ofList_toList]
  rw [lower_append_hyphen, hnumber]

end CrateBook.Text
