import CrateBook.Export.Id

/-!
# Ids that are numbers

An id of decimal digits, of any script, is ordered as a number, unless it has more digits than
are read; an id with a character that is no digit is ordered as a text. Only ids with digits
that are not decimal, and those that are too long, have no place in the order.
-/
namespace CrateBook

namespace Text

/-- Where no character would be dropped, nothing is. -/
theorem dropAround_of_not {p : Char → Bool} {cs : List Char} (h : ∀ c ∈ cs, p c = false) :
    dropAround p cs = cs := by
  have hdrop {cs : List Char} (h : ∀ c ∈ cs, p c = false) : cs.dropWhile p = cs := by
    cases cs with
    | nil => rfl
    | cons c cs => rw [List.dropWhile_cons_of_neg (by simp [h c List.mem_cons_self])]
  have hreverse : ∀ c ∈ cs.reverse, p c = false := fun c hc => h c (List.mem_reverse.1 hc)
  rw [dropAround, hdrop h, dropBack, hdrop hreverse, List.reverse_reverse]

def blankCodes : List Nat :=
  [9, 10, 11, 12, 13, 28, 29, 30, 31, 32, 0x85, 0xA0, 0x1680, 0x2000, 0x2001, 0x2002, 0x2003,
    0x2004, 0x2005, 0x2006, 0x2007, 0x2008, 0x2009, 0x200A, 0x2028, 0x2029, 0x202F, 0x205F, 0x3000]

/-- A decimal digit is no blank. -/
theorem isBlank_of_isDecimal {c : Char} (h : isDecimal c = true) : isBlank c = false := by
  have hall : ∀ n ∈ blankCodes, isDecimal (Char.ofNat n) = false := by decide
  cases hblank : isBlank c with
  | false => rfl
  | true =>
    have hmem : c.toNat ∈ blankCodes := by
      simp only [isBlank, Bool.or_eq_true, Bool.and_eq_true, beq_iff_eq,
        decide_eq_true_eq] at hblank
      simp only [blankCodes, List.mem_cons, List.not_mem_nil, or_false]
      omega
    have hno := hall _ hmem
    rw [Char.ofNat_toNat, h] at hno
    cases hno

def isFigure (c : Char) : Bool := 0x30 ≤ c.toNat && c.toNat ≤ 0x39

theorem isFigure_ofNat {d : Nat} (h : d < 10) : isFigure (Char.ofNat (0x30 + d)) = true := by
  have hall : ∀ d < 10, isFigure (Char.ofNat (0x30 + d)) = true := by decide
  exact hall d h

/-- In ASCII a decimal digit stays one. -/
theorem isFigure_plainChar {c : Char} (h : isDecimal c = true) : isFigure (plainChar c) = true := by
  obtain ⟨d, hd⟩ := Option.isSome_iff_exists.1 h
  unfold plainChar
  split
  · next hascii =>
    rw [decimal?, if_pos hascii] at hd
    split at hd
    · next hrange => simpa [isFigure] using hrange
    · cases hd
  · next hascii =>
    rw [isBlank_of_isDecimal h, if_neg Bool.false_ne_true, hd]
    rw [decimal?, if_neg hascii] at hd
    obtain ⟨r, -, rfl⟩ := Option.map_eq_some_iff.1 hd
    exact isFigure_ofNat (Nat.mod_lt _ (by decide))

/-- Digits of ASCII are no blanks, signs or underscores. -/
theorem ne_of_isFigure {c : Char} (h : isFigure c = true) :
    isNumberBlank c = false ∧ c ≠ '-' ∧ c ≠ '+' ∧ c ≠ '_' ∧ isDecimal c = true := by
  simp only [isFigure, Bool.and_eq_true, decide_eq_true_eq] at h
  refine ⟨?_, ?_, ?_, ?_, ?_⟩
  · have hspace : c ≠ ' ' := by rintro rfl; exact absurd h.1 (by decide)
    simp [isNumberBlank, hspace]
    omega
  · rintro rfl; exact absurd h.1 (by decide)
  · rintro rfl; exact absurd h.1 (by decide)
  · rintro rfl; exact absurd h.2 (by decide)
  · have hascii : c.toNat < 0x80 := by omega
    rw [isDecimal, decimal?, if_pos hascii, if_pos h]
    rfl

section

variable {cs : List Char} (h : ∀ c ∈ cs, isFigure c = true)

include h

theorem dropAround_isNumberBlank : dropAround isNumberBlank cs = cs :=
  dropAround_of_not fun c hc => (ne_of_isFigure (h c hc)).1

theorem signed_eq : signed cs = (false, cs) := by
  unfold signed
  split
  · exact absurd rfl (ne_of_isFigure (h _ List.mem_cons_self)).2.1
  · exact absurd rfl (ne_of_isFigure (h _ List.mem_cons_self)).2.2.1
  · rfl

theorem ungrouped?_eq_self (hne : cs ≠ []) : ungrouped? cs = some cs := by
  fun_induction ungrouped? cs with
  | case1 => exact absurd rfl hne
  | case2 c hc => rfl
  | case3 c hc => exact absurd (ne_of_isFigure (h c List.mem_cons_self)).2.2.2.2 hc
  | case4 c rest hc ih =>
    exact absurd rfl (ne_of_isFigure (h '_' (by simp))).2.2.2.1
  | case5 c rest hc =>
    exact absurd rfl (ne_of_isFigure (h '_' (by simp))).2.2.2.1
  | case6 c rest hone hgroup hc ih =>
    rw [ih (fun b hb => h b (List.mem_cons_of_mem c hb)) hone]
    rfl
  | case7 c rest hone hgroup hc =>
    exact absurd (ne_of_isFigure (h c List.mem_cons_self)).2.2.2.2 hc

theorem isSome_decimalValue? : (decimalValue? cs).isSome = true := by
  have hfold : ∀ n : Nat, (cs.foldl (fun n? c => n?.bind fun n =>
      (decimal? c).map (10 * n + ·)) (some n)).isSome = true := by
    induction cs with
    | nil => exact fun _ => rfl
    | cons c cs ih =>
      intro n
      obtain ⟨d, hd⟩ := Option.isSome_iff_exists.1 (ne_of_isFigure (h c List.mem_cons_self)).2.2.2.2
      rw [List.foldl_cons, Option.bind_some, hd]
      exact ih (fun c hc => h c (List.mem_cons_of_mem _ hc)) _
  exact hfold 0

end

/-- Decimal digits make a number if they are not too many. -/
theorem isSome_readInt?_iff {s : String} (h : ∀ c ∈ s.toList, isDecimal c = true)
    (hne : s.toList ≠ []) : (readInt? s).isSome = true ↔ s.toList.length ≤ maxDigits := by
  have hfigures : ∀ c ∈ s.toList.map plainChar, isFigure c = true := by
    intro c hc
    obtain ⟨b, hb, rfl⟩ := List.mem_map.1 hc
    exact isFigure_plainChar (h b hb)
  have hnumber : plainNumber s.toList = s.toList.map plainChar := dropAround_isNumberBlank hfigures
  obtain ⟨n, hn⟩ := Option.isSome_iff_exists.1 (isSome_decimalValue? hfigures)
  have hread : readNat? (s.toList.map plainChar) =
      if s.toList.length ≤ maxDigits then some n else none := by
    rw [readNat?, ungrouped?_eq_self hfigures (by simpa using hne)]
    simp [hn]
  rw [readInt?, hnumber, signed_eq hfigures]
  simp only [hread]
  split <;> simp_all

end Text

namespace Id

/-- A decimal id has a place in the order if it is not too long. -/
theorem isSome_key?_iff {id : Id} (h : ∀ c ∈ id.toList, Text.isDecimal c = true) :
    (key? id).isSome = true ↔ id.toList.length ≤ Text.maxDigits := by
  by_cases hne : id.toList = []
  · have hempty : Text.isDigits id = false := by
      simp [Text.isDigits, String.toList_eq_nil_iff.1 hne]
    simp [key?, hempty, hne]
  · have hdigits : Text.isDigits id = true := by
      simp only [Text.isDigits, Bool.and_eq_true, List.all_eq_true]
      refine ⟨by simpa using hne, fun c hc => ?_⟩
      rw [Text.isDigit, h c hc, Bool.true_or]
    rw [key?, if_pos hdigits, Option.isSome_map, Text.isSome_readInt?_iff h hne]

/-- A text of decimal digits is the id that it gives. -/
theorem ofValue?_of_isDecimal {id : Id} (h : ∀ c ∈ id.toList, Text.isDecimal c = true)
    (hne : id ≠ "") : ofValue? (.str id) = some id := by
  have htrim : Text.trim id = id := by
    have hblank : ∀ c ∈ id.toList, Text.isBlank c = false :=
      fun c hc => Text.isBlank_of_isDecimal (h c hc)
    rw [Text.trim, Text.trimBy, Text.dropAround_of_not hblank, String.ofList_toList]
  simp [ofValue?, htrim, hne]

/-- An id with a character that is no digit has a place in the order. -/
theorem isSome_key?_of_not_isDigit {id : Id} (h : ∃ c ∈ id.toList, Text.isDigit c = false) :
    (key? id).isSome = true := by
  obtain ⟨c, hc, hdigit⟩ := h
  have hdigits : ¬ Text.isDigits id = true := by
    intro hall
    simp only [Text.isDigits, Bool.and_eq_true, List.all_eq_true] at hall
    rw [hall.2 c hc] at hdigit
    cases hdigit
  rw [key?, if_neg hdigits]
  rfl

end Id

end CrateBook
