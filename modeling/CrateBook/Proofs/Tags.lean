import CrateBook.Layout.Anchor
import CrateBook.Page

/-!
# The tags of anchors

An anchor is made of small letters, digits and hyphens. Its tag therefore has no character
that a table escapes, and starts and ends with one that is not blank: a text that holds the
tag still holds it as a cell, on a page, and where blanks are cut off.
-/
namespace CrateBook

namespace Text

theorem isSome_cutAt? {sep cs : List Char} : (cutAt? sep cs).isSome = true ↔ sep <:+: cs := by
  induction cs with
  | nil =>
    rw [cutAt?, List.infix_nil]
    cases sep <;> simp
  | cons c rest ih =>
    rw [cutAt?, List.infix_cons_iff]
    split
    · next h => simp [List.isPrefixOf_iff_prefix.1 h]
    · next h =>
      rw [List.isPrefixOf_iff_prefix] at h
      simp [h, ih]

/-- A text occurs in another one if its characters stand there in a row. -/
theorem occursIn_iff {sep s : String} : occursIn sep s = true ↔ sep.toList <:+: s.toList :=
  isSome_cutAt?

theorem occursIn_append_left {sep s : String} (h : occursIn sep s = true) (t : String) :
    occursIn sep (t ++ s) = true := by
  rw [occursIn_iff] at h ⊢
  rw [String.toList_append]
  exact h.trans (List.suffix_append _ _).isInfix

theorem occursIn_append_right {sep s : String} (h : occursIn sep s = true) (t : String) :
    occursIn sep (s ++ t) = true := by
  rw [occursIn_iff] at h ⊢
  rw [String.toList_append]
  exact h.trans (List.prefix_append _ _).isInfix

theorem occursIn_intercalate {sep s : String} {ss : List String} (hs : s ∈ ss)
    (h : occursIn sep s = true) (glue : String) : occursIn sep (glue.intercalate ss) = true := by
  induction ss with
  | nil => exact absurd hs List.not_mem_nil
  | cons t ts ih =>
    by_cases hts : ts = []
    · subst hts
      rw [String.intercalate_singleton]
      exact List.mem_singleton.1 hs ▸ h
    · rw [String.intercalate_cons_of_ne_nil hts]
      rcases List.mem_cons.1 hs with rfl | hs
      · exact occursIn_append_right (occursIn_append_right h _) _
      · exact occursIn_append_left (ih hs) _

theorem occursIn_join {sep s : String} {ss : List String} (hs : s ∈ ss)
    (h : occursIn sep s = true) : occursIn sep (String.join ss) = true := by
  rw [occursIn_iff] at h ⊢
  rw [String.toList_join, List.flatMap_def]
  exact h.trans (List.infix_of_mem_flatten (List.mem_map_of_mem hs))

/-- Cutting off the front leaves what starts with a character that stays. -/
theorem infix_dropWhile {p : Char → Bool} {c : Char} {t cs : List Char} (hc : p c = false)
    (h : c :: t <:+: cs) : c :: t <:+: cs.dropWhile p := by
  obtain ⟨before, after, rfl⟩ := h
  rw [List.append_assoc, List.dropWhile_append]
  split
  · rw [List.cons_append, List.dropWhile_cons_of_neg (by simp [hc])]
    exact (List.prefix_append (c :: t) after).isInfix
  · exact List.infix_append' _ _ _

/-- So does cutting off the back. -/
theorem infix_dropBack {p : Char → Bool} {c : Char} {t cs : List Char} (hc : p c = false)
    (h : t ++ [c] <:+: cs) : t ++ [c] <:+: dropBack p cs := by
  have hreverse : (t ++ [c]).reverse <:+: cs.reverse := List.reverse_infix.2 h
  rw [List.reverse_append, List.reverse_singleton, List.singleton_append] at hreverse
  have hdrop := List.reverse_infix.2 (infix_dropWhile hc hreverse)
  rwa [List.reverse_cons, List.reverse_reverse] at hdrop

end Text

namespace Markdown

/-- A text that is made of the characters of anchors, and of some at all. -/
structure IsAnchor (a : String) : Prop where
  nonempty : a ≠ ""
  chars : ∀ c ∈ a.toList, isAnchorChar c = true ∨ c = '-'

theorem anchorWords_valid {run cs : List Char} (hrun : ∀ c ∈ run, isAnchorChar c = true) :
    ∀ w ∈ anchorWords run cs, w ≠ [] ∧ ∀ c ∈ w, isAnchorChar c = true := by
  induction cs generalizing run with
  | nil =>
    unfold anchorWords
    split
    · simp
    · next hempty =>
      intro w hw
      obtain rfl := List.mem_singleton.1 hw
      exact ⟨by simpa using hempty, hrun⟩
  | cons c rest ih =>
    unfold anchorWords
    split
    · next hc =>
      refine ih fun d hd => ?_
      rcases List.mem_append.1 hd with hd | hd
      · exact hrun d hd
      · exact List.mem_singleton.1 hd ▸ hc
    · split
      · exact ih (by simp)
      · next hempty =>
        intro w hw
        rcases List.mem_cons.1 hw with rfl | hw
        · exact ⟨by simpa using hempty, hrun⟩
        · exact ih (by simp) w hw

theorem mem_hyphenated {ws : List (List Char)} {c : Char} (h : c ∈ hyphenated ws) :
    c = '-' ∨ ∃ w ∈ ws, c ∈ w := by
  fun_induction hyphenated ws with
  | case1 => simp at h
  | case2 w => exact .inr ⟨w, List.mem_singleton.2 rfl, h⟩
  | case3 w ws _ ih =>
    rcases List.mem_append.1 h with h | h
    · exact .inr ⟨w, List.mem_cons_self, h⟩
    · rcases List.mem_cons.1 h with h | h
      · exact .inl h
      · rcases ih h with h | ⟨v, hv, h⟩
        · exact .inl h
        · exact .inr ⟨v, List.mem_cons_of_mem w hv, h⟩

theorem hyphenated_ne_nil {w : List Char} {ws : List (List Char)} (h : w ≠ []) :
    hyphenated (w :: ws) ≠ [] := by
  cases ws <;> simp [hyphenated, h]

theorem isAnchor_headerSlug (s : String) : IsAnchor (headerSlug s) := by
  have hvalid : ∀ w ∈ anchorWords [] (Text.lower s).toList,
      w ≠ [] ∧ ∀ c ∈ w, isAnchorChar c = true := anchorWords_valid (by simp)
  unfold headerSlug
  split
  · exact ⟨by decide, by simp [isAnchorChar]⟩
  · next ws hws =>
    cases hcases : anchorWords [] (Text.lower s).toList with
    | nil => exact absurd hcases hws
    | cons w ws =>
      rw [hcases] at hvalid
      constructor
      · intro hempty
        have hnil := congrArg String.toList hempty
        rw [String.toList_ofList] at hnil
        exact hyphenated_ne_nil (hvalid w List.mem_cons_self).1 hnil
      · intro c hc
        rw [String.toList_ofList] at hc
        rcases mem_hyphenated hc with hc | ⟨v, hv, hc⟩
        · exact .inr hc
        · exact .inl ((hvalid v hv).2 c hc)

theorem isAnchor_numbered {a : String} (h : IsAnchor a) (k : Nat) :
    IsAnchor (a ++ "-" ++ toString k) where
  nonempty := by
    intro hempty
    have hlen := congrArg String.length hempty
    rw [String.length_append, String.length_append] at hlen
    have hdash : "-".length = 1 ∧ "".length = 0 := by decide
    omega
  chars := by
    intro c hc
    simp only [String.toList_append, List.mem_append] at hc
    rcases hc with (hc | hc) | hc
    · exact h.chars c hc
    · exact .inr (List.mem_singleton.1 hc)
    · rw [Nat.toString_eq_repr, Nat.toList_repr] at hc
      have hdigit := Nat.isDigit_of_mem_toDigits (by decide) (by decide) hc
      refine .inl ?_
      simp only [Char.isDigit, Bool.and_eq_true, decide_eq_true_eq] at hdigit
      simp only [isAnchorChar, Bool.or_eq_true, Bool.and_eq_true, decide_eq_true_eq]
      exact .inr hdigit

theorem infix_escapeBars {t cs : List Char} (hbar : '|' ∉ t) (h : t <:+: cs)
    (before : Option Char) : t <:+: escapeBars before cs := by
  obtain ⟨front, back, rfl⟩ := h
  induction front generalizing before with
  | nil =>
    -- no bar in front of the end of `t`, so it stays as it is
    have hfront : t <+: escapeBars before (t ++ back) := by
      induction t generalizing before with
      | nil => exact List.nil_prefix
      | cons c t ih =>
        have hc : c ≠ '|' := fun hc => hbar (hc ▸ List.mem_cons_self)
        have ht : '|' ∉ t := fun ht => hbar (List.mem_cons_of_mem c ht)
        rw [List.cons_append, escapeBars, if_neg fun hbar => hc hbar.1]
        exact List.cons_prefix_cons.2 ⟨rfl, ih ht _⟩
    exact hfront.isInfix
  | cons c front ih =>
    have hrest := ih (some c)
    rw [List.cons_append, List.cons_append, escapeBars]
    split
    · exact (hrest.trans (List.suffix_cons _ _).isInfix).trans (List.suffix_cons _ _).isInfix
    · exact hrest.trans (List.suffix_cons _ _).isInfix

end Markdown

namespace Layout

theorem isAnchor_memberAnchor (owner : Option String) (kind name : String)
    (scope : Option String) : Markdown.IsAnchor (memberAnchor owner kind name scope) :=
  Markdown.isAnchor_headerSlug _

end Layout

namespace Page

open Markdown Text

/-- A tag starts and ends with brackets. -/
theorem exists_anchorTag (a : String) :
    ∃ inner, (anchorTag a).toList = '<' :: inner ++ ['>'] := by
  have hopen : "<a id=\"".toList = '<' :: "a id=\"".toList := by decide
  have hclose : "\"></a>".toList = "\"></a".toList ++ ['>'] := by decide
  refine ⟨"a id=\"".toList ++ a.toList ++ "\"></a".toList, ?_⟩
  simp only [anchorTag, String.toList_append, hopen, hclose, List.append_assoc,
    List.cons_append]

/-- What neither an anchor nor its brackets hold is not in its tag. -/
theorem notMem_anchorTag {a : String} (h : IsAnchor a) {c : Char} (hc : isAnchorChar c = false)
    (hdash : c ≠ '-') (hopen : c ∉ "<a id=\"".toList) (hclose : c ∉ "\"></a>".toList) :
    c ∉ (anchorTag a).toList := by
  simp only [anchorTag, String.toList_append, List.mem_append, not_or]
  refine ⟨⟨hopen, fun hmem => ?_⟩, hclose⟩
  rcases h.chars c hmem with hchar | hchar
  · rw [hc] at hchar
    exact absurd hchar (by decide)
  · exact hdash hchar

theorem occursIn_trimEnd {a s : String} (h : occursIn (anchorTag a) s = true) :
    occursIn (anchorTag a) (trimEnd s) = true := by
  obtain ⟨inner, hinner⟩ := exists_anchorTag a
  have hclose : isBlank '>' = false := by decide
  rw [occursIn_iff, hinner] at h ⊢
  rw [trimEnd, String.toList_ofList]
  exact infix_dropBack hclose h

theorem occursIn_trim {a s : String} (h : occursIn (anchorTag a) s = true) :
    occursIn (anchorTag a) (trim s) = true := by
  obtain ⟨inner, hinner⟩ := exists_anchorTag a
  have hopen : isBlank '<' = false := by decide
  have hclose : isBlank '>' = false := by decide
  rw [occursIn_iff, hinner] at h ⊢
  rw [List.cons_append] at h
  have hfront := infix_dropWhile hopen h
  rw [← List.cons_append] at hfront
  rw [trim, trimBy, dropAround, String.toList_ofList]
  exact infix_dropBack hclose hfront

section

variable {a s : String} (ha : IsAnchor a)

include ha

/-- A cell keeps tags. -/
theorem occursIn_cell (h : occursIn (anchorTag a) s = true) :
    occursIn (anchorTag a) (cell s) = true := by
  refine occursIn_trim ?_
  rw [occursIn_iff] at h ⊢
  have hbar : '|' ∉ (anchorTag a).toList :=
    notMem_anchorTag ha (by decide) (by decide) (by decide) (by decide)
  have hbreak : '\n' ∉ (anchorTag a).toList :=
    notMem_anchorTag ha (by decide) (by decide) (by decide) (by decide)
  have hsame : (anchorTag a).toList.map (fun c => if c = '\n' then ' ' else c) =
      (anchorTag a).toList := by
    refine (List.map_congr_left fun c hc => ?_).trans (List.map_id _)
    have hne : c ≠ '\n' := fun heq => hbreak (heq ▸ hc)
    rw [if_neg hne, id]
  rw [String.toList_ofList, replaceChar, String.toList_ofList]
  exact infix_escapeBars hbar (hsame ▸ h.map _) none

/-- A table keeps the tags of its cells. -/
theorem occursIn_table {headers : List String} {rows : List (List String)} {r : List String}
    (hr : r ∈ rows) (hs : s ∈ r) (h : occursIn (anchorTag a) s = true) :
    occursIn (anchorTag a) (table headers rows) = true := by
  have hrow : occursIn (anchorTag a) (row (r.map cell)) = true := by
    refine occursIn_append_right (occursIn_append_left ?_ _) _
    exact occursIn_intercalate (List.mem_map_of_mem hs) (occursIn_cell ha h) _
  have hempty : rows.isEmpty = false := by
    cases rows with
    | nil => exact absurd hr List.not_mem_nil
    | cons => rfl
  have hmem : row (r.map cell) ∈
      row headers :: row (headers.map fun _ => "---") :: rows.map fun r => row (r.map cell) :=
    List.mem_cons_of_mem _ (List.mem_cons_of_mem _ (List.mem_map_of_mem hr))
  rw [table, if_neg (by simp [hempty])]
  exact occursIn_intercalate hmem hrow _

end

/-- The text of a page holds the tags of its lines. -/
theorem occursIn_body {p : Page} {a l : String} (hl : l ∈ p.lines)
    (h : occursIn (anchorTag a) l = true) : occursIn (anchorTag a) p.body = true :=
  occursIn_append_right (occursIn_trimEnd (occursIn_intercalate hl h _)) _

end Page

end CrateBook
