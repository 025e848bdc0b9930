import CrateBook.Proofs.LowerCase
import CrateBook.Proofs.Tags

/-!
# The words of a slug

A slug is made of words with hyphens between them, and nothing else of the text is left. Texts
that are joined by hyphens join their words, so the words tell which texts have one slug: those
of an anchor are the words of its parts in a row, and do not tell where a part ends.
-/
namespace CrateBook

namespace Markdown

/-- The words of the slug of a text. -/
def slugWords (s : String) : List (List Char) := anchorWords [] (Text.lower s).toList

/-- A hyphen ends the run that is open. -/
theorem anchorWords_append_hyphen (run cs ds : List Char) :
    anchorWords run (cs ++ '-' :: ds) = anchorWords run cs ++ anchorWords [] ds := by
  have hhyphen : isAnchorChar '-' = false := by decide
  induction cs generalizing run with
  | nil =>
    simp only [List.nil_append, anchorWords, hhyphen, Bool.false_eq_true, if_false]
    split <;> rfl
  | cons c cs ih =>
    simp only [List.cons_append, anchorWords, ih]
    split
    · rfl
    · split <;> rfl

/-- Texts joined by a hyphen join their words. -/
theorem slugWords_append_hyphen (s t : String) :
    slugWords (s ++ "-" ++ t) = slugWords s ++ slugWords t := by
  have hlist : (Text.lower s ++ "-" ++ Text.lower t).toList =
      (Text.lower s).toList ++ '-' :: (Text.lower t).toList := by simp
  rw [slugWords, Text.lower_append_hyphen, hlist, anchorWords_append_hyphen]
  rfl

theorem slugWords_empty : slugWords "" = [] := by decide

theorem slugWords_intercalate (parts : List String) :
    slugWords ("-".intercalate parts) = parts.flatMap slugWords := by
  induction parts with
  | nil => rw [String.intercalate_nil, slugWords_empty, List.flatMap_nil]
  | cons s parts ih =>
    by_cases hparts : parts = []
    · rw [hparts, String.intercalate_singleton, List.flatMap_cons, List.flatMap_nil,
        List.append_nil]
    · rw [String.intercalate_cons_of_ne_nil hparts, slugWords_append_hyphen, ih,
        List.flatMap_cons]

/-- Empty parts have no words. -/
theorem flatMap_slugWords_filter (parts : List String) :
    (parts.filter fun p => !p.isEmpty).flatMap slugWords = parts.flatMap slugWords := by
  induction parts with
  | nil => rfl
  | cons s parts ih =>
    by_cases hs : s = ""
    · rw [hs, List.filter_cons_of_neg (by decide), ih, List.flatMap_cons, slugWords_empty,
        List.nil_append]
    · rw [List.filter_cons_of_pos (by simpa using hs), List.flatMap_cons, ih, List.flatMap_cons]

/-- Anchor characters go on with the run that is open. -/
theorem anchorWords_append {w : List Char} (hw : ∀ c ∈ w, isAnchorChar c = true)
    (run cs : List Char) : anchorWords run (w ++ cs) = anchorWords (run ++ w) cs := by
  induction w generalizing run with
  | nil => rw [List.nil_append, List.append_nil]
  | cons c w ih =>
    rw [List.cons_append, anchorWords, if_pos (hw c List.mem_cons_self),
      ih fun d hd => hw d (List.mem_cons_of_mem c hd), List.append_assoc, List.singleton_append]

/-- Words that were joined are found again. -/
theorem anchorWords_hyphenated {ws : List (List Char)}
    (h : ∀ w ∈ ws, w ≠ [] ∧ ∀ c ∈ w, isAnchorChar c = true) :
    anchorWords [] (hyphenated ws) = ws := by
  have hword {w : List Char} (hw : w ≠ []) (hchars : ∀ c ∈ w, isAnchorChar c = true) :
      anchorWords [] w = [w] := by
    have hrun := anchorWords_append hchars [] []
    rw [List.append_nil, List.nil_append] at hrun
    rw [hrun, anchorWords, if_neg (by simpa using hw)]
  fun_induction hyphenated ws with
  | case1 => rfl
  | case2 w =>
    obtain ⟨hne, hchars⟩ := h w List.mem_cons_self
    exact hword hne hchars
  | case3 w ws _ ih =>
    obtain ⟨hne, hchars⟩ := h w List.mem_cons_self
    rw [anchorWords_append_hyphen, hword hne hchars, ih fun v hv => h v (List.mem_cons_of_mem w hv),
      List.singleton_append]

theorem slugWords_valid (s : String) :
    ∀ w ∈ slugWords s, w ≠ [] ∧ ∀ c ∈ w, isAnchorChar c = true :=
  anchorWords_valid (by simp)

theorem headerSlug_eq {s : String} (hs : slugWords s ≠ []) :
    headerSlug s = String.ofList (hyphenated (slugWords s)) := by
  unfold headerSlug
  split
  · next hempty => exact absurd hempty hs
  · rfl

theorem headerSlug_congr {s t : String} (h : slugWords s = slugWords t) :
    headerSlug s = headerSlug t := by
  unfold slugWords at h
  unfold headerSlug
  rw [h]

/-- A slug tells the words that it is made of. -/
theorem headerSlug_inj {s t : String} (hs : slugWords s ≠ []) (ht : slugWords t ≠ []) :
    headerSlug s = headerSlug t ↔ slugWords s = slugWords t := by
  refine ⟨fun h => ?_, headerSlug_congr⟩
  rw [headerSlug_eq hs, headerSlug_eq ht, String.ofList_inj] at h
  rw [← anchorWords_hyphenated (slugWords_valid s), h, anchorWords_hyphenated (slugWords_valid t)]

theorem lowerChar_of_isAnchorChar {c : Char} (h : isAnchorChar c = true) :
    Text.lowerChar c = [c] := by
  simp only [isAnchorChar, Bool.or_eq_true, Bool.and_eq_true, decide_eq_true_eq] at h
  have hcode : 0x61 ≤ c.toNat ∧ c.toNat ≤ 0x7A ∨ 0x30 ≤ c.toNat ∧ c.toNat ≤ 0x39 := h
  exact Text.lowerChar_of_ascii (by omega) (by omega)

/-- Anchors are in lower case. -/
theorem IsAnchor.lower {a : String} (h : IsAnchor a) : Text.lower a = a := by
  have hlower (before cs : List Char) (hcs : ∀ c ∈ cs, isAnchorChar c = true ∨ c = '-') :
      Text.lowerAfter before cs = cs := by
    induction cs generalizing before with
    | nil => rfl
    | cons c cs ih =>
      have hat : Text.lowerAt before c cs = [c] := by
        rcases hcs c List.mem_cons_self with hc | rfl
        · have hsigma : c ≠ 'Σ' := fun hsigma => absurd (hsigma ▸ hc) (by decide)
          rw [Text.lowerAt, if_neg hsigma, lowerChar_of_isAnchorChar hc]
        · exact Text.lowerAt_of_isSign (by decide) _ _
      rw [Text.lowerAfter, hat, ih _ fun d hd => hcs d (List.mem_cons_of_mem c hd)]
      rfl
  rw [Text.lower, hlower [] a.toList h.chars, String.ofList_toList]

/-- A slug has the words that it is made of. -/
theorem slugWords_headerSlug {s : String} (hs : slugWords s ≠ []) :
    slugWords (headerSlug s) = slugWords s := by
  rw [slugWords, (isAnchor_headerSlug s).lower, headerSlug_eq hs, String.toList_ofList,
    anchorWords_hyphenated (slugWords_valid s)]

end Markdown

namespace Layout

open Markdown (slugWords headerSlug)

/-- The word for a kind of member in an anchor. -/
def memberWord (kind : String) : String := (memberPrefixes.lookup kind).getD kind

/-- The words of a member's anchor: those of its owner, of its trait, of its kind and of its
name. -/
def memberWords (owner : Option String) (kind name : String) (scope : Option String) :
    List (List Char) :=
  slugWords (owner.getD "") ++
    (slugWords (scope.getD "") ++ (slugWords (memberWord kind) ++ slugWords name))

section

variable (owner owner' : Option String) (kind kind' name name' : String)
  (scope scope' : Option String)

/-- The words of kind and name stand behind those of owner and trait. -/
theorem memberWords_eq : memberWords owner kind name scope = slugWords (owner.getD "") ++
    (slugWords (scope.getD "") ++ memberWords none kind name none) := by
  simp [memberWords, Markdown.slugWords_empty]

/-- The text whose slug is a member's anchor. -/
theorem exists_memberText : ∃ t, memberAnchor owner kind name scope = headerSlug t ∧
    slugWords t = memberWords owner kind name scope := by
  refine ⟨"-".intercalate ([owner.getD "", scope.getD "", memberWord kind, name].filter
    fun p => !p.isEmpty), rfl, ?_⟩
  rw [Markdown.slugWords_intercalate, Markdown.flatMap_slugWords_filter]
  simp [memberWords]

variable {owner owner' kind kind' name name' scope scope'}

theorem slugWords_memberAnchor (h : memberWords owner kind name scope ≠ []) :
    slugWords (memberAnchor owner kind name scope) = memberWords owner kind name scope := by
  obtain ⟨t, ht, hwords⟩ := exists_memberText owner kind name scope
  rw [ht, Markdown.slugWords_headerSlug (hwords ▸ h), hwords]

/-- Anchors of members are equal if all their words are. -/
theorem memberAnchor_inj (h : memberWords owner kind name scope ≠ [])
    (h' : memberWords owner' kind' name' scope' ≠ []) :
    memberAnchor owner kind name scope = memberAnchor owner' kind' name' scope' ↔
      memberWords owner kind name scope = memberWords owner' kind' name' scope' := by
  obtain ⟨t, ht, hwords⟩ := exists_memberText owner kind name scope
  obtain ⟨t', ht', hwords'⟩ := exists_memberText owner' kind' name' scope'
  rw [ht, ht', Markdown.headerSlug_inj (hwords ▸ h) (hwords' ▸ h'), hwords, hwords']

/-- Anchors have one word for each kind of member. -/
theorem memberWords_of_mem (h : kind ∈ memberPrefixes.map Prod.fst) :
    memberWords none kind name none = (memberWord kind).toList :: slugWords name := by
  have hall : ∀ k ∈ memberPrefixes.map Prod.fst,
      slugWords (memberWord k) = [(memberWord k).toList] := by decide +kernel
  simp [memberWords, Markdown.slugWords_empty, hall kind h]

/-- Kinds of members with one word are the same. -/
theorem eq_of_memberWord (h : kind ∈ memberPrefixes.map Prod.fst)
    (h' : kind' ∈ memberPrefixes.map Prod.fst)
    (heq : (memberWord kind).toList = (memberWord kind').toList) : kind = kind' := by
  have hall : ∀ k ∈ memberPrefixes.map Prod.fst, ∀ k' ∈ memberPrefixes.map Prod.fst,
      (memberWord k).toList = (memberWord k').toList → k = k' := by decide +kernel
  exact hall kind h kind' h' heq

/-- The words of a trait stand behind a word of their own. -/
theorem slugWords_implScope (traitName : String) :
    slugWords (implScope traitName) = "impl".toList :: slugWords traitName := by
  have hjoin : implScope traitName = "impl" ++ "-" ++ traitName := rfl
  have hword : slugWords "impl" = ["impl".toList] := by decide
  rw [hjoin, Markdown.slugWords_append_hyphen, hword, List.singleton_append]

end

end Layout

end CrateBook
