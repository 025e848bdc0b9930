import CrateBook.Proofs.SharedAnchors
import Mathlib.Computability.Language

/-!
# Slugs of compounds

Slugs are the words of a regular language: runs of small letters and digits with single hyphens
between them. They are the texts that are their own slugs. Two texts that both leave something in
their slugs can be joined by a hyphen before or after they are slugged; so the anchor of a member
is its owner's anchor with a label behind it, however deep the members lie.
-/
namespace CrateBook

open scoped Computability

namespace Markdown

/-! ## The language of slugs -/

/-- One small letter or digit, or several in a row. -/
def anchorRun : Language Char := {w | w ≠ [] ∧ ∀ c ∈ w, isAnchorChar c = true}

/-- Runs with single hyphens between them. -/
def slugs : Language Char := anchorRun * ({['-']} * anchorRun)∗

theorem mem_anchorRun {w : List Char} :
    w ∈ anchorRun ↔ w ≠ [] ∧ ∀ c ∈ w, isAnchorChar c = true := Iff.rfl

theorem hyphenated_cons (w : List Char) (ws : List (List Char)) :
    hyphenated (w :: ws) = w ++ ws.flatMap ('-' :: ·) := by
  induction ws generalizing w with
  | nil => rw [List.flatMap_nil, List.append_nil, hyphenated]
  | cons v ws ih =>
    rw [hyphenated, ih, List.flatMap_cons, List.cons_append]
    exact List.cons_ne_nil v ws

theorem hyphenated_append {vs ws : List (List Char)} (hvs : vs ≠ []) (hws : ws ≠ []) :
    hyphenated (vs ++ ws) = hyphenated vs ++ '-' :: hyphenated ws := by
  obtain ⟨v, vs, rfl⟩ := List.exists_cons_of_ne_nil hvs
  obtain ⟨w, ws, rfl⟩ := List.exists_cons_of_ne_nil hws
  rw [List.cons_append, hyphenated_cons, hyphenated_cons, hyphenated_cons, List.flatMap_append,
    List.flatMap_cons, List.append_assoc, List.cons_append]

/-- Runs behind hyphens are texts of the language that slugs go on with. -/
theorem mem_kstar_hyphen {cs : List Char} : cs ∈ ({['-']} * anchorRun)∗ ↔
    ∃ ws : List (List Char), (∀ w ∈ ws, w ∈ anchorRun) ∧ cs = ws.flatMap ('-' :: ·) := by
  rw [Language.mem_kstar]
  constructor
  · rintro ⟨parts, rfl, hparts⟩
    induction parts with
    | nil => exact ⟨[], List.forall_mem_nil _, rfl⟩
    | cons part parts ih =>
      obtain ⟨hpart, hrest⟩ := List.forall_mem_cons.1 hparts
      obtain ⟨h, rfl, w, hw, rfl⟩ := Language.mem_mul.1 hpart
      obtain ⟨ws, hws, heq⟩ := ih hrest
      exact ⟨w :: ws, List.forall_mem_cons.2 ⟨hw, hws⟩, by
        rw [List.flatten_cons, heq, List.flatMap_cons]
        rfl⟩
  · rintro ⟨ws, hws, rfl⟩
    refine ⟨ws.map ('-' :: ·), List.flatMap_def, List.forall_mem_map.2 fun w hw => ?_⟩
    exact Language.mem_mul.2 ⟨['-'], rfl, w, hws w hw, rfl⟩

/-- The texts of the language are joined runs, one at least. -/
theorem mem_slugs_iff {cs : List Char} : cs ∈ slugs ↔
    ∃ ws : List (List Char), ws ≠ [] ∧ (∀ w ∈ ws, w ∈ anchorRun) ∧ cs = hyphenated ws := by
  rw [slugs, Language.mem_mul]
  constructor
  · rintro ⟨w, hw, rest, hrest, rfl⟩
    obtain ⟨ws, hws, rfl⟩ := mem_kstar_hyphen.1 hrest
    exact ⟨w :: ws, List.cons_ne_nil _ _, List.forall_mem_cons.2 ⟨hw, hws⟩,
      (hyphenated_cons w ws).symm⟩
  · rintro ⟨ws, hne, hws, rfl⟩
    obtain ⟨w, ws, rfl⟩ := List.exists_cons_of_ne_nil hne
    obtain ⟨hw, hrest⟩ := List.forall_mem_cons.1 hws
    exact ⟨w, hw, _, mem_kstar_hyphen.2 ⟨ws, hrest, rfl⟩, (hyphenated_cons w ws).symm⟩

theorem headerSlug_of_slugWords_eq_nil {s : String} (h : slugWords s = []) :
    headerSlug s = "section" := by
  unfold slugWords at h
  unfold headerSlug
  rw [h]

theorem headerSlug_mem_slugs (s : String) : (headerSlug s).toList ∈ slugs := by
  by_cases hs : slugWords s = []
  · rw [headerSlug_of_slugWords_eq_nil hs]
    exact mem_slugs_iff.2 ⟨["section".toList], by decide, by simp [mem_anchorRun, isAnchorChar],
      rfl⟩
  · rw [headerSlug_eq hs, String.toList_ofList]
    exact mem_slugs_iff.2 ⟨_, hs, slugWords_valid s, rfl⟩

/-- The words of a slug are the runs that it joins. -/
theorem slugWords_of_toList {s : String} {ws : List (List Char)} (hs : s.toList = hyphenated ws)
    (hne : ws ≠ []) (hws : ∀ w ∈ ws, w ∈ anchorRun) : slugWords s = ws := by
  have hanchor : IsAnchor s := by
    obtain ⟨w, rest, rfl⟩ := List.exists_cons_of_ne_nil hne
    refine ⟨fun hempty => ?_, fun c hc => ?_⟩
    · rw [hempty] at hs
      exact hyphenated_ne_nil (hws w List.mem_cons_self).1 hs.symm
    · rw [hs] at hc
      rcases mem_hyphenated hc with hhyphen | ⟨v, hv, hcv⟩
      · exact .inr hhyphen
      · exact .inl ((hws v hv).2 c hcv)
  rw [slugWords, hanchor.lower, hs, anchorWords_hyphenated hws]

/-- A slug is made of words, and it is its own slug. -/
theorem headerSlug_of_mem_slugs {s : String} (h : s.toList ∈ slugs) :
    slugWords s ≠ [] ∧ headerSlug s = s := by
  obtain ⟨ws, hne, hws, hs⟩ := mem_slugs_iff.1 h
  have hwords := slugWords_of_toList hs hne hws
  have hnonempty : slugWords s ≠ [] := hwords ▸ hne
  refine ⟨hnonempty, ?_⟩
  rw [headerSlug_eq hnonempty, hwords, ← hs, String.ofList_toList]

/-- Slugging twice is slugging once. -/
theorem headerSlug_headerSlug (s : String) : headerSlug (headerSlug s) = headerSlug s :=
  (headerSlug_of_mem_slugs (headerSlug_mem_slugs s)).2

/-- A text whose words are those of two others in a row has their slugs with a hyphen between. -/
theorem headerSlug_of_slugWords_append {s a b : String}
    (h : slugWords s = slugWords a ++ slugWords b) (ha : slugWords a ≠ [])
    (hb : slugWords b ≠ []) : headerSlug s = headerSlug a ++ "-" ++ headerSlug b := by
  have hs : slugWords s ≠ [] := h ▸ List.append_ne_nil_of_left_ne_nil ha _
  refine String.toList_inj.1 ?_
  rw [headerSlug_eq hs, headerSlug_eq ha, headerSlug_eq hb, h, hyphenated_append ha hb]
  simp

/-! ## Texts that leave something in their slugs -/

/-- The text has a character whose lower-case form includes an ASCII letter or digit. -/
def hasWord (s : String) : Bool :=
  s.toList.any fun c => (Text.lowerChar c).any Char.isAlphanum

theorem isAnchorChar_iff {c : Char} : isAnchorChar c = true ↔
    0x61 ≤ c.toNat ∧ c.toNat ≤ 0x7A ∨ 0x30 ≤ c.toNat ∧ c.toNat ≤ 0x39 := by
  simp only [isAnchorChar, Bool.or_eq_true, Bool.and_eq_true, decide_eq_true_eq]
  exact Iff.rfl

theorem isAlphanum_iff {c : Char} : c.isAlphanum = true ↔
    0x41 ≤ c.toNat ∧ c.toNat ≤ 0x5A ∨ isAnchorChar c = true := by
  rw [isAnchorChar_iff]
  change ((decide (65 ≤ c.val ∧ c.val ≤ 90) || (decide (97 ≤ c.val) && decide (c.val ≤ 122))) ||
    (decide (48 ≤ c.val) && decide (c.val ≤ 57))) = true ↔ _
  simp only [Bool.or_eq_true, Bool.and_eq_true, decide_eq_true_eq, UInt32.le_iff_toNat_le,
    or_assoc]
  exact Iff.rfl

/-- Lower case leaves no capital letter of ASCII. -/
theorem not_upper_of_mem_lowerChar {c d : Char} (h : d ∈ Text.lowerChar c) :
    ¬ (0x41 ≤ d.toNat ∧ d.toNat ≤ 0x5A) := by
  unfold Text.lowerChar at h
  split at h
  · obtain rfl := List.mem_singleton.1 h
    delta Char.toLower
    split
    · next hupper =>
      obtain ⟨hlow, hhigh⟩ : 0x41 ≤ c.val.toNat ∧ c.val.toNat ≤ 0x5A := hupper
      have hshift : ('a'.val - 'A'.val).toNat = 0x20 := rfl
      rw [Char.toNat, UInt32.toNat_add, hshift]
      omega
    · next hupper => exact hupper
  · split at h
    · rcases List.mem_cons.1 h with rfl | h
      · decide
      · rw [List.mem_singleton.1 h]
        decide
    · next hascii _ =>
      have hmove := Text.le_moveCase_lowerRuns (Nat.le_of_not_lt hascii)
      have hcode := Text.toNat_ofNat_cases (Text.moveCase Text.lowerRuns c.toNat)
      rw [← List.mem_singleton.1 h] at hcode
      omega

theorem anchorWords_eq_nil {run cs : List Char} :
    anchorWords run cs = [] ↔ run = [] ∧ ∀ c ∈ cs, isAnchorChar c = false := by
  induction cs generalizing run with
  | nil => cases run <;> simp [anchorWords]
  | cons c cs ih =>
    rw [anchorWords, List.forall_mem_cons]
    cases hc : isAnchorChar c with
    | true => simp [ih]
    | false => cases run <;> simp [ih]

/-- What lower case makes of a character depends on its neighbours only for a sigma. -/
theorem mem_lowerAt_iff {before rest : List Char} {c d : Char} (hd : isAnchorChar d = true) :
    d ∈ Text.lowerAt before c rest ↔ d ∈ Text.lowerChar c := by
  unfold Text.lowerAt
  split
  · next hc =>
    have hsigmas : isAnchorChar 'ς' = false ∧ isAnchorChar 'σ' = false := by decide
    have hlower : Text.lowerChar 'Σ' = ['σ'] := by decide +kernel
    rw [hc, hlower]
    constructor <;> intro h <;> rw [List.mem_singleton.1 h] at hd
    · split at hd <;> simp [hsigmas] at hd
    · simp [hsigmas] at hd
  · rfl

theorem mem_lowerAfter_iff {before cs : List Char} {d : Char} (hd : isAnchorChar d = true) :
    d ∈ Text.lowerAfter before cs ↔ ∃ c ∈ cs, d ∈ Text.lowerChar c := by
  induction cs generalizing before with
  | nil => simp [Text.lowerAfter]
  | cons c cs ih => simp [Text.lowerAfter, ih, mem_lowerAt_iff hd]

/-- A text leaves words in its slug if it has one of the characters that do. -/
theorem hasWord_iff {s : String} : hasWord s = true ↔ slugWords s ≠ [] := by
  have hlower : slugWords s ≠ [] ↔ ∃ d ∈ Text.lowerAfter [] s.toList, isAnchorChar d = true := by
    rw [slugWords, Ne, anchorWords_eq_nil, Text.lower, String.toList_ofList]
    simp
  rw [hlower, hasWord, List.any_eq_true]
  constructor
  · rintro ⟨c, hc, hany⟩
    obtain ⟨d, hd, halnum⟩ := List.any_eq_true.1 hany
    have hanchor := (isAlphanum_iff.1 halnum).resolve_left (not_upper_of_mem_lowerChar hd)
    exact ⟨d, (mem_lowerAfter_iff hanchor).2 ⟨c, hc, hd⟩, hanchor⟩
  · rintro ⟨d, hd, hanchor⟩
    obtain ⟨c, hc, hmem⟩ := (mem_lowerAfter_iff hanchor).1 hd
    exact ⟨c, hc, List.any_eq_true.2 ⟨d, hmem, isAlphanum_iff.2 (.inr hanchor)⟩⟩

/-- A number behind a hyphen is one more run. -/
theorem numbered_mem_slugs {a : String} (h : a.toList ∈ slugs) (k : Nat) :
    (a ++ "-" ++ toString k).toList ∈ slugs := by
  obtain ⟨ws, hne, hws, ha⟩ := mem_slugs_iff.1 h
  have hrun : (toString k).toList ∈ anchorRun := by
    refine ⟨?_, fun c hc => ?_⟩
    · rw [Nat.toString_eq_repr, Nat.toList_repr]
      exact Nat.toDigits_ne_nil
    · rw [Nat.toString_eq_repr, Nat.toList_repr] at hc
      have hdigit := Nat.isDigit_of_mem_toDigits (by decide) (by decide) hc
      simp only [Char.isDigit, Bool.and_eq_true, decide_eq_true_eq] at hdigit
      simp only [isAnchorChar, Bool.or_eq_true, Bool.and_eq_true, decide_eq_true_eq]
      exact .inr hdigit
  refine mem_slugs_iff.2 ⟨ws ++ [(toString k).toList], by simp, fun w hw => ?_, ?_⟩
  · rcases List.mem_append.1 hw with hw | hw
    · exact hws w hw
    · exact List.mem_singleton.1 hw ▸ hrun
  · rw [hyphenated_append hne (List.cons_ne_nil _ _), ← ha]
    simp [hyphenated]

end Markdown

namespace Layout

open Markdown (hasWord headerSlug slugWords slugs)

/-- Something of a member's trait, kind or name gets into its anchor. -/
def hasLabel (kind name : String) (scope : Option String) : Bool :=
  hasWord (scope.getD "") || (hasWord (memberWord kind) || hasWord name)

section

variable {owner kind name : String} {scope : Option String}

theorem hasLabel_iff :
    hasLabel kind name scope = true ↔ memberWords none kind name scope ≠ [] := by
  have hwords : memberWords none kind name scope =
      slugWords (scope.getD "") ++ (slugWords (memberWord kind) ++ slugWords name) := by
    simp [memberWords, Markdown.slugWords_empty]
  simp only [hasLabel, Bool.or_eq_true, Markdown.hasWord_iff, hwords, ne_eq,
    List.append_eq_nil_iff, not_and_or]

/-- Members of the kinds that have a word of their own have a label. -/
theorem hasLabel_of_mem (h : kind ∈ memberPrefixes.map Prod.fst) :
    hasLabel kind name scope = true := by
  have hwords : ∀ k ∈ memberPrefixes.map Prod.fst, hasWord (memberWord k) = true := by
    decide +kernel
  rw [hasLabel, hwords kind h, Bool.true_or, Bool.or_true]

/-- The anchor of a member is its owner's anchor with its label behind it, if it has one. -/
theorem memberAnchor_some (h : owner.toList ∈ slugs) :
    memberAnchor (some owner) kind name scope =
      if hasLabel kind name scope then owner ++ "-" ++ memberAnchor none kind name scope
      else owner := by
  obtain ⟨howner, hself⟩ := Markdown.headerSlug_of_mem_slugs h
  obtain ⟨t, ht, hwords⟩ := exists_memberText (some owner) kind name scope
  obtain ⟨u, hu, hlabel⟩ := exists_memberText none kind name scope
  have happend : slugWords t = slugWords owner ++ slugWords u := by
    rw [hwords, hlabel]
    simp [memberWords, Markdown.slugWords_empty]
  rw [ht, hu]
  split
  · next hlabeled =>
    rw [Markdown.headerSlug_of_slugWords_append happend howner (hlabel ▸ hasLabel_iff.1 hlabeled),
      hself]
  · next hlabeled =>
    have hnil : slugWords u = [] := by
      rw [hlabel]
      exact not_not.1 (mt hasLabel_iff.2 hlabeled)
    rw [hnil, List.append_nil] at happend
    rw [Markdown.headerSlug_congr happend, hself]

end

/-- **Slugs of compounds.** Slugs are runs of small letters and digits with single hyphens
between them, and their own slugs. Where two texts both leave something in their slugs, joining
them by a hyphen joins the slugs; so the anchor of a member goes on from its owner's anchor with
its label, which no member lacks whose kind has a word of its own. -/
theorem headerSlug_compounds (s a b owner kind name : String) (scope : Option String) :
    (headerSlug s).toList ∈ slugs ∧ headerSlug (headerSlug s) = headerSlug s ∧
    (hasWord a = true → hasWord b = true →
      headerSlug (a ++ "-" ++ b) = headerSlug a ++ "-" ++ headerSlug b) ∧
    (owner.toList ∈ slugs → memberAnchor (some owner) kind name scope =
      if hasLabel kind name scope then owner ++ "-" ++ memberAnchor none kind name scope
      else owner) ∧
    (kind ∈ memberPrefixes.map Prod.fst → hasLabel kind name scope = true) := by
  refine ⟨Markdown.headerSlug_mem_slugs s, Markdown.headerSlug_headerSlug s, fun ha hb => ?_,
    memberAnchor_some, hasLabel_of_mem⟩
  exact Markdown.headerSlug_of_slugWords_append (Markdown.slugWords_append_hyphen a b)
    (Markdown.hasWord_iff.1 ha) (Markdown.hasWord_iff.1 hb)

/-- A name with letters outside of ASCII, the sign of the kelvin, and a field of no letters. -/
theorem headerSlug_compounds_kelvin : hasWord "Größe!" = true ∧ hasWord "\u212A" = true ∧
    headerSlug ("Größe!" ++ "-" ++ "\u212A") = "gr-e" ++ "-" ++ "k" ∧
    "gr-e".toList ∈ slugs ∧ "struct_field" ∈ memberPrefixes.map Prod.fst ∧
    memberAnchor (some "gr-e") "struct_field" "→" none =
      "gr-e" ++ "-" ++ memberAnchor none "struct_field" "→" none := by
  have hname : hasWord "Größe!" = true := by decide +kernel
  have hkelvin : hasWord "\u212A" = true := by decide +kernel
  have hslugs : headerSlug "Größe!" = "gr-e" ∧ headerSlug "\u212A" = "k" := by decide +kernel
  have howner : "gr-e".toList ∈ slugs := hslugs.1 ▸ Markdown.headerSlug_mem_slugs _
  have hkind : "struct_field" ∈ memberPrefixes.map Prod.fst := by decide
  obtain ⟨-, -, hjoin, hanchor, hlabel⟩ :=
    headerSlug_compounds "" "Größe!" "\u212A" "gr-e" "struct_field" "→" none
  refine ⟨hname, hkelvin, ?_, howner, hkind, ?_⟩
  · rw [hjoin hname hkelvin, hslugs.1, hslugs.2]
  · rw [hanchor howner, if_pos (hlabel hkind)]

end Layout

namespace Site

open Markdown (slugs)

/-- The anchors of a layout are slugs. -/
theorem Planned.anchorFor_mem_slugs {s : Site} (h : s.Planned) {id : Id} {a : String}
    (ha : s.layout.anchorFor id = some a) : a.toList ∈ slugs :=
  h.anchorFor_slugs (P := fun a => a.toList ∈ slugs) Markdown.headerSlug_mem_slugs
    (fun _ k hs => Markdown.numbered_mem_slugs hs k) ha

/-- The anchor of each member that a section shows is the section's own with a slug behind it. -/
theorem exists_label_of_shows {text : String} {x : Export} {o : Options} {s : Site}
    (hx : Export.parse text = .ok x) (h : Site.plan x o = .ok s) {id : Id} {y : Item} {own : String}
    (hown : s.layout.anchorFor id = some own) {m : Id} {a : String}
    (hm : s.Shows y (some own) m a) : ∃ label, label.toList ∈ slugs ∧ a = own ++ "-" ++ label := by
  obtain ⟨rfl, -, hplanned⟩ := planned_of_plan h
  have hkinds : s.source.TellsKinds := fun _ _ _ hz hkind => Export.kind_of_parse hx hz hkind
  obtain ⟨hwords, hself⟩ := Markdown.headerSlug_of_mem_slugs (hplanned.anchorFor_mem_slugs hown)
  obtain ⟨c, z, hz, -, rfl⟩ := shows_iff.1 hm
  obtain ⟨t, ht, htext⟩ := Layout.exists_memberText (ownerFrom (some own) c) z.kind z.displayName
    (s.scopeFrom c)
  rw [hz.memberWords hkinds (some own), Option.getD_some] at htext
  have hne := hz.labelWords_ne_nil hkinds
  have hvalid : ∀ w ∈ s.labelWords c z, w ∈ Markdown.anchorRun := fun w hw =>
    Markdown.slugWords_valid t w (htext ▸ List.mem_append_right _ hw)
  -- the label is the slug of the words behind the section's own
  let label := String.ofList (Markdown.hyphenated (s.labelWords c z))
  have hlist : label.toList = Markdown.hyphenated (s.labelWords c z) := String.toList_ofList
  have hlabel : label.toList ∈ slugs := Markdown.mem_slugs_iff.2 ⟨_, hne, hvalid, hlist⟩
  have hlabelWords := Markdown.slugWords_of_toList hlist hne hvalid
  refine ⟨label, hlabel, ?_⟩
  rw [anchorFrom, memberAnchor, ht, Markdown.headerSlug_of_slugWords_append
    (htext.trans (congrArg _ hlabelWords.symm)) hwords (hlabelWords ▸ hne), hself,
    (Markdown.headerSlug_of_mem_slugs hlabel).2]

end Site

end CrateBook
