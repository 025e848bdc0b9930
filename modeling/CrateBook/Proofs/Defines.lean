import CrateBook.Page.Writing
import CrateBook.Proofs.Marks
import CrateBook.Proofs.Tags

/-!
# Anchors that steps define

An anchor is defined before its tag is on the page: rows of a table hold the tags of their
anchors back until the table is written. A step is judged by the texts that are held back
before and after it, and by the anchors that it adds. Every anchor of a page then has its tag
among the lines, or in a text that is held back.
-/
namespace CrateBook

open Markdown (IsAnchor)

open Text (occursIn)

namespace Page

/-- The texts hold the tag of an anchor. -/
def Holds (texts : List String) (a : String) : Prop :=
  ∃ t ∈ texts, occursIn (anchorTag a) t = true

/-- The texts hold all tags that others hold. -/
def Keeps (held texts : List String) : Prop := ∀ a, IsAnchor a → Holds held a → Holds texts a

/-- The tags of all anchors are on the page, or in texts that are held back. -/
def Covers (p : Page) (held : List String) : Prop :=
  ∀ a ∈ p.anchors, IsAnchor a ∧ Holds (p.lines ++ held) a

theorem Holds.mono {texts more : List String} {a : String} (h : Holds texts a)
    (hsub : texts ⊆ more) : Holds more a := by
  obtain ⟨t, ht, htag⟩ := h
  exact ⟨t, hsub ht, htag⟩

theorem holds_append {texts more : List String} {a : String} :
    Holds (texts ++ more) a ↔ Holds texts a ∨ Holds more a := by
  simp [Holds, or_and_right, exists_or]

theorem holds_anchorTag (a : String) : Holds [anchorTag a] a :=
  ⟨_, List.mem_singleton.2 rfl, Text.occursIn_iff.2 (List.infix_refl _)⟩

theorem keeps_of_subset {held texts : List String} (h : held ⊆ texts) : Keeps held texts :=
  fun _ _ hheld => hheld.mono h

theorem Keeps.append {held texts : List String} (h : Keeps held texts) (others : List String) :
    Keeps (others ++ held) (others ++ texts) := by
  intro a ha hheld
  rcases holds_append.1 hheld with hheld | hheld
  · exact holds_append.2 (.inl hheld)
  · exact holds_append.2 (.inr (h a ha hheld))

/-- Texts may become part of another one. -/
theorem keeps_part {held texts : List String} {u : String}
    (h : ∀ t ∈ held, ∀ a, occursIn (anchorTag a) t = true → occursIn (anchorTag a) u = true) :
    Keeps held (u :: texts) := by
  rintro a - ⟨t, ht, htag⟩
  exact ⟨u, List.mem_cons_self, h t ht a htag⟩

/-- The rows of a table keep their tags when it is written. -/
theorem keeps_table (headers : List String) (rows : List (List String)) :
    Keeps rows.flatten [Markdown.table headers rows, ""] := by
  rintro a ha ⟨t, ht, htag⟩
  obtain ⟨r, hr, htr⟩ := List.mem_flatten.1 ht
  exact ⟨_, List.mem_cons_self, occursIn_table ha hr htr htag⟩

theorem keeps_empty (texts : List String) : Keeps [""] texts := by
  rintro a - ⟨t, ht, htag⟩
  obtain ⟨inner, hinner⟩ := exists_anchorTag a
  rw [List.mem_singleton.1 ht, Text.occursIn_iff, hinner, String.toList_empty,
    List.infix_nil] at htag
  simp at htag

/-- Lines put down what is held back. -/
theorem Covers.add {p : Page} {held texts lines : List String} (h : p.Covers held)
    (hkeep : Keeps held (lines ++ texts)) : (p.add lines).Covers texts := by
  intro a ha
  obtain ⟨hanchor, hholds⟩ := h a ha
  refine ⟨hanchor, ?_⟩
  rw [lines_add, List.append_assoc]
  rcases holds_append.1 hholds with hholds | hholds
  · exact holds_append.2 (.inl hholds)
  · exact holds_append.2 (.inr (hkeep a hanchor hholds))

/-- What is held back may be replaced by texts that keep its tags. -/
theorem Covers.keep {p : Page} {held texts : List String} (h : p.Covers held)
    (hkeep : Keeps held texts) : p.Covers texts := by
  have hadd : (p.add []).Covers texts := h.add hkeep
  intro a ha
  obtain ⟨hanchor, hholds⟩ := hadd a ha
  rw [lines_add, List.append_nil] at hholds
  exact ⟨hanchor, hholds⟩

theorem anchors_define (p : Page) {a : String} (ha : a ≠ "") (b : String) :
    b ∈ (p.define (some a)).anchors ↔ b ∈ p.anchors ∨ b = a := by
  by_cases hmem : a ∈ p.anchors
  · have hold : p.define (some a) = p := by simp [define, isNewAnchor, hmem]
    rw [hold, or_iff_left_of_imp]
    rintro rfl
    exact hmem
  · have hnew : p.define (some a) = { p with anchors := a :: p.anchors } := by
      simp [define, isNewAnchor, hmem, ha]
    rw [hnew, List.mem_cons, or_comm]

/-- A tag comes with the definition, or was there before. -/
theorem Covers.define {p : Page} {held : List String} (h : p.Covers held) {a : String}
    (ha : IsAnchor a) : (p.define (some a)).Covers (held ++ [p.tagFor (some a)]) := by
  intro b hb
  rcases (p.anchors_define ha.nonempty b).1 hb with hb | rfl
  · obtain ⟨hanchor, hholds⟩ := h b hb
    refine ⟨hanchor, hholds.mono ?_⟩
    rw [lines_define, ← List.append_assoc]
    exact List.subset_append_left _ _
  · by_cases hmem : b ∈ p.anchors
    · obtain ⟨hanchor, hholds⟩ := h b hmem
      refine ⟨hanchor, hholds.mono ?_⟩
      rw [lines_define, ← List.append_assoc]
      exact List.subset_append_left _ _
    · have htag : p.tagFor (some b) = anchorTag b := by
        simp [tagFor, isNewAnchor, ha.nonempty, hmem]
      rw [htag, ← List.append_assoc]
      exact ⟨ha, holds_append.2 (.inr (holds_anchorTag b))⟩

end Page

namespace OnPage

open Page (Covers Keeps)

variable {α β : Type}

/-- A step leaves the anchors of a page as they are, and all of its lines. -/
def Plain (x : OnPage α) : Prop := ∀ p a q, (x.run p).result = .ok (a, q) →
  q.anchors = p.anchors ∧ p.lines ⊆ q.lines

/-- A step adds some anchors. The tags that were held back before it, and those that it
adds, are on the page or held back after it. -/
structure Defines (held : List String) (text : α → List String) (anchors : List String)
    (x : OnPage α) : Prop where
  covers : ∀ p a q, (x.run p).result = .ok (a, q) → p.Covers held → q.Covers (text a)
  adds : ∀ p a q, (x.run p).result = .ok (a, q) →
    ∀ f, f ∈ q.anchors ↔ f ∈ p.anchors ∨ f ∈ anchors

/-- A step adds some anchors with their tags, where nothing is held back. -/
abbrev Adds (anchors : List String) (x : OnPage α) : Prop :=
  Defines [] (fun _ => []) anchors x

section

theorem plain_pure (a : α) : Plain (pure a : OnPage α) := by
  intro p b q h
  cases h
  exact ⟨rfl, List.Subset.refl _⟩

theorem plain_lift (x : Noting α) : Plain (liftM x : OnPage α) := by
  intro p a q h
  obtain ⟨-, rfl⟩ := run_lift_eq_ok.1 h
  exact ⟨rfl, List.Subset.refl _⟩

/-- A sequence of plain steps is plain. -/
theorem Plain.bind {x : OnPage α} (hx : Plain x) {f : α → OnPage β} (hf : ∀ a, Plain (f a)) :
    Plain (x >>= f) := by
  intro p b q h
  obtain ⟨⟨a, r⟩, ha, hb⟩ := Noting.bind_eq_ok.1 h
  obtain ⟨hanchors, hlines⟩ := hx p a r ha
  obtain ⟨hanchors', hlines'⟩ := hf a r b q hb
  exact ⟨hanchors'.trans hanchors, List.Subset.trans hlines hlines'⟩

theorem plain_mapM {f : α → OnPage β} (h : ∀ a, Plain (f a)) (as : List α) :
    Plain (as.mapM f) := by
  induction as with
  | nil => exact plain_pure _
  | cons a as ih =>
    rw [List.mapM_cons]
    exact (h a).bind fun _ => ih.bind fun _ => plain_pure _

theorem plain_forM {f : α → OnPage Unit} (h : ∀ a, Plain (f a)) (as : List α) :
    Plain (as.forM f) := by
  induction as with
  | nil => exact plain_pure _
  | cons a as ih => exact (h a).bind fun _ => ih

theorem plain_addLines (lines : List String) : Plain (Site.addLines lines) := by
  intro p a q h
  cases h
  exact ⟨rfl, List.subset_append_left _ _⟩

theorem plain_addLinks (links : List Link) : Plain (Site.addLinks links) := by
  intro p a q h
  cases h
  exact ⟨rfl, List.Subset.refl _⟩

/-- A heading without an anchor. -/
theorem plain_heading (level : Int) (text : String) : Plain (Site.heading level text none) := by
  intro p a q h
  cases h
  exact ⟨rfl, List.subset_append_left _ _⟩

end

section

variable {held : List String} {text : α → List String} {anchors more : List String}

/-- A plain step defines no anchors and holds back what was held back. -/
theorem Plain.defines {x : OnPage α} (h : Plain x) : Defines held (fun _ => held) [] x where
  covers := by
    intro p a q hrun hcovers b hb
    obtain ⟨hanchors, hlines⟩ := h p a q hrun
    obtain ⟨hanchor, hholds⟩ := hcovers b (hanchors ▸ hb)
    refine ⟨hanchor, hholds.mono ?_⟩
    exact List.append_subset.2 ⟨List.Subset.trans hlines (List.subset_append_left _ _),
      List.subset_append_right _ _⟩
  adds := by
    intro p a q hrun f
    simp [(h p a q hrun).1]

theorem defines_pure {a : α} (h : Keeps held (text a)) : Defines held text [] (pure a) where
  covers := by
    intro p b q hrun hcovers
    cases hrun
    exact hcovers.keep h
  adds := by
    intro p b q hrun f
    cases hrun
    simp

theorem defines_addLines {lines : List String} (h : Keeps held lines) :
    Defines held (fun _ => []) [] (Site.addLines lines) where
  covers := by
    intro p a q hrun hcovers
    cases hrun
    exact hcovers.add (by rwa [List.append_nil])
  adds := by
    intro p a q hrun f
    cases hrun
    simp [Page.add]

theorem defines_defineAnchor {a : String} (ha : IsAnchor a) :
    Defines held (fun tag => held ++ [tag]) [a] (Site.defineAnchor a) where
  covers := by
    intro p tag q hrun hcovers
    cases hrun
    exact hcovers.define ha
  adds := by
    intro p tag q hrun f
    cases hrun
    rw [p.anchors_define ha.nonempty, List.mem_singleton]

/-- A heading adds its anchor with the tag. -/
theorem adds_heading (level : Int) (title : String) {anchor : Option String}
    (h : ∀ a, anchor = some a → IsAnchor a) :
    Adds anchor.toList (Site.heading level title anchor) := by
  cases anchor with
  | none => exact (plain_heading level title).defines
  | some a =>
    have ha := h a rfl
    constructor
    · intro p b q hrun hcovers
      cases hrun
      have hdefine := hcovers.define ha
      unfold Page.heading
      dsimp only
      refine Covers.add (?_ : Page.Covers _ []) (Page.keeps_of_subset (List.nil_subset _))
      split
      · next htag =>
        rw [String.isEmpty_iff.1 htag] at hdefine
        exact hdefine.keep (Page.keeps_empty [])
      · exact hdefine.add (Page.keeps_of_subset (by simp))
    · intro p b q hrun f
      cases hrun
      unfold Page.heading
      dsimp only
      rw [Option.toList_some, List.mem_singleton, ← p.anchors_define ha.nonempty]
      split <;> rfl

/-- A sequence defines the anchors of its steps, and hands on the texts that are held back. -/
theorem Defines.bind {x : OnPage α} {text' : β → List String}
    (hx : Defines held text anchors x) {f : α → OnPage β}
    (hf : ∀ a, (∃ p q, (x.run p).result = .ok (a, q)) → Defines (text a) text' more (f a)) :
    Defines held text' (anchors ++ more) (x >>= f) where
  covers := by
    intro p b q hrun hcovers
    obtain ⟨⟨a, r⟩, ha, hb⟩ := Noting.bind_eq_ok.1 hrun
    exact (hf a ⟨p, r, ha⟩).covers r b q hb (hx.covers p a r ha hcovers)
  adds := by
    intro p b q hrun f'
    obtain ⟨⟨a, r⟩, ha, hb⟩ := Noting.bind_eq_ok.1 hrun
    rw [(hf a ⟨p, r, ha⟩).adds r b q hb, hx.adds p a r ha, List.mem_append, or_assoc]

/-- A plain step in front. -/
theorem Plain.after {x : OnPage α} (hx : Plain x) {text' : β → List String} {f : α → OnPage β}
    (hf : ∀ a, Defines held text' more (f a)) : Defines held text' more (x >>= f) :=
  hx.defines.bind fun a _ => hf a

/-- A step behind that adds no anchor. -/
theorem Defines.last {x : OnPage α} {text' : β → List String}
    (hx : Defines held text anchors x) {f : α → OnPage β}
    (hf : ∀ a, Defines (text a) text' [] (f a)) : Defines held text' anchors (x >>= f) := by
  simpa using hx.bind fun a _ => hf a

/-- A plain step behind. -/
theorem Defines.andThen {x : OnPage α} {texts : List String}
    (hx : Defines held (fun _ => texts) anchors x) {f : α → OnPage β} (hf : ∀ a, Plain (f a)) :
    Defines held (fun _ => texts) anchors (x >>= f) := by
  simpa using hx.bind fun a _ => (hf a).defines

/-- Steps that each hold back the tags they add. -/
theorem defines_mapM (held : List String) {f : α → OnPage β} {text : β → List String}
    {anchors : α → List String} {as : List α}
    (h : ∀ a ∈ as, ∀ held, Defines held (fun b => held ++ text b) (anchors a) (f a)) :
    Defines held (fun bs => held ++ bs.flatMap text) (as.flatMap anchors) (as.mapM f) := by
  induction as generalizing held with
  | nil => exact defines_pure (Page.keeps_of_subset (List.subset_append_left _ _))
  | cons a as ih =>
    rw [List.mapM_cons, List.flatMap_cons]
    have hrest (held : List String) := ih held fun b hb => h b (List.mem_cons_of_mem a hb)
    refine (h a List.mem_cons_self held).bind fun b _ => ?_
    have hpure (bs : List β) : Defines (held ++ text b ++ bs.flatMap text)
        (fun cs => held ++ cs.flatMap text) [] (pure (b :: bs) : OnPage (List β)) := by
      refine defines_pure (Page.keeps_of_subset ?_)
      rw [List.flatMap_cons, List.append_assoc]
      exact List.Subset.refl _
    exact (hrest (held ++ text b)).last hpure

/-- Steps that hold nothing back. -/
theorem adds_mapM {f : α → OnPage β} {anchors : α → List String} {as : List α}
    (h : ∀ a ∈ as, Defines [] (fun _ => []) (anchors a) (f a)) :
    Defines [] (fun _ => []) (as.flatMap anchors) (as.mapM f) := by
  induction as with
  | nil => exact (plain_pure _).defines
  | cons a as ih =>
    rw [List.mapM_cons, List.flatMap_cons]
    have hrest := ih fun b hb => h b (List.mem_cons_of_mem a hb)
    exact (h a List.mem_cons_self).bind fun _ _ => hrest.andThen fun _ => plain_pure _

theorem adds_forM {f : α → OnPage Unit} {anchors : α → List String} {as : List α}
    (h : ∀ a ∈ as, Adds (anchors a) (f a)) : Adds (as.flatMap anchors) (as.forM f) := by
  induction as with
  | nil => exact (plain_pure _).defines
  | cons a as ih =>
    rw [List.flatMap_cons]
    exact (h a List.mem_cons_self).bind fun _ _ => ih fun b hb => h b (List.mem_cons_of_mem a hb)

end

end OnPage

end CrateBook
