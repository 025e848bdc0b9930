import CrateBook.Page.Writing
import Mathlib.Data.List.Forall2

/-!
# Marks that steps leave

Sections, members and list entries leave marks among the notes of a step. A step leaves some
marks if a run to its end leaves just these, and a run that breaks off the first ones of
them. Steps in a row leave their marks in a row, so the marks of a page follow from those of
its parts. The same judgement says when a step runs to its end.
-/
namespace CrateBook

/-- The note tells that something was written in its place. -/
def Note.isMark : Note → Bool
  | section_ _ _ => true
  | member _ _ => true
  | entry _ _ => true
  | _ => false

namespace Noting

variable {α β : Type} {fine : Prop} {marks more : List Note}

/-- A sequence ends with a result just if its first step ends and the rest does from there. -/
theorem bind_eq_ok {x : Noting α} {f : α → Noting β} {b : β} :
    (x >>= f).result = .ok b ↔ ∃ a, x.result = .ok a ∧ (f a).result = .ok b := by
  cases hx : x.result with
  | error e => simp [bind_error hx]
  | ok a => simp [bind_ok hx]

theorem notes_bind_pure (x : Noting α) (f : α → β) :
    (x >>= fun a => pure (f a)).notes = x.notes := by
  cases hx : x.result with
  | error e => rw [bind_error hx]
  | ok a => simp [bind_ok hx]

theorem withLinks_eq_ok {x : Noting α} {r : α × List Link} :
    x.withLinks.result = .ok r ↔
      ∃ a, x.result = .ok a ∧ (a, x.notes.filterMap Note.link?) = r := by
  unfold withLinks
  cases x.result with
  | error e => simp [Except.map]
  | ok a => simp [Except.map]

/-- Where all steps of a row succeed, their results and notes stand in a row too. -/
theorem mapM_eq_ok {f : α → Noting β} {as : List α} {bs : List β}
    (h : (as.mapM f).result = .ok bs) :
    List.Forall₂ (fun a b => (f a).result = .ok b) as bs ∧
      (as.mapM f).notes = as.flatMap fun a => (f a).notes := by
  induction as generalizing bs with
  | nil =>
    cases h
    exact ⟨.nil, rfl⟩
  | cons a as ih =>
    rw [List.mapM_cons] at h ⊢
    obtain ⟨b, hb, h⟩ := bind_eq_ok.1 h
    obtain ⟨bs', hbs, h⟩ := bind_eq_ok.1 h
    cases h
    obtain ⟨hall, hnotes⟩ := ih hbs
    refine ⟨.cons hb hall, ?_⟩
    rw [bind_ok hb, bind_ok hbs, hnotes, List.flatMap_cons]
    simp

theorem exists_of_mapM_eq_ok {f : α → Noting β} {as : List α} {bs : List β}
    (h : (as.mapM f).result = .ok bs) : ∀ a ∈ as, ∃ b, (f a).result = .ok b := by
  intro a ha
  obtain ⟨i, hi, rfl⟩ := List.getElem_of_mem ha
  have hall := (mapM_eq_ok h).1
  exact ⟨_, hall.get hi (hall.length_eq ▸ hi)⟩

/-- A step leaves marks: all of them if it runs to its end, which it does where all is fine,
and the first ones of them in any case. -/
structure Leaves (fine : Prop) (marks : List Note) (x : Noting α) : Prop where
  all : ∀ a, x.result = .ok a → x.notes.filter Note.isMark = marks
  first : x.notes.filter Note.isMark <+: marks
  ends : fine → ∃ a, x.result = .ok a

/-- A step leaves no mark. -/
def Quiet (x : Noting α) : Prop := ∀ n ∈ x.notes, n.isMark = false

theorem quiet_pure (a : α) : Quiet (pure a : Noting α) := by simp [Quiet]

theorem quiet_lift (x : Checked α) : Quiet (liftM x : Noting α) :=
  fun n hn => absurd hn (by exact List.not_mem_nil)

theorem quiet_note {n : Note} (h : n.isMark = false) : Quiet (note n) := by
  simpa [Quiet] using h

/-- Steps without marks in their notes have none as a sequence. -/
theorem Quiet.bind {x : Noting α} (hx : Quiet x) {f : α → Noting β} (hf : ∀ a, Quiet (f a)) :
    Quiet (x >>= f) := by
  intro n hn
  cases hr : x.result with
  | error e =>
    rw [bind_error hr] at hn
    exact hx n hn
  | ok a =>
    rw [bind_ok hr] at hn
    rcases List.mem_append.1 hn with hn | hn
    · exact hx n hn
    · exact hf a n hn

theorem quiet_mapM {f : α → Noting β} (h : ∀ a, Quiet (f a)) (as : List α) :
    Quiet (as.mapM f) := by
  induction as with
  | nil => exact quiet_pure _
  | cons a as ih =>
    rw [List.mapM_cons]
    exact (h a).bind fun _ => ih.bind fun _ => quiet_pure _

theorem Quiet.withLinks {x : Noting α} (h : Quiet x) : Quiet x.withLinks := h

/-- A quiet step leaves no marks, however far it gets. -/
theorem Quiet.leaves {x : Noting α} (h : Quiet x) (hends : fine → ∃ a, x.result = .ok a) :
    Leaves fine [] x := by
  have hnil : x.notes.filter Note.isMark = [] := by
    rw [List.filter_eq_nil_iff]
    intro n hn
    simp [h n hn]
  exact ⟨fun _ _ => hnil, hnil ▸ List.nil_prefix, hends⟩

theorem leaves_pure (a : α) : Leaves fine [] (pure a : Noting α) :=
  (quiet_pure a).leaves fun _ => ⟨a, rfl⟩

theorem leaves_note {n : Note} (h : n.isMark = false) : Leaves fine [] (note n) :=
  (quiet_note h).leaves fun _ => ⟨(), rfl⟩

theorem leaves_mark {n : Note} (h : n.isMark = true) : Leaves fine [n] (note n) := by
  have hfilter : [n].filter Note.isMark = [n] := by simp [h]
  exact ⟨fun _ _ => hfilter, hfilter ▸ List.prefix_refl _, fun _ => ⟨(), rfl⟩⟩

/-- The marks of a sequence are those of its steps, in order. -/
theorem Leaves.bind {x : Noting α} (hx : Leaves fine marks x) {f : α → Noting β}
    (hf : ∀ a, x.result = .ok a → Leaves fine more (f a)) :
    Leaves fine (marks ++ more) (x >>= f) where
  all := by
    intro b hb
    obtain ⟨a, ha, hb⟩ := bind_eq_ok.1 hb
    rw [bind_ok ha, List.filter_append, hx.all a ha, (hf a ha).all b hb]
  first := by
    cases hr : x.result with
    | error e =>
      rw [bind_error hr]
      exact hx.first.trans (List.prefix_append marks more)
    | ok a =>
      rw [bind_ok hr, List.filter_append, hx.all a hr]
      exact (List.prefix_append_right_inj marks).2 (hf a hr).first
  ends := by
    intro hfine
    obtain ⟨a, ha⟩ := hx.ends hfine
    obtain ⟨b, hb⟩ := (hf a ha).ends hfine
    exact ⟨b, bind_eq_ok.2 ⟨a, ha, hb⟩⟩

/-- A step without marks in front. -/
theorem Leaves.after {x : Noting α} (hx : Leaves fine [] x) {f : α → Noting β}
    (hf : ∀ a, x.result = .ok a → Leaves fine more (f a)) : Leaves fine more (x >>= f) :=
  hx.bind hf

/-- A step without marks behind. -/
theorem Leaves.andThen {x : Noting α} (hx : Leaves fine marks x) {f : α → Noting β}
    (hf : ∀ a, x.result = .ok a → Leaves fine [] (f a)) : Leaves fine marks (x >>= f) := by
  simpa using hx.bind hf

theorem leaves_mapM {f : α → Noting β} {g : α → List Note} {as : List α}
    (h : ∀ a ∈ as, Leaves fine (g a) (f a)) : Leaves fine (as.flatMap g) (as.mapM f) := by
  induction as with
  | nil => exact leaves_pure _
  | cons a as ih =>
    rw [List.mapM_cons, List.flatMap_cons]
    have hrest := ih fun b hb => h b (List.mem_cons_of_mem a hb)
    exact (h a List.mem_cons_self).bind fun _ _ => hrest.andThen fun _ _ => leaves_pure _

theorem Leaves.withLinks {x : Noting α} (h : Leaves fine marks x) :
    Leaves fine marks x.withLinks where
  all := by
    intro r hr
    obtain ⟨a, ha, -⟩ := withLinks_eq_ok.1 hr
    exact h.all a ha
  first := h.first
  ends := by
    intro hfine
    obtain ⟨a, ha⟩ := h.ends hfine
    exact ⟨_, withLinks_eq_ok.2 ⟨a, ha, rfl⟩⟩

end Noting

/-- A declaration that was rendered has the code that was written for it. -/
theorem Declaration.text_of_render {d : Declaration} {x : Item} {r : RenderedCode}
    (h : (d.render x).result = .ok r) : (d.text x).result = .ok r.code := by
  obtain ⟨⟨code, links⟩, hcode, hr⟩ := Noting.bind_eq_ok.1 h
  obtain ⟨text, htext, heq⟩ := Noting.withLinks_eq_ok.1 hcode
  cases heq
  cases hr
  exact htext

namespace OnPage

open Noting (Leaves)

variable {α β : Type} {fine : Prop} {marks more : List Note}

/-- A step leaves marks, whatever stands on the page. -/
def Marks (fine : Prop) (marks : List Note) (x : OnPage α) : Prop :=
  ∀ p, Leaves fine marks (x.run p)

theorem marks_pure (a : α) : Marks fine [] (pure a : OnPage α) :=
  fun _ => Noting.leaves_pure _

theorem marks_modify (f : Page → Page) : Marks fine [] (modify f : OnPage Unit) :=
  fun _ => Noting.leaves_pure _

theorem marks_lift {x : Noting α} (h : Leaves fine marks x) :
    Marks fine marks (liftM x : OnPage α) :=
  fun _ => h.andThen fun _ _ => Noting.leaves_pure _

/-- A step that only leaves notes keeps the page. -/
theorem run_lift_eq_ok {x : Noting α} {a : α} {p q : Page} :
    ((liftM x : OnPage α).run p).result = .ok (a, q) ↔ x.result = .ok a ∧ p = q := by
  have hrun : (liftM x : OnPage α).run p = x >>= fun b => pure (b, p) := rfl
  rw [hrun, Noting.bind_eq_ok]
  constructor
  · rintro ⟨b, hb, heq⟩
    cases heq
    exact ⟨hb, rfl⟩
  · rintro ⟨ha, rfl⟩
    exact ⟨a, ha, rfl⟩

/-- The marks of a sequence on a page are those of its steps, in order. -/
theorem Marks.bind {x : OnPage α} (hx : Marks fine marks x) {f : α → OnPage β}
    (hf : ∀ a, (∃ p q, (x.run p).result = .ok (a, q)) → Marks fine more (f a)) :
    Marks fine (marks ++ more) (x >>= f) :=
  fun p => (hx p).bind fun r hr => hf r.1 ⟨p, r.2, hr⟩ r.2

/-- A step without marks in front. -/
theorem Marks.after {x : OnPage α} (hx : Marks fine [] x) {f : α → OnPage β}
    (hf : ∀ a, Marks fine more (f a)) : Marks fine more (x >>= f) :=
  hx.bind fun a _ => hf a

/-- A step without marks behind. -/
theorem Marks.andThen {x : OnPage α} (hx : Marks fine marks x) {f : α → OnPage β}
    (hf : ∀ a, Marks fine [] (f a)) : Marks fine marks (x >>= f) :=
  fun p => (hx p).andThen fun r _ => hf r.1 r.2

theorem marks_mapM {f : α → OnPage β} {g : α → List Note} {as : List α}
    (h : ∀ a ∈ as, Marks fine (g a) (f a)) : Marks fine (as.flatMap g) (as.mapM f) := by
  induction as with
  | nil => exact marks_pure _
  | cons a as ih =>
    rw [List.mapM_cons, List.flatMap_cons]
    have hrest := ih fun b hb => h b (List.mem_cons_of_mem a hb)
    exact (h a List.mem_cons_self).bind fun _ _ => hrest.andThen fun _ => marks_pure _

/-- The marks of a loop are those of its rounds, in order. -/
theorem marks_forM {f : α → OnPage Unit} {g : α → List Note} {as : List α}
    (h : ∀ a ∈ as, Marks fine (g a) (f a)) : Marks fine (as.flatMap g) (as.forM f) := by
  induction as with
  | nil => exact marks_pure _
  | cons a as ih =>
    rw [List.flatMap_cons]
    exact (h a List.mem_cons_self).bind fun _ _ => ih fun b hb => h b (List.mem_cons_of_mem a hb)

/-- Steps without marks. -/
theorem unmarked_mapM {f : α → OnPage β} {as : List α} (h : ∀ a ∈ as, Marks fine [] (f a)) :
    Marks fine [] (as.mapM f) := by
  have hnil : as.flatMap (fun _ => ([] : List Note)) = [] := by simp
  exact hnil ▸ marks_mapM h

theorem unmarked_forM {f : α → OnPage Unit} {as : List α}
    (h : ∀ a ∈ as, Marks fine [] (f a)) : Marks fine [] (as.forM f) := by
  have hnil : as.flatMap (fun _ => ([] : List Note)) = [] := by simp
  exact hnil ▸ marks_forM h

end OnPage

end CrateBook
