import CrateBook.Proofs.Accounts
import CrateBook.Proofs.Coverage

/-!
# Every item is documented once

Each placed item that is no module has one section, in the file that the layout gives it and
behind its anchor; each other placement of it is listed once, with a link to the item. The pages
account for the placements one by one: by the marks that are left when a page is written, and by
the lines that the page then has.
-/
namespace CrateBook.Site

open Layout (placementsOn)

variable (s : Site)

/-- The page that shows the module at a path. -/
def ShowsModule (path : List String) : PageKind → Prop
  | .document _ => True
  | .module n => n ∈ s.tree.modules ∧ n.path = path
  | .item _ => False

/-- Lines are written once for a placement: all other lines of the documents account for other
placements. -/
structure WrittenOnce (ds : List Document) (p : Placement) (part : List String)
    (d : Document) : Prop where
  page : ∃ before after qs rs, d.page.lines = before ++ part ++ after ∧
    s.AccountsFor qs before ∧ s.AccountsFor rs after ∧ p ∉ qs ∧ p ∉ rs
  only : ∀ other ∈ ds, other.plan ≠ d.plan → ∃ qs, s.AccountsFor qs other.page.lines ∧ p ∉ qs

/-- Each placed item has one section, and an entry at each other placement. -/
structure DocumentsOnce : Prop where
  /-- Only placed items have sections. -/
  placed : ∀ id, ¬ s.Placed id → s.documents.notes.filter (Note.isSectionOf id) = []
  /-- Also in a run that breaks off, no item has two. -/
  atMostOnce : ∀ id, s.Placed id → s.documents.notes.filter (Note.isSectionOf id) <+:
    [.section_ id (s.layout.anchorFor id)]
  /-- In a run to the end each placed item has one, where the layout puts it: what the section
  wrote stands there, and nowhere else. -/
  once : ∀ ds, s.documents.result = .ok ds → ∀ id, s.Placed id →
    ∃ d ∈ ds, s.layout.fileFor id = some d.plan ∧
      s.StandsOnce (Note.isSectionOf id) (.section_ id (s.layout.anchorFor id)) d.plan ∧
      ∃ p x level part, s.tree.placements.primary? id = some p ∧
        s.source.items.get? id = some x ∧
        OnPage.Wrote (s.itemSection level (s.layout.anchorFor id) x) () part ∧
        s.WrittenOnce ds p part d
  /-- Pages of items need no anchors. -/
  unanchored : s.options.mode = .item → ∀ id, s.layout.anchorFor id = none
  /-- Any other placement is listed once, where its module is shown: the line of its entry and the
  link of the page lead to the item. -/
  listed : ∀ ds, s.documents.result = .ok ds → s.options.mode ≠ .item → ∀ id, s.Placed id →
    ∀ p ∈ s.tree.placements.recorded id, s.tree.placements.isPrimary p = false →
      ∃ href home, s.layout.hrefFor id = some href ∧ s.tree.placements.primary? id = some home ∧
        ∃ d ∈ ds, s.ShowsModule p.modulePath d.plan.page ∧
          s.StandsOnce (Note.isEntryOf p) (.entry p (some href)) d.plan ∧
          s.WrittenOnce ds p [entryLine p home href] d ∧
          Text.occursIn (entryLine p home href) d.body = true ∧ ⟨p.name, href⟩ ∈ d.links
  /-- Runs come to their end unless a declaration cannot be written. -/
  ends : s.Writable → ∃ ds, s.documents.result = .ok ds

namespace Planned

variable {s} (h : s.Planned)

include h

/-- A placed item can be listed. -/
theorem listable {n : Node} (hn : n ∈ s.tree.modules) {p : Placement} (hp : p ∈ n.members) :
    s.Listable p.itemId := by
  obtain ⟨plan, home, hfile, -, hprim, hid⟩ := h.exists_page (h.placed_of_member hn hp)
  obtain ⟨href, hhref⟩ : ∃ href, s.layout.hrefFor p.itemId = some href := by
    rw [Layout.hrefFor, hfile]
    exact ⟨_, rfl⟩
  exact ⟨home, href, hid ▸ PlacementMap.isPrimary_iff.1 hprim, hhref,
    h.hrefOf_of_member hn hp hhref⟩

/-- A page accounts for its placements with its lines. -/
theorem accounted_pageOf {plan : FilePlan PageKind} (hplan : plan ∈ s.layout.files) :
    s.Accounted (placementsOn s.tree s.options.mode plan.page) (s.pageOf plan) := by
  unfold pageOf
  rcases h.page_cases hplan with ⟨-, hpage⟩ | ⟨n, hn, rfl⟩ | ⟨hmode, p, hpage⟩
  · rw [hpage]
    exact accounted_packagePage _ fun n hn p hp _ => h.listable hn hp
  · have hmodule := accounted_modulePage hn (Layout.modulePlan n).title
      fun _ p hp _ => h.listable hn hp
    simp only [beq_iff_eq] at hmodule
    exact hmodule
  · have hp : p ∈ placementsOn s.tree s.options.mode plan.page := by
      rw [hpage]
      exact List.mem_singleton.2 rfl
    have hprim : s.tree.placements.isPrimary p = true := h.isPrimary_of_item hmode hplan hp
    rw [hpage]
    exact accounted_itemPage _ hprim (h.anchorFor_item hmode _)

/-- The lines of a document account for the placements on its page. -/
theorem accountsFor_document {ds : List Document} (hds : s.documents.result = .ok ds)
    {d : Document} (hd : d ∈ ds) :
    s.AccountsFor (placementsOn s.tree s.options.mode d.plan.page) d.page.lines ∧
      ∀ p ∈ placementsOn s.tree s.options.mode d.plan.page, s.Linked d.page.links p := by
  have hplan : d.plan ∈ s.layout.files := plans_of_documents hds ▸ List.mem_map_of_mem hd
  obtain ⟨⟨u, page⟩, hpage, heq⟩ := Noting.bind_eq_ok.1 (document_of_mem hds d hd)
  have hsame : page = d.page := congrArg Document.page (Except.ok.inj heq)
  rw [hsame] at hpage
  have haccounted := h.accounted_pageOf hplan
  obtain ⟨-, lines, hlines, haccounts⟩ := haccounted.lines {} u d.page hpage
  rw [List.nil_append] at hlines
  exact ⟨hlines ▸ haccounts, haccounted.links {} u d.page hpage⟩

/-- What a page accounts for is written once. -/
theorem exists_writtenOnce {ds : List Document} (hds : s.documents.result = .ok ds)
    {d : Document} (hd : d ∈ ds) {p : Placement}
    (hp : p ∈ placementsOn s.tree s.options.mode d.plan.page) :
    ∃ part, s.Part (some p) part ∧ s.WrittenOnce ds p part d := by
  have hplan : d.plan ∈ s.layout.files := plans_of_documents hds ▸ List.mem_map_of_mem hd
  have hnodup := h.nodup_placementsOn
  obtain ⟨before, part, after, qs, rs, hlines, hpart, hqs, hrs, hperm⟩ :=
    (h.accountsFor_document hds hd).1.split hp
  have hsingle : (qs ++ p :: rs).Nodup :=
    hperm.nodup_iff.2 ((List.nodup_flatMap.1 hnodup).1 d.plan hplan)
  obtain ⟨-, hrest, hapart⟩ := List.nodup_append.1 hsingle
  refine ⟨part, hpart, ⟨before, after, qs, rs, hlines, hqs, hrs, ?_, ?_⟩, ?_⟩
  · exact fun hmem => hapart p hmem p List.mem_cons_self rfl
  · exact (List.nodup_cons.1 hrest).1
  · intro other hother hne
    refine ⟨_, (h.accountsFor_document hds hother).1, ?_⟩
    obtain ⟨front, back, hsplit⟩ := List.append_of_mem hplan
    have hmem : other.plan ∈ front ++ back := by
      have hfile : other.plan ∈ s.layout.files :=
        plans_of_documents hds ▸ List.mem_map_of_mem hother
      rw [hsplit] at hfile
      refine List.mem_append.2 ((List.mem_append.1 hfile).imp_right fun hback => ?_)
      exact (List.mem_cons.1 hback).resolve_left hne
    rw [hsplit] at hnodup
    exact notMem_of_nodup_flatMap hnodup hp other.plan hmem

/-- In pages for modules and for the package, a placement is on the page of its module. -/
theorem showsModule {p : Placement} {plan : FilePlan PageKind}
    (hplan : plan ∈ s.layout.files) (hmode : s.options.mode ≠ .item) (hpon :
      p ∈ placementsOn s.tree s.options.mode plan.page) :
    s.ShowsModule p.modulePath plan.page := by
  rcases h.page_cases hplan with ⟨-, hpage⟩ | ⟨m, hm, rfl⟩ | ⟨hitem, -⟩
  · rw [hpage]
    trivial
  · simp only [Layout.modulePlan, placementsOn] at hpon ⊢
    split at hpon
    · exact ⟨hm, ((h.grown m hm).modulePath hpon).symm⟩
    · exact absurd hpon List.not_mem_nil
  · exact absurd hitem hmode

theorem documentsOnce : s.DocumentsOnce where
  placed := by
    intro id hid
    have hprefix := h.sections_prefix id
    rw [h.filter_section_marks_of_not_placed hid] at hprefix
    exact List.prefix_nil.1 hprefix
  atMostOnce := by
    intro id hid
    exact h.filter_section_marks hid ▸ h.sections_prefix id
  once := by
    intro ds hds id hid
    obtain ⟨p, hp, hprim⟩ := h.exists_primary hid
    obtain ⟨rfl, n, hn, hpn⟩ := h.exists_member hid hp
    obtain ⟨plan, hplan, hpon⟩ := h.exists_file hn hpn (.inl hprim)
    obtain ⟨d, hd, rfl⟩ := exists_document hds hplan
    refine ⟨d, hd, h.fileFor_of_placementsOn hplan hpon hprim, ?_, ?_⟩
    · refine h.standsOnce (fun m hm => ?_) hds hplan hpon ?_ fun m hm q hq hne => ?_
      · cases m <;> simp_all [Note.isSectionOf, Note.isMark]
      · rw [h.filter_section hn hpn, if_pos ⟨hprim, rfl⟩]
      · rw [h.filter_section hm hq, if_neg]
        rintro ⟨hqprim, hqid⟩
        exact hne (PlacementMap.eq_of_isPrimary hqprim hprim hqid)
    · obtain ⟨part, hpart, hwritten⟩ := h.exists_writtenOnce hds hd hpon
      cases hpart with
      | section_ _ hx hwrote =>
        exact ⟨p, _, _, part, PlacementMap.isPrimary_iff.1 hprim, hx, hwrote, hwritten⟩
      | entry hother _ _ =>
        rw [hprim] at hother
        cases hother
  unanchored := h.anchorFor_item
  listed := by
    intro ds hds hmode id hid p hp hprim
    obtain ⟨rfl, n, hn, hpn⟩ := h.exists_member hid hp
    obtain ⟨plan, hplan, hpon⟩ := h.exists_file hn hpn (.inr hmode)
    obtain ⟨d, hd, rfl⟩ := exists_document hds hplan
    obtain ⟨part, hpart, hwritten⟩ := h.exists_writtenOnce hds hd hpon
    cases hpart with
    | section_ hself _ _ =>
      rw [hprim] at hself
      cases hself
    | @entry _ home href _ hhome hhref =>
      refine ⟨href, home, hhref, hhome, d, hd, h.showsModule hplan hmode hpon, ?_, hwritten,
        ?_, ?_⟩
      · have hlink : s.hrefOf p.itemId = some href := h.hrefOf_of_member hn hpn hhref
        refine h.standsOnce (fun k hk => ?_) hds hplan hpon ?_ fun m hm r hr hne => ?_
        · cases k <;> simp_all [Note.isEntryOf, Note.isMark]
        · rw [h.filter_entry hn hpn, if_pos ⟨hprim, rfl⟩, hlink]
        · rw [h.filter_entry hm hr, if_neg]
          exact fun hrp => hne hrp.2
      · obtain ⟨before, after, -, -, hlines, -⟩ := hwritten.page
        refine Page.occursIn_entryLine ?_
        rw [hlines]
        exact List.mem_append_left _ (List.mem_append_right _ List.mem_cons_self)
      · obtain ⟨href', hhref', hmem⟩ := (h.accountsFor_document hds hd).2 p hpon hprim
        obtain rfl := Option.some.inj (hhref.symm.trans hhref')
        exact List.mem_eraseDups.2 hmem
  ends := h.leaves_documents.ends

end Planned

end CrateBook.Site
