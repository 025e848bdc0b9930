import CrateBook.Proofs.Sites

/-!
# Pages account for placements

The marks of a page are those of the placements that it accounts for: the section of an item
at its primary placement, and an entry at each other one. No placement is accounted for twice,
so a mark that one placement leaves stands once among the marks of all pages.
-/
namespace CrateBook

open Noting (Leaves)

open OnPage (Marks)

open Layout (placementsOn)

def Note.isSectionOf (id : Id) : Note → Bool
  | section_ i _ => i == id
  | _ => false

def Note.isEntryOf (p : Placement) : Note → Bool
  | entry q _ => q == p
  | _ => false

namespace Site

variable (s : Site)

def pageMarks : PageKind → List Note
  | .document _ => s.tree.modules.flatMap s.contentMarks
  | .module n => if s.options.mode == .module then s.contentMarks n else []
  | .item p =>
    match s.source.items.get? p.itemId with
    | none => []
    | some x => .section_ x.id none :: s.memberMarks none x

theorem marks_itemPage {p : Placement} {x : Item} (hx : s.source.items.get? p.itemId = some x)
    (title : String) :
    Marks s.Writable (.section_ x.id none :: s.memberMarks none x) (s.itemPage title p) := by
  refine s.marks_withItem (fun _ => ⟨x, hx⟩) fun y hy => ?_
  obtain rfl := Option.some.inj (hx.symm.trans hy)
  exact (marks_addLines _).after fun _ => (s.marks_moduleLine _).after fun _ =>
    (s.marks_itemSection hx 1 none).andThen fun _ => s.marks_otherPlacements p

namespace Planned

variable {s} (h : s.Planned)

include h

theorem marks_packagePage (title : String) :
    Marks s.Writable (s.tree.modules.flatMap s.contentMarks)
      (s.packagePage title s.tree.root) := by
  have hmodules : s.tree.modules = s.tree.root :: s.tree.modules.tail := by
    rw [Tree.modules, Node.walk_eq_cons, List.tail_cons]
  have hroot : s.tree.root ∈ s.tree.modules := Node.self_mem_walk _
  have hsections : Marks s.Writable (s.tree.modules.tail.flatMap s.contentMarks)
      (s.tree.modules.tail.forM s.moduleSection) := by
    refine OnPage.marks_forM fun n hn => ?_
    have hn := List.mem_of_mem_tail hn
    exact marks_moduleSection (h.grown n hn) fun hw => h.known_node hn hw.root
  rw [hmodules, List.flatMap_cons]
  exact (marks_addLines _).after fun _ => (marks_heading _ _ _).after fun _ =>
    (marks_moduleIntro fun hw => h.known_node hroot hw.root).after fun _ =>
      (s.marks_contents _).after fun _ =>
      (marks_moduleContents (h.grown _ hroot) 2 true).bind fun _ _ => hsections

theorem leaves_document {plan : FilePlan PageKind} (hplan : plan ∈ s.layout.files) :
    Leaves s.Writable (s.pageMarks plan.page) (s.document plan) := by
  have hpage : Marks s.Writable (s.pageMarks plan.page) (s.pageOf plan) := by
    unfold pageOf
    rcases h.page_cases hplan with ⟨-, hpage⟩ | ⟨n, hn, rfl⟩ | ⟨-, p, hpage⟩
    · rw [hpage]
      exact h.marks_packagePage _
    · exact marks_modulePage (h.grown n hn) (fun hw => h.known_node hn hw.root) _
    · have hp : p ∈ placementsOn s.tree s.options.mode plan.page := by
        rw [hpage]
        exact List.mem_singleton.2 rfl
      obtain ⟨n, hn, hpn⟩ := h.exists_node hplan hp
      obtain ⟨x, hx⟩ := known_member (h.grown n hn) hpn
      simp only [hpage, pageMarks, hx]
      exact s.marks_itemPage hx _
  exact (hpage {}).andThen fun _ _ => Noting.leaves_pure _

/-- The marks of a page are those of the placements that it accounts for. -/
theorem perm_pageMarks {plan : FilePlan PageKind} (hplan : plan ∈ s.layout.files) :
    (s.pageMarks plan.page).Perm
      ((placementsOn s.tree s.options.mode plan.page).flatMap s.placementMarks) := by
  rcases h.page_cases hplan with ⟨-, hpage⟩ | ⟨n, hn, rfl⟩ | ⟨hmode, p, hpage⟩
  · rw [hpage, pageMarks, placementsOn, List.flatMap_assoc]
    exact List.Perm.flatMap_left _ fun n _ => s.perm_contentMarks n
  · simp only [Layout.modulePlan, pageMarks, placementsOn, beq_iff_eq]
    split
    · exact s.perm_contentMarks n
    · exact .nil
  · have hp : p ∈ placementsOn s.tree s.options.mode plan.page := by
      rw [hpage]
      exact List.mem_singleton.2 rfl
    have hprim : s.tree.placements.isPrimary p = true := h.isPrimary_of_item hmode hplan hp
    refine List.Perm.of_eq ?_
    rw [hpage]
    cases hx : s.source.items.get? p.itemId <;>
      simp [pageMarks, placementsOn, placementMarks, hprim, h.anchorFor_item hmode, hx]

/-- Writing all documents leaves the marks of all pages, in the order of the files. -/
theorem leaves_documents : Leaves s.Writable
    (s.layout.files.flatMap fun plan => s.pageMarks plan.page) s.documents :=
  Noting.leaves_mapM fun _ hplan => h.leaves_document hplan

end Planned

/-- One mark of a kind is left, on the page of one file. -/
structure StandsOnce (keep : Note → Bool) (mark : Note) (plan : FilePlan PageKind) : Prop where
  total : s.documents.notes.filter keep = [mark]
  page : (s.document plan).notes.filter keep = [mark]
  only : ∃ before after, s.layout.files = before ++ plan :: after ∧
    ∀ other ∈ before ++ after, (s.document other).notes.filter keep = []

/-- Members leave marks of their own kind. -/
theorem exists_member_of_memberMarks {anchor : Option String} {x : Item} :
    ∀ n ∈ s.memberMarks anchor x, ∃ id a, n = .member id a := by
  have hmap (owner scope : Option String) (xs : List Item) :
      ∀ n ∈ xs.map (memberMark owner scope), ∃ id a, n = .member id a := by
    intro n hn
    obtain ⟨y, -, rfl⟩ := List.mem_map.1 hn
    exact ⟨_, _, rfl⟩
  have hfield (id : Option Id) : ∀ n ∈ s.fieldMarks anchor id, ∃ id a, n = .member id a := by
    unfold fieldMarks
    repeat' split
    all_goals simp [memberMark]
  have hvariantField (a : String) (id : Option Id) :
      ∀ n ∈ s.variantFieldMarks a id, ∃ id a, n = .member id a := by
    unfold variantFieldMarks
    repeat' split
    all_goals simp
  have hvariant (id : Id) : ∀ n ∈ s.variantMarks anchor id, ∃ id a, n = .member id a := by
    unfold variantMarks
    split
    · simp
    · split
      · intro n hn
        rcases List.mem_cons.1 hn with rfl | hn
        · exact ⟨_, _, rfl⟩
        · split at hn
          · obtain ⟨f, -, hn⟩ := List.mem_flatMap.1 hn
            exact hvariantField _ f n hn
          · simp at hn
      · simp
  have htraitImpl (t : TraitImpl) : ∀ n ∈ s.traitImplMarks anchor t, ∃ id a, n = .member id a := by
    unfold traitImplMarks
    split
    · simp
    · exact hmap _ _ _
  intro n hn
  rcases List.mem_append.1 hn with hn | hn
  · unfold partMarks at hn
    split at hn
    · obtain ⟨f, -, hn⟩ := List.mem_flatMap.1 hn
      exact hfield f n hn
    · obtain ⟨v, -, hn⟩ := List.mem_flatMap.1 hn
      exact hvariant v n hn
    · obtain ⟨title, -, hn⟩ := List.mem_flatMap.1 hn
      exact hmap _ _ _ n hn
    · simp at hn
  · split at hn
    · rcases List.mem_append.1 hn with hn | hn
      · exact hmap _ _ _ n hn
      · obtain ⟨t, -, hn⟩ := List.mem_flatMap.1 hn
        exact htraitImpl t n hn
    · simp at hn

section

variable {s}

theorem filter_memberMarks {keep : Note → Bool} (hkeep : ∀ id a, keep (.member id a) = false)
    (anchor : Option String) (x : Item) : (s.memberMarks anchor x).filter keep = [] := by
  rw [List.filter_eq_nil_iff]
  intro n hn
  obtain ⟨id, a, rfl⟩ := s.exists_member_of_memberMarks n hn
  simp [hkeep]

/-- A primary placement has the section of its item, no other section and no entry. -/
theorem filter_placementMarks_of_isPrimary {keep : Note → Bool}
    (hkeep : ∀ id a, keep (.member id a) = false) {p : Placement}
    (hprim : s.tree.placements.isPrimary p = true) {x : Item}
    (hx : s.source.items.get? p.itemId = some x) :
    (s.placementMarks p).filter keep =
      [.section_ p.itemId (s.layout.anchorFor p.itemId)].filter keep := by
  have hid : x.id = p.itemId := Items.id_of_get? hx
  rw [placementMarks, if_pos hprim, hx]
  dsimp only
  rw [hid, List.filter_cons, filter_memberMarks hkeep, List.filter_cons, List.filter_nil]

/-- Any other placement has its entry and nothing else. -/
theorem filter_placementMarks_of_not_isPrimary {keep : Note → Bool} {p : Placement}
    (hprim : s.tree.placements.isPrimary p = false) :
    (s.placementMarks p).filter keep = [.entry p (s.hrefOf p.itemId)].filter keep := by
  rw [placementMarks, hprim]
  rfl

end

/-- Where nothing else gives anything, a row gives what one part of it gives. -/
theorem flatMap_eq_of_nodup {α β : Type} {f : α → List β} {as : List α} (h : as.Nodup) {a : α}
    (ha : a ∈ as) (hother : ∀ b ∈ as, b ≠ a → f b = []) : as.flatMap f = f a := by
  induction as with
  | nil => exact absurd ha List.not_mem_nil
  | cons b as ih =>
    rw [List.nodup_cons] at h
    rw [List.flatMap_cons]
    by_cases hab : b = a
    · subst hab
      have hrest : as.flatMap f = [] := by
        rw [List.flatMap_eq_nil_iff]
        exact fun c hc => hother c (List.mem_cons_of_mem b hc) fun hcb => h.1 (hcb ▸ hc)
      rw [hrest, List.append_nil]
    · have ha := (List.mem_cons.1 ha).resolve_left (Ne.symm hab)
      rw [hother b List.mem_cons_self hab, List.nil_append]
      exact ih h.2 ha fun c hc => hother c (List.mem_cons_of_mem b hc)

theorem notMem_of_nodup_flatMap {α β : Type} {f : α → List β} {before after : List α} {a : α}
    (h : ((before ++ a :: after).flatMap f).Nodup) {y : β} (hy : y ∈ f a) :
    ∀ b ∈ before ++ after, y ∉ f b := by
  rw [List.flatMap_append, List.flatMap_cons, List.nodup_append, List.nodup_append] at h
  obtain ⟨-, ⟨-, -, hafter⟩, hbefore⟩ := h
  intro b hb hyb
  rcases List.mem_append.1 hb with hb | hb
  · exact hbefore y (List.mem_flatMap.2 ⟨b, hb, hyb⟩) y (List.mem_append_left _ hy) rfl
  · exact hafter y hy y (List.mem_flatMap.2 ⟨b, hb, hyb⟩) rfl

namespace Planned

variable {s : Site} (h : s.Planned) {keep : Note → Bool}
  (hkeep : ∀ n, keep n = true → n.isMark = true)

include h hkeep

/-- On a page that was written, marks of a kind come from what the page accounts for. -/
theorem perm_filter_notes {plan : FilePlan PageKind} (hplan : plan ∈ s.layout.files)
    {d : Document} (hd : (s.document plan).result = .ok d) :
    ((s.document plan).notes.filter keep).Perm
      ((placementsOn s.tree s.options.mode plan.page).flatMap fun p =>
        (s.placementMarks p).filter keep) := by
  have hsub : (s.document plan).notes.filter keep =
      ((s.document plan).notes.filter Note.isMark).filter keep := by
    rw [List.filter_filter]
    refine List.filter_congr fun n _ => ?_
    cases hn : keep n with
    | false => rfl
    | true => simp [hkeep n hn]
  rw [hsub, (h.leaves_document hplan).all d hd, ← List.filter_flatMap]
  exact (h.perm_pageMarks hplan).filter keep

/-- A mark that only one placement leaves stands once, on the page that accounts for it. -/
theorem standsOnce {ds : List Document} (hds : s.documents.result = .ok ds)
    {plan : FilePlan PageKind} (hplan : plan ∈ s.layout.files) {p : Placement}
    (hp : p ∈ placementsOn s.tree s.options.mode plan.page) {mark : Note}
    (hmark : (s.placementMarks p).filter keep = [mark])
    (hother : ∀ n ∈ s.tree.modules, ∀ q ∈ n.members, q ≠ p →
      (s.placementMarks q).filter keep = []) : s.StandsOnce keep mark plan := by
  have hnodup := h.nodup_placementsOn
  have hresult := Noting.exists_of_mapM_eq_ok hds
  have hpage : (s.document plan).notes.filter keep = [mark] := by
    obtain ⟨d, hd⟩ := hresult plan hplan
    have hperm := h.perm_filter_notes hkeep hplan hd
    have hone := flatMap_eq_of_nodup ((List.nodup_flatMap.1 hnodup).1 plan hplan) hp
      fun q hq hne => by
        obtain ⟨n, hn, hqn⟩ := h.exists_node hplan hq
        exact hother n hn q hqn hne
    rw [hone, hmark] at hperm
    exact List.perm_singleton.1 hperm
  obtain ⟨before, after, hsplit⟩ := List.append_of_mem hplan
  have honly : ∀ other ∈ before ++ after, (s.document other).notes.filter keep = [] := by
    intro other hmem
    have hfile : other ∈ s.layout.files := by
      rw [hsplit]
      exact List.mem_append.2 ((List.mem_append.1 hmem).imp_right (List.mem_cons_of_mem _))
    obtain ⟨d, hd⟩ := hresult other hfile
    refine List.Perm.eq_nil ((h.perm_filter_notes hkeep hfile hd).trans (.of_eq ?_))
    rw [List.flatMap_eq_nil_iff]
    intro q hq
    obtain ⟨n, hn, hqn⟩ := h.exists_node hfile hq
    refine hother n hn q hqn fun hqp => ?_
    rw [hsplit] at hnodup
    exact notMem_of_nodup_flatMap hnodup hp other hmem (hqp ▸ hq)
  refine ⟨?_, hpage, before, after, hsplit, honly⟩
  have hnil (others : List (FilePlan PageKind)) (hothers : others ⊆ before ++ after) :
      (others.flatMap fun other => (s.document other).notes.filter keep) = [] := by
    rw [List.flatMap_eq_nil_iff]
    exact fun other hmem => honly other (hothers hmem)
  rw [documents, (Noting.mapM_eq_ok hds).2, List.filter_flatMap, hsplit, List.flatMap_append,
    List.flatMap_cons, hnil before (List.subset_append_left _ _),
    hnil after (List.subset_append_right _ _), hpage]
  rfl

end Planned

/-- A placed item has a placement, and is no module of the tree. -/
def Placed (id : Id) : Prop :=
  s.tree.placements.recorded id ≠ [] ∧ ∀ n ∈ s.tree.modules, n.id ≠ id

section

variable {s}

theorem document_eq_ok {plan : FilePlan PageKind} {d : Document}
    (h : (s.document plan).result = .ok d) : d.plan = plan := by
  obtain ⟨r, -, heq⟩ := Noting.bind_eq_ok.1 h
  cases heq
  rfl

/-- The documents are those of the planned files, in order. -/
theorem plans_of_documents {ds : List Document} (h : s.documents.result = .ok ds) :
    ds.map (·.plan) = s.layout.files := by
  have hall := (Noting.mapM_eq_ok h).1
  generalize s.layout.files = files at hall
  clear h
  induction hall with
  | nil => rfl
  | cons hd _ ih =>
    rw [List.map_cons, document_eq_ok hd, ih]

/-- A document was written for each planned file. -/
theorem exists_document {ds : List Document} (hds : s.documents.result = .ok ds)
    {plan : FilePlan PageKind} (hplan : plan ∈ s.layout.files) : ∃ d ∈ ds, d.plan = plan := by
  rw [← plans_of_documents hds] at hplan
  exact List.mem_map.1 hplan

theorem document_of_mem {ds : List Document} (h : s.documents.result = .ok ds) :
    ∀ d ∈ ds, (s.document d.plan).result = .ok d := by
  have hall := (Noting.mapM_eq_ok h).1
  generalize s.layout.files = files at hall
  clear h
  induction hall with
  | nil => exact List.forall_mem_nil _
  | cons hd _ ih => exact List.forall_mem_cons.2 ⟨document_eq_ok hd ▸ hd, ih⟩

end

namespace Planned

variable {s} (h : s.Planned)

include h

/-- A placement of a placed item is a member of a module. -/
theorem exists_member {id : Id} (hid : s.Placed id) {p : Placement}
    (hp : p ∈ s.tree.placements.recorded id) :
    p.itemId = id ∧ ∃ n ∈ s.tree.modules, p ∈ n.members := by
  obtain ⟨-, hnodes⟩ := hid
  rw [h.tree] at hp hnodes ⊢
  exact ⟨(Tree.tidy_ofExport _ _).keyed id p hp, Tree.exists_member _ _ hp hnodes⟩

/-- A placed item has a primary placement. -/
theorem exists_primary {id : Id} (hid : s.Placed id) :
    ∃ p ∈ s.tree.placements.recorded id, s.tree.placements.isPrimary p = true := by
  obtain ⟨q, hq⟩ := List.exists_mem_of_ne_nil _ hid.1
  obtain ⟨p, hp⟩ := PlacementMap.exists_primary? hq
  have htidy : s.tree.placements.Tidy := by
    rw [h.tree]
    exact Tree.tidy_ofExport _ _
  exact ⟨p, PlacementMap.mem_recorded_of_primary? hp, (htidy.isPrimary_of_primary? hp).2⟩

/-- A placed item has its section on the page that shows it. -/
theorem exists_page {id : Id} (hid : s.Placed id) : ∃ plan p, s.layout.fileFor id = some plan ∧
    p ∈ placementsOn s.tree s.options.mode plan.page ∧
      s.tree.placements.isPrimary p = true ∧ p.itemId = id := by
  obtain ⟨p, hp, hprim⟩ := h.exists_primary hid
  obtain ⟨rfl, n, hn, hpn⟩ := h.exists_member hid hp
  obtain ⟨plan, hplan, hpon⟩ := h.exists_file hn hpn (.inl hprim)
  exact ⟨plan, p, h.fileFor_of_placementsOn hplan hpon hprim, hpon, hprim, rfl⟩

/-- Every member of a node is a placed item. -/
theorem placed_of_member {n : Node} (hn : n ∈ s.tree.modules) {p : Placement}
    (hp : p ∈ n.members) : s.Placed p.itemId := by
  unfold Placed
  rw [h.tree] at hn ⊢
  exact ⟨List.ne_nil_of_mem (Tree.recorded_members _ _ n hn p hp),
    Tree.node_id_ne_member _ _ n hn p hp⟩

/-- Sections of an item come from its primary placement. -/
theorem filter_section {n : Node} (hn : n ∈ s.tree.modules) {q : Placement}
    (hq : q ∈ n.members) (id : Id) : (s.placementMarks q).filter (Note.isSectionOf id) =
      if s.tree.placements.isPrimary q = true ∧ q.itemId = id then
        [.section_ id (s.layout.anchorFor id)] else [] := by
  obtain ⟨x, hx⟩ := known_member (h.grown n hn) hq
  cases hprim : s.tree.placements.isPrimary q with
  | true =>
    rw [filter_placementMarks_of_isPrimary (fun _ _ => rfl) hprim hx]
    by_cases hid : q.itemId = id <;> simp [Note.isSectionOf, hid]
  | false =>
    rw [filter_placementMarks_of_not_isPrimary hprim]
    simp [Note.isSectionOf]

/-- Entries of a placement come from this one placement. -/
theorem filter_entry {n : Node} (hn : n ∈ s.tree.modules) {q : Placement}
    (hq : q ∈ n.members) (p : Placement) : (s.placementMarks q).filter (Note.isEntryOf p) =
      if s.tree.placements.isPrimary q = false ∧ q = p then
        [.entry p (s.hrefOf p.itemId)] else [] := by
  obtain ⟨x, hx⟩ := known_member (h.grown n hn) hq
  cases hprim : s.tree.placements.isPrimary q with
  | true =>
    rw [filter_placementMarks_of_isPrimary (fun _ _ => rfl) hprim hx]
    simp [Note.isEntryOf]
  | false =>
    rw [filter_placementMarks_of_not_isPrimary hprim]
    by_cases hqp : q = p <;> simp [Note.isEntryOf, hqp]

/-- The marks of all pages are those of what they account for. -/
theorem perm_filter_marks (keep : Note → Bool) :
    ((s.layout.files.flatMap fun plan => s.pageMarks plan.page).filter keep).Perm
      ((s.layout.files.flatMap fun plan =>
        placementsOn s.tree s.options.mode plan.page).flatMap fun p =>
          (s.placementMarks p).filter keep) := by
  have hpages : (s.layout.files.flatMap fun plan => s.pageMarks plan.page).Perm
      (s.layout.files.flatMap fun plan =>
        (placementsOn s.tree s.options.mode plan.page).flatMap s.placementMarks) :=
    List.Perm.flatMap_left _ fun plan hplan => h.perm_pageMarks hplan
  rw [← List.flatMap_assoc] at hpages
  rw [← List.filter_flatMap]
  exact hpages.filter keep

/-- The sections of an item among the marks of all pages. -/
theorem filter_section_marks {id : Id} (hid : s.Placed id) :
    (s.layout.files.flatMap fun plan => s.pageMarks plan.page).filter (Note.isSectionOf id) =
      [.section_ id (s.layout.anchorFor id)] := by
  obtain ⟨p, hp, hprim⟩ := h.exists_primary hid
  obtain ⟨hpid, n, hn, hpn⟩ := h.exists_member hid hp
  obtain ⟨plan, hplan, hpon⟩ := h.exists_file hn hpn (.inl hprim)
  have hmem : p ∈ s.layout.files.flatMap fun plan =>
      placementsOn s.tree s.options.mode plan.page := List.mem_flatMap.2 ⟨plan, hplan, hpon⟩
  have hone := flatMap_eq_of_nodup h.nodup_placementsOn hmem
    (f := fun q => (s.placementMarks q).filter (Note.isSectionOf id)) fun q hq hne => by
      obtain ⟨other, hother, hq⟩ := List.mem_flatMap.1 hq
      obtain ⟨m, hm, hqm⟩ := h.exists_node hother hq
      rw [h.filter_section hm hqm, if_neg]
      rintro ⟨hqprim, hqid⟩
      exact hne (PlacementMap.eq_of_isPrimary hqprim hprim (hqid.trans hpid.symm))
  have hperm := h.perm_filter_marks (Note.isSectionOf id)
  rw [hone, h.filter_section hn hpn, if_pos ⟨hprim, hpid⟩] at hperm
  exact List.perm_singleton.1 hperm

theorem filter_section_marks_of_not_placed {id : Id} (hid : ¬ s.Placed id) :
    (s.layout.files.flatMap fun plan => s.pageMarks plan.page).filter (Note.isSectionOf id) =
      [] := by
  refine List.Perm.eq_nil ((h.perm_filter_marks _).trans (.of_eq ?_))
  rw [List.flatMap_eq_nil_iff]
  intro q hq
  obtain ⟨plan, hplan, hq⟩ := List.mem_flatMap.1 hq
  obtain ⟨n, hn, hqn⟩ := h.exists_node hplan hq
  rw [h.filter_section hn hqn, if_neg]
  rintro ⟨-, hqid⟩
  exact hid (hqid ▸ h.placed_of_member hn hqn)

/-- In a run, the sections of an item come first to last as planned. -/
theorem sections_prefix (id : Id) : s.documents.notes.filter (Note.isSectionOf id) <+:
    (s.layout.files.flatMap fun plan => s.pageMarks plan.page).filter
      (Note.isSectionOf id) := by
  have hsub : s.documents.notes.filter (Note.isSectionOf id) =
      (s.documents.notes.filter Note.isMark).filter (Note.isSectionOf id) := by
    rw [List.filter_filter]
    refine List.filter_congr fun n _ => ?_
    cases n <;> simp [Note.isSectionOf, Note.isMark]
  rw [hsub]
  exact h.leaves_documents.first.filter _

theorem hrefOf_of_member {n : Node} (hn : n ∈ s.tree.modules) {p : Placement}
    (hp : p ∈ n.members) {href : String} (hhref : s.layout.hrefFor p.itemId = some href) :
    s.hrefOf p.itemId = some href := by
  obtain ⟨x, hx⟩ := known_member (h.grown n hn) hp
  rw [h.sound.hrefOf_eq]
  simp [resolve, locate, hx, hhref, Target.href?]

end Planned

end Site

end CrateBook
