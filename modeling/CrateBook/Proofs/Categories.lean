import CrateBook.Navigation.Site
import CrateBook.Proofs.Addresses
import CrateBook.Proofs.Destinations
import Mathlib.Data.List.Forall2

/-!
# Navigation in step with the documents

The navigation tree has one category for each node of the module tree, in the same shape. A
document is entered once, below the module that its page belongs to. The pages go by
different paths, so the file at a document's path is the file that the document was written
for, and no module has two overviews.
-/
namespace CrateBook

namespace PageKind

def isItem : PageKind → Bool
  | document _ => false
  | module _ => false
  | item _ => true

/-- The path of the module that a page belongs to. -/
def modulePath : PageKind → List String
  | document n => n.path
  | module n => n.path
  | item p => p.modulePath

end PageKind

namespace Document

/-- The document is the overview of the module at a path. -/
def isOverviewOf (path : List String) (d : Document) : Bool :=
  !d.plan.page.isItem && d.plan.page.modulePath == path

/-- The document is the page of an item of the module at a path. -/
def isItemOf (path : List String) (d : Document) : Bool :=
  d.plan.page.isItem && d.plan.page.modulePath == path

/-- The order of documents: by title in lower case, then by path. -/
def Before (a b : Document) : Prop :=
  Text.lower a.title < Text.lower b.title ∨
    Text.lower a.title = Text.lower b.title ∧ a.path < b.path

end Document

namespace Navigation

theorem walkAll_eq_flatMap (ns : List Navigation) : walkAll ns = ns.flatMap walk := by
  induction ns with
  | nil => rfl
  | cons n ns ih => rw [walkAll, ih, List.flatMap_cons]

theorem pages_category (label : String) (href : Option String) (collapsed : Bool)
    (path : List String) (entries : List Navigation) :
    (category label href collapsed path entries).pages = entries.flatMap pages := by
  have hself : (!(category label href collapsed path entries).isCategory) = false := rfl
  rw [pages, walk, List.filter_cons, hself, if_neg Bool.false_ne_true, walkAll_eq_flatMap,
    List.filter_flatMap]
  rfl

end Navigation

section

variable {a b c : Document}

theorem Site.entryLe_iff : Site.entryLe a b = true ↔ Text.lower a.title < Text.lower b.title ∨
    Text.lower a.title = Text.lower b.title ∧ a.path ≤ b.path := by
  simp [Site.entryLe]

theorem Site.entryLe_trans (a b c : Document) (hab : Site.entryLe a b = true)
    (hbc : Site.entryLe b c = true) : Site.entryLe a c = true := by
  rw [entryLe_iff] at hab hbc ⊢
  rcases hab with hab | ⟨hab, hpath⟩
  · rcases hbc with hbc | ⟨hbc, -⟩
    · exact .inl (String.lt_trans hab hbc)
    · exact .inl (hbc ▸ hab)
  · rcases hbc with hbc | ⟨hbc, hpath'⟩
    · exact .inl (hab ▸ hbc)
    · exact .inr ⟨hab.trans hbc, String.le_trans hpath hpath'⟩

theorem Site.entryLe_total (a b : Document) : (Site.entryLe a b || Site.entryLe b a) = true := by
  rw [Bool.or_eq_true, entryLe_iff, entryLe_iff]
  by_cases hlt : Text.lower a.title < Text.lower b.title
  · exact .inl (.inl hlt)
  · by_cases hgt : Text.lower b.title < Text.lower a.title
    · exact .inr (.inl hgt)
    · have heq : Text.lower a.title = Text.lower b.title :=
        String.le_antisymm (String.not_lt.1 hgt) (String.not_lt.1 hlt)
      exact (String.le_total a.path b.path).imp (fun h => .inr ⟨heq, h⟩)
        fun h => .inr ⟨heq.symm, h⟩

/-- Documents with different paths are never level. -/
theorem Document.before_of_entryLe (h : Site.entryLe a b = true) (hne : a.path ≠ b.path) :
    a.Before b := by
  refine (Site.entryLe_iff.1 h).imp_right fun ⟨htitle, hle⟩ => ⟨htitle, ?_⟩
  by_contra hlt
  exact hne (String.le_antisymm hle (String.not_lt.1 hlt))

end

namespace Site

section

variable (s : Site) (ds : List Document)

def docId (d : Document) : String :=
  s.source.package.name ++ "/" ++ Text.dropSuffix ".md" d.path

/-- The documents that belong to the module at a path. -/
def documentsOf (path : List String) : List Document :=
  ds.filter fun d => d.plan.page.modulePath == path

/-- The entry of a document among others: an overview goes by its title only where it is the
one document. -/
def entryOf (d : Document) : Navigation :=
  .page (if d.plan.page.isItem || ds.length ≤ 1 then d.title else "Overview")
    (s.layout.urlOf d.plan) (s.docId d)

/-- A category that stands for a node: first the overview of its module, if it has one, then
the categories of its children, then the documents of its items in order. -/
inductive Mirrors : Node → Navigation → Prop
  | category {n : Node} {overviews items : List Document} {below : List Navigation} :
      overviews = ds.filter (Document.isOverviewOf n.path) → overviews.length ≤ 1 →
      List.Forall₂ Mirrors n.children below →
      items.Perm (ds.filter (Document.isItemOf n.path)) → items.Pairwise Document.Before →
      Mirrors n (.category n.name (s.moduleLink n) s.options.navigationCollapsed n.path
        (overviews.map (s.entryOf ds) ++ below ++ items.map (s.entryOf ds)))

/-- What is promised about the navigation for some documents. -/
structure LockStep : Prop where
  mirrors : s.Mirrors ds s.tree.root (s.navigation ds)
  /-- Each document is entered once, and nothing else is. -/
  pages : (s.navigation ds).pages.Perm (ds.map (s.entryOf ds))
  docIds : (ds.map s.docId).Nodup
  homes : ∀ d ∈ ds, ∃ n ∈ s.tree.modules, d.plan.page.modulePath = n.path

end

theorem perm_documentsOf (ds : List Document) (path : List String) :
    (ds.filter (Document.isOverviewOf path) ++ ds.filter (Document.isItemOf path)).Perm
      (documentsOf ds path) := by
  have hoverviews : ds.filter (Document.isOverviewOf path) =
      (documentsOf ds path).filter fun d => !d.plan.page.isItem := by
    rw [documentsOf, List.filter_filter]
    rfl
  have hitems : ds.filter (Document.isItemOf path) =
      (documentsOf ds path).filter fun d => d.plan.page.isItem := by
    rw [documentsOf, List.filter_filter]
    rfl
  rw [hoverviews, hitems]
  exact List.perm_append_comm.trans (List.filter_append_perm _ _)

namespace Planned

variable {s : Site} (h : s.Planned) (hplain : Layout.PlainNames s.tree s.source)

include h

/-- The overview of a module stands at the module's file. -/
theorem path_of_overview {plan : FilePlan PageKind} (hplan : plan ∈ s.layout.files)
    (hitem : plan.page.isItem = false) : plan.path = Layout.moduleFile plan.page.modulePath := by
  rw [h.files] at hplan
  obtain ⟨sheet, hsheet, rfl⟩ := List.mem_map.1 hplan
  unfold sheets at hsheet
  cases hmode : s.options.mode with
  | single =>
    rw [hmode] at hsheet
    obtain rfl := List.mem_singleton.1 hsheet
    have hroot : s.tree.root.path = [s.source.package.name] := by
      rw [h.tree]
      exact Tree.path_root _ _
    simp only [Layout.packageSheet, PageKind.modulePath, hroot]
    rfl
  | module =>
    rw [hmode] at hsheet
    obtain ⟨n, -, rfl⟩ := List.mem_map.1 hsheet
    rfl
  | item =>
    rw [hmode] at hsheet
    rcases List.mem_append.1 hsheet with hsheet | hsheet
    · obtain ⟨n, -, rfl⟩ := List.mem_map.1 hsheet
      rfl
    · obtain ⟨entry, -, hsheet⟩ := List.mem_flatMap.1 hsheet
      obtain ⟨p, -, rfl⟩ := List.mem_map.1 hsheet
      cases hitem

/-- A page belongs to a module of the tree. -/
theorem exists_home {plan : FilePlan PageKind} (hplan : plan ∈ s.layout.files) :
    ∃ n ∈ s.tree.modules, plan.page.modulePath = n.path := by
  rcases h.page_cases hplan with ⟨-, hpage⟩ | ⟨n, hn, rfl⟩ | ⟨-, p, hpage⟩
  · exact ⟨s.tree.root, Node.self_mem_walk _, by rw [hpage, PageKind.modulePath]⟩
  · exact ⟨n, hn, rfl⟩
  · have hp : p ∈ Layout.placementsOn s.tree s.options.mode plan.page := by
      rw [hpage]
      exact List.mem_singleton.2 rfl
    obtain ⟨n, hn, hpn⟩ := h.exists_node hplan hp
    exact ⟨n, hn, by rw [hpage, PageKind.modulePath, (h.grown n hn).modulePath hpn]⟩

include hplain

/-- In each mode, all pages go by different paths. -/
theorem nodup_pagePaths : (s.layout.files.map fun plan => Layout.pagePath plan.path).Nodup := by
  rw [h.files, List.map_map]
  unfold sheets
  rw [h.tree] at hplain ⊢
  cases s.options.mode with
  | single => exact List.nodup_singleton _
  | module =>
    rw [Layout.sheets, List.map_map]
    refine (List.Nodup.of_map _ (Tree.nodup_module_paths _ _)).map_on fun m hm n hn heq => ?_
    refine hplain.directoryOf_inj hm hn ?_
    rw [← Layout.pagePath_moduleFile, ← Layout.pagePath_moduleFile]
    exact heq
  | item => exact hplain.nodup_pagePaths

theorem nodup_paths : (s.layout.files.map (·.path)).Nodup := by
  refine List.Nodup.of_map Layout.pagePath ?_
  rw [List.map_map]
  exact h.nodup_pagePaths hplain

/-- The file at the path of a planned file is this file. -/
theorem fileAt_path {plan : FilePlan PageKind} (hplan : plan ∈ s.layout.files) :
    s.layout.fileAt plan.path = some plan := by
  obtain ⟨other, hother⟩ : ∃ other, s.layout.fileAt plan.path = some other := by
    rw [h.files] at hplan
    obtain ⟨sheet, hsheet, rfl⟩ := List.mem_map.1 hplan
    have hsome : (s.layout.fileAt sheet.plan.path).isSome = true := by
      rw [h.layout, Layout.isSome_fileAt_sheets, Bool.or_eq_true]
      exact .inr (List.any_eq_true.2 ⟨sheet, hsheet, beq_self_eq_true _⟩)
    exact Option.isSome_iff_exists.1 hsome
  obtain ⟨hmem, hpath⟩ := h.mem_files_of_fileAt hother
  rw [hother, List.inj_on_of_nodup_map (h.nodup_paths hplain) hmem hplan hpath]

end Planned

section

variable {s : Site} (h : s.Planned) (hplain : Layout.PlainNames s.tree s.source)
  {ds : List Document} (hds : s.documents.result = .ok ds)

include hds

theorem mem_files_of_documents {d : Document} (hd : d ∈ ds) : d.plan ∈ s.layout.files :=
  plans_of_documents hds ▸ List.mem_map_of_mem hd

include h hplain

theorem planOf_eq {d : Document} (hd : d ∈ ds) : s.planOf d = some d.plan.page := by
  have hat := h.fileAt_path hplain (mem_files_of_documents hds hd)
  rw [planOf, Document.path, hat, Option.map_some]

theorem nodup_pagePaths_documents : (ds.map fun d => Layout.pagePath d.path).Nodup := by
  have hpaths := h.nodup_pagePaths hplain
  rw [← plans_of_documents hds, List.map_map] at hpaths
  exact hpaths

theorem nodup_document_paths : (ds.map Document.path).Nodup := by
  have hpaths := h.nodup_paths hplain
  rw [← plans_of_documents hds, List.map_map] at hpaths
  exact hpaths

theorem overview?_eq (path : List String) :
    s.overview? ds path = (ds.filter (Document.isOverviewOf path)).getLast? := by
  unfold overview?
  congr 1
  refine List.filter_congr fun d hd => ?_
  rw [planOf_eq h hplain hds hd, Document.isOverviewOf]
  cases d.plan.page <;> simp [PageKind.isItem, PageKind.modulePath]

theorem itemDocuments_eq (path : List String) :
    s.itemDocuments ds path = (ds.filter (Document.isItemOf path)).mergeSort entryLe := by
  unfold itemDocuments
  congr 1
  refine List.filter_congr fun d hd => ?_
  rw [planOf_eq h hplain hds hd, Document.isItemOf]
  cases d.plan.page <;> simp [PageKind.isItem, PageKind.modulePath]

/-- A module has one overview at most: all overviews of a module have one path. -/
theorem length_overviews_le (path : List String) :
    (ds.filter (Document.isOverviewOf path)).length ≤ 1 := by
  have hpath : ∀ d ∈ ds.filter (Document.isOverviewOf path),
      d.path = Layout.moduleFile path := by
    intro d hd
    obtain ⟨hd, hoverview⟩ := List.mem_filter.1 hd
    simp only [Document.isOverviewOf, Bool.and_eq_true, Bool.not_eq_true', beq_iff_eq]
      at hoverview
    rw [← hoverview.2]
    exact h.path_of_overview (mem_files_of_documents hds hd) hoverview.1
  have hnodup : ((ds.filter (Document.isOverviewOf path)).map Document.path).Nodup :=
    (nodup_document_paths h hplain hds).sublist (List.filter_sublist.map _)
  generalize ds.filter (Document.isOverviewOf path) = overviews at hpath hnodup
  rcases overviews with _ | ⟨d, _ | ⟨e, rest⟩⟩
  · exact Nat.zero_le 1
  · exact Nat.le_refl 1
  · have heq : d.path = e.path :=
      (hpath d List.mem_cons_self).trans (hpath e (List.mem_cons_of_mem d List.mem_cons_self)).symm
    exact absurd (heq ▸ List.mem_cons_self) (List.nodup_cons.1 hnodup).1

theorem overviewEntry_eq (path : List String) : s.overviewEntry ds path =
    (ds.filter (Document.isOverviewOf path)).map (s.entryOf ds) := by
  have hlength := length_overviews_le h hplain hds path
  have hentry : ∀ d ∈ ds.filter (Document.isOverviewOf path),
      s.pageEntry (if 1 < ds.length then "Overview" else d.title) d = s.entryOf ds d := by
    intro d hd
    have hitem : d.plan.page.isItem = false := by
      have hoverview := (List.mem_filter.1 hd).2
      simp only [Document.isOverviewOf, Bool.and_eq_true, Bool.not_eq_true'] at hoverview
      exact hoverview.1
    rw [entryOf, hitem, Bool.false_or, pageEntry, h.urlOf_eq]
    by_cases hmany : 1 < ds.length
    · rw [if_pos hmany, decide_eq_false (Nat.not_le.2 hmany), if_neg Bool.false_ne_true]
      rfl
    · rw [if_neg hmany, decide_eq_true (Nat.not_lt.1 hmany), if_pos rfl]
      rfl
  rw [overviewEntry, overview?_eq h hplain hds, ← List.map_congr_left hentry]
  generalize ds.filter (Document.isOverviewOf path) = overviews at hlength
  match overviews with
  | [] => rfl
  | [d] => rfl
  | d :: e :: rest => exact absurd hlength (by simp)

theorem itemEntries_eq (path : List String) :
    ((s.itemDocuments ds path).map fun d => s.pageEntry d.title d) =
      ((ds.filter (Document.isItemOf path)).mergeSort entryLe).map (s.entryOf ds) := by
  rw [itemDocuments_eq h hplain hds]
  refine List.map_congr_left fun d hd => ?_
  have hitem : d.plan.page.isItem = true := by
    have hitem := (List.mem_filter.1 (List.mem_mergeSort.1 hd)).2
    simp only [Document.isItemOf, Bool.and_eq_true] at hitem
    exact hitem.1
  rw [entryOf, hitem, Bool.true_or, if_pos rfl, pageEntry, h.urlOf_eq]
  rfl

/-- The item documents of a module come in order. -/
theorem pairwise_items (path : List String) :
    ((ds.filter (Document.isItemOf path)).mergeSort entryLe).Pairwise Document.Before := by
  have hsorted := List.pairwise_mergeSort entryLe_trans entryLe_total
    (ds.filter (Document.isItemOf path))
  have hperm := List.mergeSort_perm (ds.filter (Document.isItemOf path)) entryLe
  have hnodup : ((ds.filter (Document.isItemOf path)).map Document.path).Nodup :=
    (nodup_document_paths h hplain hds).sublist (List.filter_sublist.map _)
  have hpaths := List.pairwise_map.1 (((hperm.map Document.path).nodup_iff).2 hnodup)
  exact (hsorted.and hpaths).imp fun ⟨hle, hne⟩ => Document.before_of_entryLe hle hne

/-- The category of a node in terms of the documents of its module. -/
theorem category_eq (n : Node) : s.category ds n =
    .category n.name (s.moduleLink n) s.options.navigationCollapsed n.path
      ((ds.filter (Document.isOverviewOf n.path)).map (s.entryOf ds) ++
        n.children.map (s.category ds) ++
        ((ds.filter (Document.isItemOf n.path)).mergeSort entryLe).map (s.entryOf ds)) := by
  obtain ⟨id, path, children, members, reexports⟩ := n
  rw [category, s.categories_eq_map, overviewEntry_eq h hplain hds, itemEntries_eq h hplain hds]
  rfl

theorem mirrors_category (n : Node) : s.Mirrors ds n (s.category ds n) := by
  induction n using Node.induction_children with
  | h n ih =>
    rw [category_eq h hplain hds]
    refine .category rfl (length_overviews_le h hplain hds _) ?_ (List.mergeSort_perm _ _)
      (pairwise_items h hplain hds _)
    rw [List.forall₂_map_right_iff, List.forall₂_same]
    exact ih

/-- Below a category stand the documents of its module and of the modules below. -/
theorem perm_pages_category (n : Node) : (s.category ds n).pages.Perm
    (n.walk.flatMap fun m => (documentsOf ds m.path).map (s.entryOf ds)) := by
  induction n using Node.induction_children with
  | h n ih =>
    have hpages (own : List Document) :
        (own.map (s.entryOf ds)).flatMap Navigation.pages = own.map (s.entryOf ds) := by
      rw [List.flatMap_map]
      exact List.map_eq_flatMap.symm
    have hbelow : ((n.children.map (s.category ds)).flatMap Navigation.pages).Perm
        ((Node.walkAll n.children).flatMap fun m =>
          (documentsOf ds m.path).map (s.entryOf ds)) := by
      rw [List.flatMap_map, Node.walkAll_eq_flatMap, List.flatMap_assoc]
      exact List.Perm.flatMap_left _ ih
    have hitems := List.mergeSort_perm (ds.filter (Document.isItemOf n.path)) entryLe
    rw [category_eq h hplain hds, Navigation.pages_category, Node.walk_eq_cons, List.flatMap_cons,
      List.flatMap_append, List.flatMap_append, hpages, hpages, List.append_assoc]
    refine (((hbelow.append (hitems.map _)).trans List.perm_append_comm).append_left _).trans ?_
    rw [← List.append_assoc, ← List.map_append]
    exact ((perm_documentsOf ds n.path).map _).append_right _

/-- Each document is entered once. -/
theorem perm_pages_navigation : (s.navigation ds).pages.Perm (ds.map (s.entryOf ds)) := by
  have hhome : ∀ d ∈ ds, d.plan.page.modulePath ∈ s.tree.modules.map Node.path := by
    intro d hd
    obtain ⟨n, hn, hpath⟩ := h.exists_home (mem_files_of_documents hds hd)
    exact List.mem_map.2 ⟨n, hn, hpath.symm⟩
  have hpaths : (s.tree.modules.map Node.path).Nodup := by
    rw [h.tree]
    exact Tree.nodup_module_paths _ _
  have hgroups := (perm_flatMap_filter hpaths hhome).map (s.entryOf ds)
  rw [List.map_flatMap, List.flatMap_map] at hgroups
  exact (perm_pages_category h hplain hds s.tree.root).trans hgroups

theorem nodup_docIds : (ds.map s.docId).Nodup := by
  refine (List.pairwise_map.1 (nodup_pagePaths_documents h hplain hds)).map _ ?_
  intro a b hne heq
  refine hne ?_
  have hlist := congrArg String.toList heq
  simp only [docId, String.toList_append] at hlist
  have hdrop := String.toList_inj.1 (List.append_cancel_left hlist)
  rw [Layout.pagePath, hdrop, Layout.pagePath]

end

/-- The navigation of a site has a category for each module and an entry for each document,
in the order of the module tree. -/
theorem lockStep_of_plan {x : Export} {o : Options} {s : Site} (h : Site.plan x o = .ok s)
    (hplain : Layout.PlainNames s.tree x) {ds : List Document}
    (hds : s.documents.result = .ok ds) : s.source = x ∧ s.options = o ∧ s.LockStep ds := by
  obtain ⟨rfl, rfl, hplanned⟩ := planned_of_plan h
  exact ⟨rfl, rfl, {
    mirrors := mirrors_category hplanned hplain hds s.tree.root
    pages := perm_pages_navigation hplanned hplain hds
    docIds := nodup_docIds hplanned hplain hds
    homes := fun d hd => hplanned.exists_home (mem_files_of_documents hds hd) }⟩

/-- The navigation of a small crate with a page for each item. -/
theorem lockStep_of_plan_small : ∃ s ds, Site.plan smallExport { mode := .item } = .ok s ∧
    s.documents.result = .ok ds ∧ s.LockStep ds := by
  obtain ⟨s, hs⟩ := exists_plan_smallExport { mode := .item }
  obtain ⟨hsource, hoptions, hplanned⟩ := planned_of_plan hs
  obtain ⟨ds, hds⟩ := hplanned.leaves_documents.ends (writable_smallExport hsource)
  have hplain : Layout.PlainNames s.tree smallExport := by
    rw [hplanned.tree, hsource, hoptions]
    exact plainNames_smallExport
  exact ⟨s, ds, hs, hds, (lockStep_of_plan hs hplain hds).2.2⟩

end Site

end CrateBook
