import CrateBook.Proofs.Renderings
import CrateBook.Proofs.Sites

/-!
# Exports in another order

The items of an export may come in any order. Blocks are the only items that are taken in this
order, and those for a type are sorted by id before they are grouped. So two exports whose
look-ups find the same and whose blocks are the same have the same conversion, as long as the
keys by which blocks are sorted are distinct. The versions of packages, too, are only looked up.
-/
namespace CrateBook

namespace IdKey

theorem le_trans {a b c : IdKey} (hab : a.le b = true) (hbc : b.le c = true) : a.le c = true := by
  cases a <;> cases b <;> cases c <;> simp only [le, decide_eq_true_eq, Bool.false_eq_true] at *
  case number => omega
  case text => exact String.le_trans hab hbc

theorem le_total (a b : IdKey) : (a.le b || b.le a) = true := by
  cases a <;> cases b <;> simp only [le, Bool.or_eq_true, Bool.or_false, Bool.or_true]
  case number => simpa only [decide_eq_true_eq] using Int.le_total _ _
  case text => simpa only [decide_eq_true_eq] using String.le_total _ _

theorem le_antisymm {a b : IdKey} (hab : a.le b = true) (hba : b.le a = true) : a = b := by
  cases a <;> cases b <;> simp only [le, decide_eq_true_eq, Bool.false_eq_true] at hab hba
  case number => rw [Int.le_antisymm hab hba]
  case text => rw [String.le_antisymm hab hba]

end IdKey

/-- What is taken from a list comes in the order of the list. -/
theorem sublist_map_filterMap {α β γ : Type} {f : α → Option β} {g : β → γ} {k : α → γ}
    (hf : ∀ a b, f a = some b → g b = k a) (as : List α) :
    ((as.filterMap f).map g).Sublist (as.map k) := by
  induction as with
  | nil => exact .slnil
  | cons a as ih =>
    rw [List.map_cons]
    cases ha : f a with
    | none =>
      rw [List.filterMap_cons_none ha]
      exact ih.cons _
    | some b =>
      rw [List.filterMap_cons_some ha, List.map_cons, hf a b ha]
      exact ih.cons_cons _

/-- Sorting by ids leaves them in order. -/
theorem pairwise_sortById {α : Type} {id : α → Id} (as : List α) :
    (sortById id as).Pairwise fun a b => (id a).key.le (id b).key = true :=
  @List.pairwise_mergeSort α (fun a b => (id a).key.le (id b).key)
    (fun _ _ _ => IdKey.le_trans) (fun _ _ => IdKey.le_total _ _) as

/-- Sorting by ids with distinct keys forgets the order. -/
theorem sortById_eq_of_perm {α : Type} {id : α → Id} {as bs : List α} (h : as.Perm bs)
    (hkeys : (as.map fun a => (id a).key).Nodup) : sortById id as = sortById id bs := by
  have hperm : (sortById id as).Perm (sortById id bs) :=
    (List.mergeSort_perm as _).trans (h.trans (List.mergeSort_perm bs _).symm)
  refine List.Perm.eq_of_pairwise (fun a b ha hb hab hba => ?_) (pairwise_sortById as)
    (pairwise_sortById bs) hperm
  exact List.inj_on_of_nodup_map hkeys (List.mem_mergeSort.1 ha)
    (h.mem_iff.2 (List.mem_mergeSort.1 hb)) (IdKey.le_antisymm hab hba)

namespace Export

/-- Two exports hold the same in another order, and keys tell the blocks apart. -/
structure Reorders (x y : Export) : Prop extends Agrees x y where
  impls : x.impls.Perm y.impls
  keys : (x.impls.map fun i => i.1.key).Nodup

namespace Reorders

variable {x y : Export} (h : x.Reorders y)

include h

/-- The blocks of a type are sorted, so they come in one order. -/
theorem implsFor : x.implsFor = y.implsFor := by
  funext typeId
  refine sortById_eq_of_perm (h.impls.filter _) (h.keys.sublist ?_)
  exact List.filter_sublist.map _

/-- The blocks of a type are grouped in the same way. -/
theorem classify : x.classify = y.classify := by
  funext noise typeId
  rw [Export.classify, h.implsFor, h.sortImpl, Export.classify]

theorem checkImpls : x.checkImpls = y.checkImpls := by
  have hids := (h.impls.filter fun i => i.2.target?.isSome).map (·.1)
  unfold Export.checkImpls Id.checkKeys
  rw [hids.all_eq]

/-- Planning makes the same site for the one export and the other. -/
theorem plan (o : Options) :
    Site.plan y o = (Site.plan x o).map fun s => { s with source := y } := by
  simp only [Site.plan, ← Tree.ofExport_of_agrees h.toAgrees, ← Layout.plan_of_agrees h.toAgrees,
    ← h.checkImpls]
  cases Layout.plan (Tree.ofExport x o.includePrivate) x o.mode o.basePath with
  | error e => rfl
  | ok d =>
    cases x.checkImpls with
    | error e => rfl
    | ok u => rfl

end Reorders

end Export

/-- A site over an export in another order renders the same. -/
theorem Site.agrees_of_reorders {s : Site} {y : Export} (h : s.source.Reorders y) :
    s.Agrees { s with source := y } := by
  have hplan : s.SamePlan { s with source := y } :=
    ⟨.refl s.options, h.toAgrees, rfl, rfl, rfl⟩
  refine ⟨hplan, ?_, ?_⟩
  · funext id
    rw [hrefOf, targetOf, hplan.resolve, hrefOf, targetOf]
  · funext typeId
    rw [implsOf, h.classify, implsOf]

namespace Site.Agrees

variable {s t : Site} (h : s.Agrees t)

include h

/-- Sites that agree write the same documents. -/
theorem documents : s.documents = t.documents := by
  rw [Site.documents, h.layout, h.document, Site.documents]

/-- Sites that agree navigate documents in the same way. -/
theorem navigation : s.navigation = t.navigation := by
  have hentry : s.pageEntry = t.pageEntry := by
    funext label d
    rw [pageEntry, h.options.basePath, h.source.package, pageEntry]
  have hplan : s.planOf = t.planOf := by
    funext d
    rw [planOf, h.layout, planOf]
  have hoverview : s.overviewEntry = t.overviewEntry := by
    funext ds path
    rw [overviewEntry, overview?, hplan, hentry, overviewEntry, overview?]
  have hitems : s.itemDocuments = t.itemDocuments := by
    funext ds path
    rw [itemDocuments, hplan, itemDocuments]
  have hcategory (ds : List Document) (n : Node) : s.category ds n = t.category ds n := by
    induction n using Node.induction_children with
    | h n ih =>
      obtain ⟨id, path, children, members, reexports⟩ := n
      have hchildren : children.map (s.category ds) = children.map (t.category ds) :=
        List.map_congr_left ih
      rw [category, category, categories_eq_map, categories_eq_map, hchildren, h.moduleLink,
        h.options.navigationCollapsed, hoverview, hitems, hentry]
  funext ds
  rw [Site.navigation, hcategory, h.tree, Site.navigation]

/-- Sites that agree enter the same notes into a report. -/
theorem enterAll : s.enterAll = t.enterAll := by
  have henter : s.enter = t.enter := by
    funext r n
    cases n with
    | asked id title => simp only [enter, h.locate]
    | _ => rfl
  funext r notes
  rw [Site.enterAll, henter, Site.enterAll]

/-- Reports start alike on sites that agree. -/
theorem startReport : s.startReport = t.startReport := by
  rw [Site.startReport, h.options.configHash, h.source.package, h.collisions, Site.startReport]

end Site.Agrees

/-- What comes of a conversion: the package's name, its documents, its navigation with the
sidebars of its modules, and its report. -/
def Conversion.results (c : Conversion) :
    String × List Document × Navigation × Table String Navigation × Report :=
  (c.package, c.documents, c.navigation, c.sidebars, c.report)

/-- Where planning differs only by a change of the site that renders the same, conversions have
the same results. -/
theorem Export.results_of_plan {x y : Export} {a b : Options} {f : Site → Site}
    (hplan : Site.plan y b = (Site.plan x a).map f)
    (h : ∀ s, Site.plan x a = .ok s → s.Agrees (f s)) :
    (y.convert b).map Conversion.results = (x.convert a).map Conversion.results := by
  unfold Export.convert
  rw [hplan]
  cases hx : Site.plan x a with
  | error e => rfl
  | ok s =>
    have hs := h s hx
    have hbind (s : Site) (g : Site → Checked Conversion) : Except.ok s >>= g = g s := rfl
    have hmap : (Except.ok s : Checked Site).map f = .ok (f s) := rfl
    simp only [hmap, hbind, ← hs.documents, ← hs.navigation, ← hs.enterAll, ← hs.startReport]
    cases s.documents.result with
    | error e => rfl
    | ok ds =>
      refine congrArg Except.ok ?_
      simp only [Conversion.results, Conversion.package, Conversion.sidebars, hs.source.package]

/-- The conversion of an export in another order has the same results. -/
theorem Export.Reorders.results {x y : Export} (h : x.Reorders y) (o : Options) :
    (y.convert o).map Conversion.results = (x.convert o).map Conversion.results := by
  refine results_of_plan (h.plan o) fun s hs => ?_
  obtain ⟨rfl, rfl, -⟩ := Site.planned_of_plan hs
  exact Site.agrees_of_reorders h

/-! ## Options in another order -/

/-- Planning makes the same site with the one options and the other. -/
theorem Options.Alike.plan {a b : Options} (h : a.Alike b) (x : Export) :
    Site.plan x b = (Site.plan x a).map fun s => { s with options := b } := by
  simp only [Site.plan, h.includePrivate, h.mode, h.basePath]
  cases Layout.plan (Tree.ofExport x b.includePrivate) x b.mode b.basePath with
  | error e => rfl
  | ok d =>
    cases x.checkImpls with
    | error e => rfl
    | ok u => rfl

/-- A site with alike options renders the same. -/
theorem Site.agrees_of_alike {s : Site} {b : Options} (h : s.options.Alike b) :
    s.Agrees { s with options := b } := by
  have hplan : s.SamePlan { s with options := b } := ⟨h, .refl s.source, rfl, rfl, rfl⟩
  refine ⟨hplan, ?_, ?_⟩
  · funext id
    rw [hrefOf, targetOf, hplan.resolve, hrefOf, targetOf]
  · funext typeId
    rw [implsOf, h.noiseTraits, implsOf]

/-- The conversion with alike options has the same results. -/
theorem Options.Alike.results {a b : Options} (h : a.Alike b) (x : Export) :
    (x.convert b).map Conversion.results = (x.convert a).map Conversion.results := by
  refine Export.results_of_plan (h.plan x) fun s hs => ?_
  obtain ⟨-, rfl, -⟩ := Site.planned_of_plan hs
  exact Site.agrees_of_alike h

end CrateBook
