import CrateBook.Proofs.Members
import CrateBook.Proofs.Sites

/-!
# Swapping an item that is not public

While private items are left out, an item that is not public is no candidate of any module:
modules do not list it, and no chain or glob leads to it. If it lists nothing either, it can
be swapped for another item of its kind, and the tree that grows is the same.
-/
namespace CrateBook

/-- Payloads of one kind, a kind that lists no other items. -/
inductive Payload.Alike : Payload → Payload → Prop
  | structField (t u : Value) : Alike (.structField t) (.structField u)
  | function (b c : FunctionBody) : Alike (.function b) (.function c)
  | typeAlias (b c : AliasBody) : Alike (.typeAlias b) (.typeAlias c)
  | constant (b c : ConstantBody) : Alike (.constant b) (.constant c)
  | static (b c : StaticBody) : Alike (.static b) (.static c)
  | macroRules (s t : String) : Alike (.macroRules s) (.macroRules t)
  | procMacro (b c : ProcMacroBody) : Alike (.procMacro b) (.procMacro c)
  | assocConst (b c : AssocConstBody) : Alike (.assocConst b) (.assocConst c)
  | assocType (b c : AssocTypeBody) : Alike (.assocType b) (.assocType c)

/-- Items of one id, kind and visibility that may differ in everything else. -/
structure Item.Alike (y z : Item) : Prop where
  id : z.id = y.id
  kind : z.kind = y.kind
  visibility : z.visibility = y.visibility
  payload : y.payload.Alike z.payload

namespace Export

/-- An export with an item in the place of the one that has its id. -/
def replace (x : Export) (z : Item) : Export := { x with items := x.items.insert z }

/-- An item that is not public, and one to put in its place. -/
structure Swap (x : Export) (y z : Item) : Prop where
  held : x.items.get? y.id = some y
  alike : y.Alike z
  visibility : y.visibility.isPublic = false

namespace Swap

variable {x : Export} {y z : Item} (h : x.Swap y z)

include h

/-- A look-up gives what it gave before, or the two items. -/
theorem get?_cases (id : Id) :
    id ≠ y.id ∧ (x.replace z).items.get? id = x.items.get? id ∨
      id = y.id ∧ x.items.get? id = some y ∧ (x.replace z).items.get? id = some z := by
  have hget : (x.replace z).items.get? id = if id = z.id then some z else x.items.get? id :=
    Items.get?_insert x.items z id
  rw [h.alike.id] at hget
  by_cases hid : id = y.id
  · exact .inr ⟨hid, hid ▸ h.held, by rw [hget, if_pos hid]⟩
  · exact .inl ⟨hid, by rw [hget, if_neg hid]⟩

/-- Replacing an item changes no other one. -/
theorem get?_of_ne {id : Id} (hid : id ≠ y.id) :
    (x.replace z).items.get? id = x.items.get? id :=
  ((h.get?_cases id).resolve_right fun hy => hid hy.1).2

theorem get?_self : (x.replace z).items.get? y.id = some z :=
  ((h.get?_cases y.id).resolve_left fun hne => hne.1 rfl).2.2

theorem payload?_cases (id : Id) :
    id ≠ y.id ∧ (x.replace z).items.payload? id = x.items.payload? id ∨
      id = y.id ∧ ∃ p q, p.Alike q ∧ x.items.payload? id = some p ∧
        (x.replace z).items.payload? id = some q := by
  refine (h.get?_cases id).imp (fun ⟨hid, hget⟩ => ⟨hid, ?_⟩) fun ⟨hid, hy, hz⟩ =>
    ⟨hid, y.payload, z.payload, h.alike.payload, ?_, ?_⟩
  · rw [Items.payload?, hget, Items.payload?]
  · rw [Items.payload?, hy, Option.map_some]
  · rw [Items.payload?, hz, Option.map_some]

theorem contains_replace (id : Id) :
    (x.replace z).items.contains id = x.items.contains id := by
  unfold Items.contains
  rcases h.get?_cases id with ⟨-, hget⟩ | ⟨-, hy, hz⟩
  · rw [hget]
  · rw [hy, hz]
    rfl

theorem kindOf_replace (id : Id) : Layout.kindOf (x.replace z) id = Layout.kindOf x id := by
  unfold Layout.kindOf
  rcases h.get?_cases id with ⟨-, hget⟩ | ⟨-, hy, hz⟩
  · rw [hget]
  · rw [hy, hz]
    exact h.alike.kind

/-- What is taken from all items stays if the two items give the same. -/
theorem filterMap_entries {β : Type} {f : Id × Item → Option β} (hf : f (y.id, z) = f (y.id, y)) :
    (x.replace z).items.table.entries.filterMap f = x.items.table.entries.filterMap f := by
  have hentries : (x.replace z).items.table.entries =
      setEntry y.id z x.items.table.entries := by
    rw [← h.alike.id]
    rfl
  rw [hentries]
  exact filterMap_setEntry h.held hf

theorem ids_replace : (x.replace z).items.ids = x.items.ids := by
  have hkeys := h.filterMap_entries (f := fun e => some e.1) rfl
  have hmap (es : List (Id × Item)) : es.filterMap (fun e => some e.1) = es.map Prod.fst :=
    congrFun List.filterMap_eq_map' es
  rwa [hmap, hmap] at hkeys

theorem impls_replace : (x.replace z).impls = x.impls := by
  unfold impls Items.toList Table.values
  rw [List.filterMap_map, List.filterMap_map]
  refine h.filterMap_entries ?_
  have halike := h.alike.payload
  dsimp only [Function.comp_apply]
  generalize y.payload = p at halike
  generalize z.payload = q at halike
  cases halike <;> rfl

theorem checkImpls_replace : (x.replace z).checkImpls = x.checkImpls := by
  rw [checkImpls, h.impls_replace, checkImpls]

/-- Neither item is included. -/
theorem not_included : y.isIncluded false = false ∧ z.isIncluded false = false := by
  simp [Item.isIncluded, h.alike.visibility, h.visibility]

theorem ne_of_included {id : Id} {c : Item} (hc : x.items.get? id = some c)
    (hincluded : c.isIncluded false = true) : id ≠ y.id := by
  rintro rfl
  obtain rfl := Option.some.inj (h.held.symm.trans hc)
  rw [h.not_included.1] at hincluded
  exact absurd hincluded (by decide)

/-- An item of a kind that lists others is not swapped. -/
theorem ne_of_payload {id : Id} {c : Item} (hc : x.items.get? id = some c)
    (hkind : ∀ q, ¬ c.payload.Alike q) : id ≠ y.id := by
  rintro rfl
  obtain rfl := Option.some.inj (h.held.symm.trans hc)
  exact hkind _ h.alike.payload

end Swap

end Export

namespace Tree

variable {x : Export} {y z : Item} (h : x.Swap y z)

include h

theorem chainEnd_replace (n : Nat) (seen : List Id) (id : Id) :
    chainEnd (x.replace z).items n seen id = chainEnd x.items n seen id := by
  induction n generalizing seen id with
  | zero => rfl
  | succ n ih =>
    have hrest : chainEnd (x.replace z).items n = chainEnd x.items n :=
      funext fun seen => funext fun id => ih seen id
    unfold chainEnd
    rw [hrest]
    rcases h.payload?_cases id with ⟨-, hpayload⟩ | ⟨-, p, q, hpq, hp, hq⟩
    · rw [hpayload]
    · rw [hp, hq]
      cases hpq <;> rfl

theorem listGlobs_replace (stack seen ids : List Id) :
    listGlobs (x.replace z) false stack seen ids = listGlobs x false stack seen ids := by
  refine listGlobs_congr (fun id t => ?_) ?_ ?_ stack seen ids
  · -- neither of the two items is included, so neither is a glob
    unfold Export.IsGlobOf Export.IsUse
    rcases h.get?_cases id with ⟨-, hget⟩ | ⟨-, hy, hz⟩
    · rw [hget, h.contains_replace]
    · simp [hy, hz, h.not_included]
  · funext id
    unfold ownCandidates
    rcases h.get?_cases id with ⟨-, hget⟩ | ⟨-, hy, hz⟩
    · rw [hget]
    · simp [hy, hz, h.not_included]
  · funext m
    unfold Export.listed
    rcases h.payload?_cases m with ⟨-, hpayload⟩ | ⟨-, p, q, hpq, hp, hq⟩
    · rw [hpayload]
    · rw [hp, hq]
      cases hpq <;> rfl

theorem listGlob_replace (stack : List Id) (target : Id) :
    listGlob (x.replace z) false stack target = listGlob x false stack target := by
  unfold listGlob
  rcases h.payload?_cases target with ⟨-, hpayload⟩ | ⟨-, p, q, hpq, hp, hq⟩
  · simp only [hpayload, listGlobs_replace h]
  · rw [hp, hq]
    cases hpq <;> rfl

theorem listUse_replace (stack : List Id) (c : Item) (u : UseBody) :
    listUse (x.replace z) false stack c u = listUse x false stack c u := by
  unfold listUse
  cases u.target with
  | none => rfl
  | some target =>
    simp only [h.contains_replace, listGlob_replace h, chainEnd_replace h]
    cases chainEnd x.items maxChain [] target with
    | none => rfl
    | some last =>
      dsimp only
      rcases h.get?_cases last with ⟨-, hget⟩ | ⟨-, hy, hz⟩
      · rw [hget]
      · rw [hy, hz]
        simp only [h.not_included, Bool.false_eq_true, if_false]

theorem listChild_replace (stack : List Id) (id : Id) :
    listChild (x.replace z) false stack id = listChild x false stack id := by
  unfold listChild
  rcases h.get?_cases id with ⟨-, hget⟩ | ⟨-, hy, hz⟩
  · simp only [hget, listUse_replace h]
  · rw [hy, hz]
    simp only [h.not_included, Bool.false_eq_true, if_false]

theorem candidates_replace (stack : List Id) (id : Id) :
    candidates (x.replace z) false stack id = candidates x false stack id := by
  have hchild : listChild (x.replace z) false stack = listChild x false stack :=
    funext (listChild_replace h stack)
  unfold candidates
  rw [hchild]
  rcases h.payload?_cases id with ⟨-, hpayload⟩ | ⟨-, p, q, hpq, hp, hq⟩
  · rw [hpayload]
  · rw [hp, hq]
    cases hpq <;> rfl

/-- An item that is not public has no say in the tree. -/
theorem ofExport_replace : ofExport (x.replace z) false = ofExport x false := by
  have hids (id : Id) : id ∈ (x.replace z).items.ids ↔ id ∈ x.items.ids := by rw [h.ids_replace]
  exact ofExport_congr rfl hids (funext₂ (candidates_replace h))

section

variable {n : Node} (hn : n ∈ (ofExport x false).modules)

include hn

theorem ne_of_mem_members {p : Placement} (hp : p ∈ n.members) : p.itemId ≠ y.id := by
  obtain ⟨ids, hids⟩ := Node.mem_walk_iff_lineage.1 hn
  have hkey : (p.itemId, p.path) ∈ n.members.map Placement.key := List.mem_map_of_mem hp
  obtain ⟨name, -, -, c, hc, -⟩ := (key_mem_members_iff hids).1 hkey
  exact h.ne_of_included hc.known hc.included

theorem ne_of_mem_reexports {r : ReExport} (hr : r ∈ n.reexports) : r.itemId ≠ y.id := by
  obtain ⟨c, hc, u, hu⟩ := (grown_modules x false n hn).reexports_known r hr
  refine h.ne_of_payload hc fun q hq => ?_
  rw [hu] at hq
  cases hq

theorem ne_of_mem_modules (hroot : x.package.rootId ≠ y.id) : n.id ≠ y.id := by
  rcases Node.eq_root_or_known (grown_modules x false) n hn with rfl | ⟨c, hc, hmodule⟩
  · exact hroot
  · refine h.ne_of_payload hc fun q hq => ?_
    generalize c.payload = p at hq hmodule
    cases hq <;> cases hmodule

end

end Tree

namespace Layout

variable {x : Export} {y z : Item} (h : x.Swap y z)

include h

theorem needsOverview_replace {n : Node} (hn : n.id ≠ y.id) :
    needsOverview (x.replace z) n = needsOverview x n := by
  rw [needsOverview, h.get?_of_ne hn, needsOverview]

/-- An item that is not public has no say in the layout, unless it is the root. -/
theorem plan_replace (hroot : x.package.rootId ≠ y.id) (mode : Mode) (basePath : String) :
    Layout.plan (Tree.ofExport x false) (x.replace z) mode basePath =
      Layout.plan (Tree.ofExport x false) x mode basePath := by
  have hkind : kindOf (x.replace z) = kindOf x := funext h.kindOf_replace
  have hpackage : (x.replace z).package = x.package := rfl
  cases mode with
  | single =>
    have hrequests : documentRequests (Tree.ofExport x false) (x.replace z) =
        documentRequests (Tree.ofExport x false) x :=
      funext fun n => by rw [documentRequests, hkind, documentRequests]
    simp only [Layout.plan, planSingle, hpackage, hrequests]
  | module =>
    have hpage : planModulePage (Tree.ofExport x false) (x.replace z) =
        planModulePage (Tree.ofExport x false) x :=
      funext fun d => funext fun n => by rw [planModulePage, hkind, planModulePage]
    simp only [Layout.plan, planModules, hpackage, hpage]
  | item =>
    have hdirectory : planDirectory (Tree.ofExport x false) (x.replace z) =
        planDirectory (Tree.ofExport x false) x :=
      funext fun d => funext fun entry => by rw [planDirectory, hkind, planDirectory]
    have hoverviews : (Tree.ofExport x false).modules.filter (needsOverview (x.replace z)) =
        (Tree.ofExport x false).modules.filter (needsOverview x) :=
      List.filter_congr fun n hn =>
        needsOverview_replace h (Tree.ne_of_mem_modules h hn hroot)
    simp only [Layout.plan, planItems, planOverviews, hpackage, hdirectory, hoverviews]

end Layout

/-- A site with an item in the place of the one that has its id. -/
def Site.replace (s : Site) (z : Item) : Site := { s with source := s.source.replace z }

/-- Planning with the one item or the other makes the same tree and the same layout. -/
theorem Site.plan_replace {x : Export} {y z : Item} (h : x.Swap y z)
    (hroot : x.package.rootId ≠ y.id) {o : Options} (ho : o.includePrivate = false) :
    Site.plan (x.replace z) o = (Site.plan x o).map fun s => s.replace z := by
  unfold Site.plan
  rw [ho, Tree.ofExport_replace h]
  dsimp only
  rw [Layout.plan_replace h hroot, h.checkImpls_replace]
  cases Layout.plan (Tree.ofExport x false) x o.mode o.basePath with
  | error e => rfl
  | ok d =>
    cases x.checkImpls with
    | error e => rfl
    | ok u => rfl

end CrateBook
