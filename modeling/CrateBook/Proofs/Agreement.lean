import CrateBook.Proofs.Offers
import CrateBook.Proofs.Tables
import CrateBook.Site

/-!
# Exports that agree

Two exports agree if all their look-ups find the same: the items, the owners and containers of
members, and what is told of other packages. They may hold this in any order. The module tree
and the layout read an export by look-ups only, so exports that agree have the same ones, and
they show the same members.
-/
namespace CrateBook

/-- Look-ups find the same in two exports. -/
structure Export.Agrees (x y : Export) : Prop where
  package : x.package = y.package
  items : x.items.get? = y.items.get?
  external : x.external.get? = y.external.get?
  owners : x.owners.get? = y.owners.get?
  containers : x.containers.get? = y.containers.get?

namespace Export

variable {x y : Export}

theorem Agrees.refl (x : Export) : x.Agrees x := ⟨rfl, rfl, rfl, rfl, rfl⟩

theorem Agrees.symm (h : x.Agrees y) : y.Agrees x :=
  ⟨h.package.symm, h.items.symm, h.external.symm, h.owners.symm, h.containers.symm⟩

namespace Agrees

variable (h : x.Agrees y)

include h

/-- Exports that agree find the same payloads. -/
theorem payload? : x.items.payload? = y.items.payload? := by
  funext id
  rw [Items.payload?, h.items, Items.payload?]

theorem contains : x.items.contains = y.items.contains := by
  funext id
  rw [Items.contains, h.items, Items.contains]

theorem mem_ids (id : Id) : id ∈ x.items.ids ↔ id ∈ y.items.ids := by
  have hget : x.items.table.get? id = y.items.table.get? id := congrFun h.items id
  rw [Items.ids, Items.ids, Table.mem_keys_iff, Table.mem_keys_iff, hget]

/-- Exports that agree find the same entries, their own and external ones. -/
theorem find? : x.find? = y.find? := by
  funext id
  rw [Export.find?, h.items, Export.find?]

theorem container? : x.container? = y.container? := by
  funext id
  rw [Export.container?, h.find?, h.containers, Export.container?]

/-- Exports that agree show the same members. -/
theorem showsMember : x.showsMember = y.showsMember := by
  funext includePrivate id
  rw [Export.showsMember, h.items, h.container?, Export.showsMember]

theorem kindOf : Layout.kindOf x = Layout.kindOf y := by
  funext id
  rw [Layout.kindOf, h.items, Layout.kindOf]

/-! ## Blocks -/

theorem traitPath : x.traitPath = y.traitPath := by
  funext b
  unfold Export.traitPath
  rw [h.external]

theorem traitName : x.traitName = y.traitName := by
  funext b
  rw [Export.traitName, h.traitPath, Export.traitName]

theorem isNoise : x.isNoise = y.isNoise := by
  funext noise b
  rw [Export.isNoise, h.traitName, Export.isNoise]

theorem implMembers : x.implMembers = y.implMembers := by
  funext b
  rw [Export.implMembers, h.payload?, Export.implMembers]

theorem traitImpl : x.traitImpl = y.traitImpl := by
  funext id b
  unfold Export.traitImpl defaultsOf
  rw [h.traitPath, h.implMembers, h.items]

theorem sortImpl : x.sortImpl = y.sortImpl := by
  funext noise g i
  unfold Export.sortImpl
  rw [h.isNoise, h.implMembers, h.traitImpl]

end Agrees

end Export

/-! ## The module tree -/

namespace Tree

variable {x y : Export} (h : x.Agrees y)

include h

theorem chainEnd_of_agrees (n : Nat) (seen : List Id) (id : Id) :
    chainEnd x.items n seen id = chainEnd y.items n seen id := by
  induction n generalizing seen id with
  | zero => rfl
  | succ n ih =>
    have hrest : chainEnd x.items n = chainEnd y.items n :=
      funext fun seen => funext fun id => ih seen id
    rw [chainEnd, chainEnd, hrest, h.payload?]

theorem listGlobs_of_agrees (includePrivate : Bool) (stack seen ids : List Id) :
    listGlobs x includePrivate stack seen ids = listGlobs y includePrivate stack seen ids := by
  refine listGlobs_congr (fun id t => ?_) ?_ ?_ stack seen ids
  · simp only [Export.IsGlobOf, Export.IsUse, h.items, h.contains]
  · funext id
    rw [ownCandidates, h.items, ownCandidates]
  · funext m
    rw [Export.listed, h.payload?, Export.listed]

theorem listUse_of_agrees : listUse x = listUse y := by
  have hglob : listGlob x = listGlob y := by
    funext includePrivate stack target
    unfold listGlob
    simp only [h.payload?, listGlobs_of_agrees h]
  have hend : chainEnd x.items = chainEnd y.items :=
    funext fun n => funext fun seen => funext fun id => chainEnd_of_agrees h n seen id
  funext includePrivate stack z u
  unfold listUse
  rw [h.contains, h.items, hglob, hend]

theorem candidates_of_agrees : candidates x = candidates y := by
  have hchild : listChild x = listChild y := by
    funext includePrivate stack id
    rw [listChild, h.items, listUse_of_agrees h, listChild]
  funext includePrivate stack id
  rw [candidates, h.payload?, hchild, candidates]

/-- Exports that agree have the same module tree. -/
theorem ofExport_of_agrees : ofExport x = ofExport y := by
  funext includePrivate
  exact ofExport_congr h.package h.mem_ids (congrFun (candidates_of_agrees h) includePrivate)

end Tree

/-! ## The layout -/

namespace Layout

variable {x y : Export} (h : x.Agrees y)

include h

/-- Exports that agree have the same layout of a tree. -/
theorem plan_of_agrees (t : Tree) : plan t x = plan t y := by
  funext mode basePath
  cases mode with
  | single =>
    have hrequests : documentRequests t x = documentRequests t y := by
      funext n
      rw [documentRequests, h.kindOf, documentRequests]
    simp only [plan, planSingle, h.package, hrequests]
  | module =>
    have hpage : planModulePage t x = planModulePage t y := by
      funext d n
      rw [planModulePage, h.kindOf, planModulePage]
    simp only [plan, planModules, h.package, hpage]
  | item =>
    have hdirectory : planDirectory t x = planDirectory t y := by
      funext d entry
      rw [planDirectory, h.kindOf, planDirectory]
    have hoverview : needsOverview x = needsOverview y := by
      funext n
      rw [needsOverview, h.items, needsOverview]
    simp only [plan, planItems, planOverviews, h.package, hdirectory, hoverview]

end Layout

/-! ## Where ids lead -/

/-- The same settings for links; versions may be listed in another order. -/
structure LinkSettings.Alike (l m : LinkSettings) : Prop where
  externalHost : l.externalHost = m.externalHost
  stdHost : l.stdHost = m.stdHost
  defaultVersion : l.defaultVersion = m.defaultVersion
  versions : ∀ package, l.versions.lookup package = m.versions.lookup package

/-- The same options; versions may be listed in another order. -/
structure Options.Alike (a b : Options) : Prop where
  includePrivate : a.includePrivate = b.includePrivate
  mode : a.mode = b.mode
  workspacePackages : a.workspacePackages = b.workspacePackages
  basePath : a.basePath = b.basePath
  navigationOutput : a.navigationOutput = b.navigationOutput
  navigationCollapsed : a.navigationCollapsed = b.navigationCollapsed
  links : a.links.Alike b.links
  noiseTraits : a.noiseTraits = b.noiseTraits
  configHash : a.configHash = b.configHash

theorem LinkSettings.Alike.refl (l : LinkSettings) : l.Alike l :=
  ⟨rfl, rfl, rfl, fun _ => rfl⟩

theorem Options.Alike.refl (a : Options) : a.Alike a :=
  ⟨rfl, rfl, rfl, rfl, rfl, rfl, .refl a.links, rfl, rfl⟩

/-- Two sites are planned in the same way for exports that agree; what they remember may
differ. -/
structure Site.SamePlan (s t : Site) : Prop where
  options : s.options.Alike t.options
  source : s.source.Agrees t.source
  tree : s.tree = t.tree
  layout : s.layout = t.layout
  collisions : s.collisions = t.collisions

theorem Site.samePlan_recalling (s : Site) (m : Memory) : (s.recalling m).SamePlan s :=
  ⟨.refl s.options, .refl s.source, rfl, rfl, rfl⟩

namespace Site.SamePlan

variable {s t : Site} (h : s.SamePlan t)

include h

theorem moduleLink : s.moduleLink = t.moduleLink := by
  funext n
  rw [Site.moduleLink, h.layout, h.tree, Site.moduleLink]

theorem externalTarget : s.externalTarget = t.externalTarget := by
  have hhost : s.hostUrl = t.hostUrl := by
    funext e
    simp only [hostUrl, h.options.links.externalHost, h.options.links.stdHost,
      h.options.links.defaultVersion, h.options.links.versions, h.source.package]
  have hsibling : s.siblingHref = t.siblingHref := by
    funext package e
    rw [siblingHref, h.options.basePath, h.options.mode, siblingHref]
  have hisSibling : s.isSibling = t.isSibling := by
    funext package
    rw [isSibling, h.options.workspacePackages, isSibling]
  funext e
  rw [Site.externalTarget, hhost, hsibling, hisSibling, Site.externalTarget]

theorem ownerChain (n : Nat) (chain : List Id) (owner : Option Id) :
    s.ownerChain n chain owner = t.ownerChain n chain owner := by
  induction n generalizing chain owner with
  | zero =>
    cases owner with
    | none => rfl
    | some owner => rw [Site.ownerChain, Site.ownerChain, h.layout]
  | succ n ih =>
    cases owner with
    | none => rfl
    | some owner =>
      have hrest : s.ownerChain n = t.ownerChain n := funext fun c => funext fun o => ih c o
      rw [Site.ownerChain, Site.ownerChain, hrest, h.layout, h.source.owners]

theorem nameOf : s.nameOf = t.nameOf := by
  funext id
  rw [Site.nameOf, h.source.items, Site.nameOf]

theorem scopeOf : s.scopeOf = t.scopeOf := by
  funext id
  rw [Site.scopeOf, h.source.container?, h.source.traitName, Site.scopeOf]

theorem anchorBelow : s.anchorBelow = t.anchorBelow := by
  funext anchor id
  rw [Site.anchorBelow, h.source.kindOf, h.nameOf, h.scopeOf, Site.anchorBelow]

theorem memberTarget : s.memberTarget = t.memberTarget := by
  have hchain : s.ownerChain = t.ownerChain :=
    funext fun n => funext fun chain => funext fun owner => h.ownerChain n chain owner
  funext id
  unfold Site.memberTarget
  rw [hchain, h.source.owners, h.source.showsMember, h.options.includePrivate, h.layout,
    h.anchorBelow, h.nameOf]

/-- Each id leads to the same place. -/
theorem locate : s.locate = t.locate := by
  funext id
  unfold Site.locate
  rw [h.source.items, h.source.external, h.layout, h.memberTarget, h.externalTarget]

/-- Sites that are planned in the same way resolve ids alike. -/
theorem resolve : s.resolve = t.resolve := by
  funext id title
  rw [Site.resolve, h.locate, Site.resolve]

end Site.SamePlan

end CrateBook
