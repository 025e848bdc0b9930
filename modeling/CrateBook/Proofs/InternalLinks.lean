import CrateBook.Proofs.Anchored
import CrateBook.Proofs.Destinations

/-!
# Where internal links lead

An id with a place of its own leads there; any other id leads below the item on whose page
it is shown. The place of an item is an anchor of its page, unless the item is the root of a
package that is written as one page: there the anchor is planned but not written.
-/
namespace CrateBook.Site

/-- The fragment of a page that an id leads to: its own place, or the place below the item
that shows it. -/
inductive LeadsTo (s : Site) (id : Id) (plan : FilePlan PageKind) (a : String) : Prop
  | placed (hfile : s.layout.fileFor id = some plan) (ha : s.layout.anchorFor id = some a)
  | member {chain : List Id} {owner : Id} (hplace : s.layout.fileFor id = none)
      (hchain : s.ownerChain maxOwners [id] (s.source.owners.get? id) = some (chain, owner))
      (hshown : ∀ m ∈ chain, s.source.showsMember s.options.includePrivate m = true)
      (hfile : s.layout.fileFor owner = some plan)
      (ha : chain.foldl s.anchorBelow (s.layout.anchorFor owner) = some a)

section

variable {s : Site}

/-- A chain of members is made longer at its front. -/
theorem suffix_of_ownerChain {n : Nat} {chain chain' : List Id} {next : Option Id} {owner : Id}
    (h : s.ownerChain n chain next = some (chain', owner)) : chain <:+ chain' := by
  induction n generalizing chain next with
  | zero =>
    unfold ownerChain at h
    split at h
    · cases h
    · split at h
      · cases h
        exact List.suffix_rfl
      · cases h
  | succ n ih =>
    unfold ownerChain at h
    split at h
    · cases h
    · split at h
      · cases h
        exact List.suffix_rfl
      · exact (List.suffix_cons _ _).trans (ih h)

theorem ownerChain_ne_nil {n : Nat} {chain chain' : List Id} {next : Option Id} {owner : Id}
    (h : s.ownerChain n chain next = some (chain', owner)) (hchain : chain ≠ []) :
    chain' ≠ [] := by
  intro hnil
  have hsuffix := suffix_of_ownerChain h
  rw [hnil, List.suffix_nil] at hsuffix
  exact hchain hsuffix

theorem exists_anchorBelow {chain : List Id} (h : chain ≠ []) (anchor : Option String) :
    ∃ a, chain.foldl s.anchorBelow anchor = some a := by
  rcases List.eq_nil_or_concat chain with hnil | ⟨front, m, hconcat⟩
  · exact absurd hnil h
  · rw [hconcat, List.concat_eq_append, List.foldl_append]
    exact ⟨_, rfl⟩

theorem leadsTo_of_memberTarget {id : Id} {title href : String}
    (hplace : s.layout.fileFor id = none)
    (htarget : s.memberTarget id = some (.link .internal title href)) :
    ∃ plan a, s.LeadsTo id plan a ∧ href = s.layout.urlOf plan ++ "#" ++ a := by
  obtain ⟨⟨chain, owner⟩, hchain, htarget⟩ := Option.bind_eq_some_iff.1 htarget
  dsimp only at htarget
  split at htarget
  · next hshown =>
    obtain ⟨plan, hfile, htarget⟩ := Option.bind_eq_some_iff.1 htarget
    obtain ⟨a, ha⟩ := exists_anchorBelow (ownerChain_ne_nil hchain (List.cons_ne_nil _ _))
      (s.layout.anchorFor owner)
    rw [ha] at htarget
    cases htarget
    exact ⟨plan, a, .member hplace hchain (List.all_eq_true.1 hshown) hfile ha, rfl⟩
  · cases htarget

namespace Planned

variable (h : s.Planned)

include h

/-- An item with an anchor is linked by the fragment of its page. -/
theorem hrefFor_of_anchorFor {id : Id} {plan : FilePlan PageKind} {a : String}
    (hfile : s.layout.fileFor id = some plan) (ha : s.layout.anchorFor id = some a) :
    s.layout.hrefFor id = some (s.layout.urlOf plan ++ "#" ++ a) := by
  have hne : ¬ a.isEmpty = true := by simpa using (h.isAnchor_anchorFor ha).nonempty
  rw [Layout.hrefFor, hfile, Option.map_some, ha]
  dsimp only
  rw [if_neg hne]

/-- An internal link leads to a page, or to the fragment of a page that its id leads to. -/
theorem leadsTo_of_locate {id : Id} {title href : String}
    (hid : s.locate id = .target (.link .internal title href)) :
    (∃ plan, s.layout.fileFor id = some plan ∧ s.layout.anchorFor id = none ∧
        href = s.layout.urlOf plan) ∨
      ∃ plan a, s.LeadsTo id plan a ∧ href = s.layout.urlOf plan ++ "#" ++ a := by
  unfold locate at hid
  split at hid
  · split at hid
    · next hhref =>
      cases hid
      obtain ⟨plan, hfile, hhref⟩ := Option.map_eq_some_iff.1 hhref
      cases ha : s.layout.anchorFor id with
      | none =>
        rw [ha] at hhref
        exact .inl ⟨plan, hfile, rfl, hhref.symm⟩
      | some a =>
        rw [ha] at hhref
        have hne : ¬ a.isEmpty = true := by
          simpa using (h.isAnchor_anchorFor ha).nonempty
        dsimp only at hhref
        rw [if_neg hne] at hhref
        exact .inr ⟨plan, a, .placed hfile ha, hhref.symm⟩
    · next hhref =>
      have hplace : s.layout.fileFor id = none := Option.map_eq_none_iff.1 hhref
      cases hmember : s.memberTarget id with
      | none =>
        rw [hmember] at hid
        cases hid
      | some t =>
        rw [hmember] at hid
        cases hid
        exact .inr (leadsTo_of_memberTarget hplace hmember)
  · split at hid
    · next e _ =>
      exact absurd (Destination.target.inj hid) (externalTarget_ne_internal e title href)
    · cases hid

/-- A known id leads to each of its places. -/
theorem exists_locate {id : Id} {x : Item} (hx : s.source.items.get? id = some x) :
    (∀ plan, s.layout.fileFor id = some plan → s.layout.anchorFor id = none →
        ∃ title, s.locate id = .target (.link .internal title (s.layout.urlOf plan))) ∧
      ∀ plan a, s.LeadsTo id plan a → ∃ title,
        s.locate id = .target (.link .internal title (s.layout.urlOf plan ++ "#" ++ a)) := by
  constructor
  · intro plan hfile ha
    have hhref : s.layout.hrefFor id = some (s.layout.urlOf plan) := by
      rw [Layout.hrefFor, hfile, Option.map_some, ha]
    exact ⟨x.displayName, by simp only [locate, hx, hhref]⟩
  · intro plan a hleads
    cases hleads with
    | placed hfile ha =>
      have hhref := h.hrefFor_of_anchorFor hfile ha
      exact ⟨x.displayName, by simp only [locate, hx, hhref]⟩
    | @member chain owner hplace hchain hshown hfile ha =>
      have hhref : s.layout.hrefFor id = none := by rw [Layout.hrefFor, hplace, Option.map_none]
      have htarget : s.memberTarget id = some (.link .internal
          ("::".intercalate (s.nameOf owner :: chain.map s.nameOf))
          (s.layout.urlOf plan ++ "#" ++ a)) := by
        simpa [memberTarget, hchain, hfile, ha] using hshown
      refine ⟨"::".intercalate (s.nameOf owner :: chain.map s.nameOf), ?_⟩
      simp only [locate, hx, hhref, htarget, Option.getD_some]

theorem mem_files_of_leadsTo {id : Id} {plan : FilePlan PageKind} {a : String}
    (hleads : s.LeadsTo id plan a) : plan ∈ s.layout.files := by
  cases hleads with
  | placed hfile _ => exact h.mem_files_of_fileFor hfile
  | member _ _ _ hfile _ => exact h.mem_files_of_fileFor hfile

/-- Where items have no pages, each placed item leads to a fragment. -/
theorem exists_leadsTo (hmode : s.options.mode ≠ .item) {id : Id} (hid : s.Placed id) :
    ∃ plan a, s.LeadsTo id plan a := by
  obtain ⟨plan, p, hfile, -⟩ := h.exists_page hid
  have hfind := hfile
  rw [h.fileFor] at hfind
  obtain ⟨sheet, hfind, -⟩ := Option.map_eq_some_iff.1 hfind
  have hshows := List.find?_some hfind
  have hsheet := List.mem_of_find?_eq_some hfind
  have howns : (sheet.owns && sheet.plan.targetId == id) = false := by
    unfold sheets at hsheet
    cases hcases : s.options.mode with
    | single =>
      rw [hcases] at hsheet
      obtain rfl := List.mem_singleton.1 hsheet
      rfl
    | module =>
      rw [hcases] at hsheet
      obtain ⟨n, hn, rfl⟩ := List.mem_map.1 hsheet
      have hne : (n.id == id) = false := by simpa using hid.2 n hn
      rw [Layout.moduleSheet, Layout.modulePlan, hne, Bool.and_false]
    | item => exact absurd hcases hmode
  rw [Layout.Sheet.shows, howns, Bool.false_or, Table.contains] at hshows
  have hanchor : s.layout.anchorFor id ≠ none := by
    rw [h.anchorFor]
    intro hnone
    rw [List.findSome?_eq_none_iff.1 hnone sheet hsheet] at hshows
    cases hshows
  obtain ⟨a, ha⟩ := Option.ne_none_iff_exists'.1 hanchor
  exact ⟨plan, a, .placed hfile ha⟩

/-- Only placed items have anchors, and the modules on a page of the whole package. -/
theorem placed_or_node_of_anchorFor {id : Id} {a : String} (ha : s.layout.anchorFor id = some a) :
    s.Placed id ∨ s.options.mode = .single ∧
      ∃ n ∈ s.tree.modules, s.tree.isPrimaryNode n = true ∧ n.id = id := by
  have hmember {n : Node} (hn : n ∈ s.tree.modules)
      (hid : id ∈ (Layout.primaryMembers s.tree n).map (·.itemId)) : s.Placed id := by
    obtain ⟨p, hp, rfl⟩ := List.mem_map.1 hid
    exact h.placed_of_member hn (Layout.mem_primaryMembers.1 hp).1
  rw [h.anchorFor] at ha
  obtain ⟨sheet, hsheet, ha⟩ := List.exists_of_findSome?_eq_some ha
  have hkey : id ∈ sheet.anchors.keys := Table.mem_keys_iff.2 ⟨a, ha⟩
  unfold sheets at hsheet
  cases hmode : s.options.mode with
  | single =>
    rw [hmode] at hsheet
    obtain rfl := List.mem_singleton.1 hsheet
    have hids := Layout.mem_keys_namesOf.1 hkey
    rw [List.map_flatMap] at hids
    obtain ⟨n, hn, hids⟩ := List.mem_flatMap.1 hids
    rcases Layout.mem_ids_documentRequests.1 hids with ⟨hself, rfl⟩ | hids
    · exact .inr ⟨rfl, n, hn, hself, rfl⟩
    · exact .inl (hmember hn hids)
  | module =>
    rw [hmode] at hsheet
    obtain ⟨n, hn, rfl⟩ := List.mem_map.1 hsheet
    have hids := Layout.mem_keys_namesOf.1 hkey
    rw [Layout.ids_moduleRequests] at hids
    exact .inl (hmember hn hids)
  | item =>
    rw [hmode] at hsheet
    rw [Layout.anchors_item hsheet] at ha
    cases ha

/-- What has an anchor has a page. -/
theorem fileFor_ne_none_of_anchorFor {id : Id} {a : String}
    (ha : s.layout.anchorFor id = some a) : s.layout.fileFor id ≠ none := by
  rw [h.anchorFor] at ha
  obtain ⟨sheet, hsheet, ha⟩ := List.exists_of_findSome?_eq_some ha
  have hshows : sheet.shows id = true := by simp [Layout.Sheet.shows, Table.contains, ha]
  intro hnone
  rw [h.fileFor, Option.map_eq_none_iff, List.find?_eq_none] at hnone
  exact hnone sheet hsheet hshows

/-- Only placed items have a page, and modules. -/
theorem placed_or_node_of_fileFor {id : Id} (hfile : s.layout.fileFor id ≠ none) :
    s.Placed id ∨ ∃ n ∈ s.tree.modules, n.id = id := by
  by_cases hnode : ∃ n ∈ s.tree.modules, n.id = id
  · exact .inr hnode
  · refine .inl ?_
    obtain ⟨plan, hplan⟩ := Option.ne_none_iff_exists'.1 hfile
    rw [h.fileFor] at hplan
    obtain ⟨sheet, hfind, -⟩ := Option.map_eq_some_iff.1 hplan
    have hsheet := List.mem_of_find?_eq_some hfind
    have hshows := List.find?_some hfind
    have hnone : ∀ n ∈ s.tree.modules, n.id ≠ id := fun n hn hid => hnode ⟨n, hn, hid⟩
    obtain ⟨p, hp, -, rfl⟩ := (Layout.shows_iff hsheet hnone).1 hshows
    have hplan : sheet.plan ∈ s.layout.files := by
      rw [h.files]
      exact List.mem_map_of_mem hsheet
    obtain ⟨n, hn, hpn⟩ := h.exists_node hplan hp
    exact h.placed_of_member hn hpn

/-- An item of a kind that is never placed has no page, unless it is the root. -/
theorem fileFor_eq_none {id : Id} {y : Item} (hy : s.source.items.get? id = some y)
    (hmodule : y.payload.isModule = false) (hkind : Tree.neverPlaced.contains y.kind = true)
    (hroot : id ≠ s.source.package.rootId) : s.layout.fileFor id = none := by
  by_contra hfile
  rcases h.placed_or_node_of_fileFor hfile with hplaced | ⟨n, hn, rfl⟩
  · obtain ⟨p, hp, -⟩ := h.exists_primary hplaced
    obtain ⟨rfl, n, hn, hpn⟩ := h.exists_member hplaced hp
    obtain ⟨z, hz, -, hnever⟩ := (h.grown n hn).members_known p hpn
    obtain rfl := Option.some.inj (hy.symm.trans hz)
    rw [hkind] at hnever
    cases hnever
  · rcases Node.eq_root_or_known h.grown n hn with rfl | ⟨z, hz, hz'⟩
    · refine hroot ?_
      rw [h.tree]
      rfl
    · obtain rfl := Option.some.inj (hy.symm.trans hz)
      rw [hmodule] at hz'
      cases hz'

/-- The place of an item is an anchor of its page, unless it is the top of the page. -/
theorem anchored_of_anchorFor {id : Id} {plan : FilePlan PageKind} {a : String}
    (hfile : s.layout.fileFor id = some plan) (ha : s.layout.anchorFor id = some a)
    (hroot : s.options.mode = .single → id ≠ s.source.package.rootId) :
    s.Anchored plan.page id a := by
  rcases h.placed_or_node_of_anchorFor ha with hid | ⟨hmode, n, hn, hself, rfl⟩
  · obtain ⟨plan', p, hfile', hp, hprim, rfl⟩ := h.exists_page hid
    obtain rfl := Option.some.inj (hfile.symm.trans hfile')
    exact .item hp hprim ha
  · have hmodules : s.tree.modules = s.tree.root :: s.tree.modules.tail := by
      rw [Tree.modules, Node.walk_eq_cons, List.tail_cons]
    have hne : n ≠ s.tree.root := by
      rintro rfl
      refine hroot hmode ?_
      rw [h.tree]
      rfl
    rw [hmodules] at hn
    have hn := (List.mem_cons.1 hn).resolve_left hne
    have hplan := h.mem_files_of_fileFor hfile
    rw [h.files, sheets, hmode] at hplan
    obtain rfl := List.mem_singleton.1 hplan
    exact .module rfl hn hself ha

end Planned

end

end CrateBook.Site
