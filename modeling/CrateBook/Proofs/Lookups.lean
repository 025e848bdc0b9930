import CrateBook.Proofs.InternalLinks

/-!
# Look-ups that find something

Pages are made with look-ups that have no way out: of the items of modules, members and
re-exports, of primary placements, of names that were given out, of the headings of groups. On a
planned site whose root is known each of them finds something, since a tree lists known items only,
whatever ids the export leaves dangling.
-/
namespace CrateBook

def Export.Knows (x : Export) (id : Id) : Prop := ∃ y, x.items.get? id = some y

/-- Look-ups without a way out find something: the items that a module may show, the items of nodes,
members and re-exports, the primary placements of members, the items of pages, the names that were
asked for, the headings of kinds, the items on the way from a member to its page, and the blocks of
types with their members. -/
structure Site.FindsAll (s : Site) : Prop where
  candidates : ∀ stack module,
    ∀ c ∈ Tree.candidates s.source s.options.includePrivate stack module, c.Known s.source
  nodes : ∀ n ∈ s.tree.modules, s.source.Knows n.id
  members : ∀ n ∈ s.tree.modules, ∀ p ∈ n.members, s.source.Knows p.itemId
  primaries : ∀ n ∈ s.tree.modules, ∀ p ∈ n.members,
    ∃ q, s.tree.placements.primary? p.itemId = some q
  reexports : ∀ n ∈ s.tree.modules, ∀ r ∈ n.reexports, s.source.Knows r.itemId
  pages : ∀ plan ∈ s.layout.files, plan.page = .document s.tree.root ∨
    (∃ n ∈ s.tree.modules, plan.page = .module n) ∨
    ∃ n ∈ s.tree.modules, ∃ p ∈ n.members, plan.page = .item p
  names : ∀ directory reserved requests names clashes,
    Layout.allocate directory reserved requests = .ok (names, clashes) →
    ∀ r ∈ requests, ∃ name, names.get? r.id = some name
  titles : ∀ kind, groupTitle kind ∈ groupOrder
  owners : ∀ id chain owner,
    s.ownerChain Site.maxOwners [id] (s.source.owners.get? id) = some (chain, owner) →
    s.source.Knows owner ∧ (chain.all (s.source.showsMember s.options.includePrivate) = true →
      ∀ m ∈ chain, s.source.Knows m)
  blocks : ∀ typeId, (∀ m ∈ (s.implsOf typeId).inherentMembers, s.source.Knows m) ∧
    ∀ t ∈ (s.implsOf typeId).traitImpls, s.source.Knows t.implId ∧
      ∀ m ∈ t.members, s.source.Knows m

namespace Export

variable {x : Export}

theorem knows_of_showsMember {includePrivate : Bool} {id : Id}
    (h : x.showsMember includePrivate id = true) : x.Knows id := by
  unfold showsMember at h
  split at h
  · cases h
  · next y hy => exact ⟨y, hy⟩

theorem knows_of_mem_implMembers {b : ImplBody} {m : Id} (h : m ∈ x.implMembers b) :
    x.Knows m := by
  have hpayload := (List.mem_filter.1 h).2
  unfold Items.payload? at hpayload
  cases hy : x.items.get? m with
  | none => simp [hy] at hpayload
  | some y => exact ⟨y, hy⟩

end Export

/-- Every request is given a name. -/
theorem Layout.exists_name_of_allocate {directory : String} {reserved : List String}
    {requests : List Request} {names : Table Id String} {clashes : List Collision}
    (h : allocate directory reserved requests = .ok (names, clashes)) {r : Request}
    (hr : r ∈ requests) : ∃ name, names.get? r.id = some name := by
  have hcontains : (namesOf reserved requests).contains r.id = true :=
    contains_namesOf.2 (List.mem_map_of_mem hr)
  rw [eq_namesOf_of_allocate h]
  exact Option.isSome_iff_exists.1 hcontains

namespace Site

variable {s : Site}

/-- A chain of owners ends at an item that has a page. -/
theorem fileFor_of_ownerChain {n : Nat} {chain chain' : List Id} {next : Option Id} {owner : Id}
    (h : s.ownerChain n chain next = some (chain', owner)) :
    s.layout.fileFor owner ≠ none := by
  induction n generalizing chain next with
  | zero =>
    unfold ownerChain at h
    split at h
    · cases h
    · split at h
      · next hfile =>
        cases h
        exact Option.ne_none_iff_isSome.2 hfile
      · cases h
  | succ n ih =>
    unfold ownerChain at h
    split at h
    · cases h
    · split at h
      · next hfile =>
        cases h
        exact Option.ne_none_iff_isSome.2 hfile
      · exact ih h

namespace Planned

variable (h : s.Planned) (hroot : s.source.Knows s.source.package.rootId)

include h

theorem exists_primary_of_member {n : Node} (hn : n ∈ s.tree.modules) {p : Placement}
    (hp : p ∈ n.members) : ∃ q, s.tree.placements.primary? p.itemId = some q := by
  rw [h.tree] at hn ⊢
  exact PlacementMap.exists_primary? (Tree.recorded_members _ _ n hn p hp)

include hroot in
/-- What has a page, or a place on one, is known. -/
theorem knows_of_fileFor {id : Id} (hfile : s.layout.fileFor id ≠ none) : s.source.Knows id := by
  rcases h.placed_or_node_of_fileFor hfile with hplaced | ⟨n, hn, rfl⟩
  · obtain ⟨p, hp, -⟩ := h.exists_primary hplaced
    obtain ⟨rfl, n, hn, hmem⟩ := h.exists_member hplaced hp
    exact known_member (h.grown n hn) hmem
  · exact h.known_node hn hroot

theorem page_of_file {plan : FilePlan PageKind} (hplan : plan ∈ s.layout.files) :
    plan.page = .document s.tree.root ∨ (∃ n ∈ s.tree.modules, plan.page = .module n) ∨
      ∃ n ∈ s.tree.modules, ∃ p ∈ n.members, plan.page = .item p := by
  rcases h.page_cases hplan with ⟨-, hpage⟩ | ⟨n, hn, rfl⟩ | ⟨hmode, p, hpage⟩
  · exact .inl hpage
  · exact .inr (.inl ⟨n, hn, rfl⟩)
  · have hp : p ∈ Layout.placementsOn s.tree s.options.mode plan.page := by
      rw [hpage, hmode]
      exact List.mem_singleton_self p
    obtain ⟨n, hn, hmem⟩ := h.exists_node hplan hp
    exact .inr (.inr ⟨n, hn, p, hmem, hpage⟩)

theorem knows_blocks (typeId : Id) :
    (∀ m ∈ (s.implsOf typeId).inherentMembers, s.source.Knows m) ∧
      ∀ t ∈ (s.implsOf typeId).traitImpls, s.source.Knows t.implId ∧
        ∀ m ∈ t.members, s.source.Knows m := by
  rw [h.sound.implsOf_eq]
  constructor
  · intro m hm
    obtain ⟨i, b, -, -, -, hm⟩ := Export.mem_inherentMembers.1 hm
    exact Export.knows_of_mem_implMembers hm
  · intro t ht
    obtain ⟨i, b, ⟨y, hy, -⟩, -, -, rfl⟩ := Export.mem_traitImpls.1 ht
    exact ⟨⟨y, hy⟩, fun m hm => Export.knows_of_mem_implMembers hm⟩

include hroot in
/-- On a planned site with a known root all look-ups find something. -/
theorem findsAll : s.FindsAll where
  candidates := Tree.known_candidates
  nodes n hn := h.known_node hn hroot
  members n hn p hp := known_member (h.grown n hn) hp
  primaries n hn p hp := h.exists_primary_of_member hn hp
  reexports n hn r hr := by
    obtain ⟨y, hy, -⟩ := (h.grown n hn).reexports_known r hr
    exact ⟨y, hy⟩
  pages plan hplan := h.page_of_file hplan
  names directory reserved requests names clashes hnames r hr :=
    Layout.exists_name_of_allocate hnames hr
  titles := groupTitle_mem
  owners id chain owner hchain :=
    ⟨h.knows_of_fileFor hroot (fileFor_of_ownerChain hchain), fun hall m hm =>
      Export.knows_of_showsMember (List.all_eq_true.1 hall m hm)⟩
  blocks := h.knows_blocks

end Planned

end Site

end CrateBook
