import CrateBook.Proofs.NodeRuns
import CrateBook.Proofs.Offers

/-!
# The members of a node

The members of a node are the items that its module offers there, each under its name and
once. A run takes no other members; and an item that is offered has a placement below the
node's path, which in the finished tree can only be that of a member of this node.
-/
namespace CrateBook.Tree

/-- The nodes of a tree show what their modules offer, past the modules above them. -/
structure ShowsOffers (x : Export) (includePrivate : Bool) (t : Tree) : Prop where
  descends : ∀ n, n ∈ t.modules ↔ ∃ ids, t.root.Lineage ids n
  once : ∀ n ∈ t.modules, (n.members.map Placement.key).Nodup
  members : ∀ n ids, t.root.Lineage ids n → ∀ id path,
    (id, path) ∈ n.members.map Placement.key ↔ ∃ name, name ≠ "" ∧ path = n.path ++ [name] ∧
      ∃ y, x.IsPlaceable includePrivate id y ∧ x.Offers includePrivate ids n.id id y name

section

variable {x : Export} {includePrivate : Bool} {ids : List Id} {n : Node} {id : Id}
  {name : String}

theorem ne_nil_of_module (hn : n ∈ (ofExport x includePrivate).modules) : n.path ≠ [] :=
  fun hnil => by simpa [hnil] using prefix_module_path x includePrivate n hn

/-- An item with a placement right below a node is a member of the node. -/
theorem mem_members_of_holds (hn : n ∈ (ofExport x includePrivate).modules) {y : Item}
    (hy : x.IsPlaceable includePrivate id y)
    (h : (ofExport x includePrivate).placements.holds id (n.path ++ [name]) = true) :
    (id, n.path ++ [name]) ∈ n.members.map Placement.key := by
  have hgrown := grown_modules x includePrivate
  obtain ⟨m, hm, hkey⟩ := List.mem_flatMap.1 ((holds_ofExport x includePrivate).1 h)
  rcases List.mem_cons.1 hkey with hnode | hmember
  · -- the path is too long for the root, and other nodes are modules
    obtain ⟨hid, hpath⟩ := Prod.mk.inj hnode
    rcases Node.eq_root_or_known hgrown m hm with rfl | ⟨z, hz, hmod⟩
    · rw [path_root] at hpath
      have hlen := congrArg List.length hpath
      have hpos := List.length_pos_iff.2 (ne_nil_of_module hn)
      simp only [List.length_append, List.length_singleton] at hlen
      omega
    · rw [← hid, hy.known] at hz
      obtain rfl := Option.some.inj hz
      rw [hy.noModule] at hmod
      exact absurd hmod (by decide)
  · obtain ⟨p, hp, hpkey⟩ := List.mem_map.1 hmember
    obtain ⟨nm, -, hpath⟩ := (hgrown m hm).members_named p hp
    have hparent : m.path ++ [nm] = n.path ++ [name] := hpath.symm.trans (Prod.mk.inj hpkey).2
    have hnm : m = n := List.inj_on_of_nodup_map (nodup_module_paths x includePrivate) hm hn
      (List.append_inj' hparent rfl).1
    exact hnm ▸ hmember

/-- What a node shows is what its module offers. -/
theorem key_mem_members_iff (h : (ofExport x includePrivate).root.Lineage ids n)
    {path : List String} : (id, path) ∈ n.members.map Placement.key ↔
      ∃ name, name ≠ "" ∧ path = n.path ++ [name] ∧
        ∃ y, x.IsPlaceable includePrivate id y ∧ x.Offers includePrivate ids n.id id y name := by
  have hgrown := grownBy_lineage x includePrivate h
  have hn : n ∈ (ofExport x includePrivate).modules := h.mem_walk
  obtain ⟨hg, hall, -⟩ := hgrown
  next nid npath before g =>
  have hrun : Progress npath (candidates x includePrivate ids nid) { placements := before } g :=
    hg ▸ progress_place ids npath _ _
  constructor
  · intro hmem
    obtain ⟨p, hp, hkey⟩ := List.mem_map.1 hmem
    obtain ⟨rfl, rfl⟩ := Prod.mk.inj hkey
    rcases hrun.members p (List.mem_mergeSort.1 hp) with hnone | ⟨name, via, hcandidate, hpath⟩
    · exact absurd hnone List.not_mem_nil
    · obtain ⟨hne, hoffers⟩ := member_mem_candidates.1 ⟨via, hcandidate⟩
      exact ⟨name, hne, hpath, hoffers⟩
  · rintro ⟨name, hne, rfl, y, hy, hoffers⟩
    obtain ⟨via, hcandidate⟩ := member_mem_candidates.2 ⟨hne, y, hy, hoffers⟩
    exact mem_members_of_holds hn hy (hall _ _ (hrun.shown id name via hcandidate))

end

/-- Each node of a tree has the items that its module lists, re-exports or reaches by globs as
its members, each once and no other. -/
theorem showsOffers_ofExport (x : Export) (includePrivate : Bool) :
    ShowsOffers x includePrivate (ofExport x includePrivate) where
  descends := fun _ => Node.mem_walk_iff_lineage
  once := fun n hn => (grown_modules x includePrivate n hn).members_nodup
  members := fun _ _ h _ _ => key_mem_members_iff h

end CrateBook.Tree
