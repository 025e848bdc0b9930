import CrateBook.Proofs.Growth
import CrateBook.Proofs.Tables
import Mathlib.Data.List.Perm.Basic

/-!
# The placements of a tree, counted

A placement map lists an item under a path at most once, and so does a tree that has grown:
paths of nodes differ, a member's path is longer than that of its node, and no node is a
node of an item that is a member somewhere. So the pairs of items and paths in the map are
those of the nodes and members of the tree, each once.
-/
namespace CrateBook

namespace PlacementMap

def all (m : PlacementMap) : List Placement := m.byId.values.flatten

/-- The items of a map with their paths, one pair for each placement. -/
def keys (m : PlacementMap) : List (Id × List String) := m.all.map Placement.key

theorem mem_all {m : PlacementMap} {p : Placement} : p ∈ m.all ↔ ∃ id, p ∈ m.recorded id := by
  simp only [all, List.mem_flatten, Table.values, List.mem_map]
  constructor
  · rintro ⟨ps, ⟨⟨id, qs⟩, he, rfl⟩, hp⟩
    refine ⟨id, ?_⟩
    rw [recorded, Table.get?_eq_some_iff.2 he]
    exact hp
  · rintro ⟨id, hp⟩
    rw [recorded] at hp
    cases hget : m.byId.get? id with
    | none => simp [hget] at hp
    | some ps =>
      rw [hget] at hp
      exact ⟨ps, ⟨(id, ps), Table.get?_eq_some_iff.1 hget, rfl⟩, hp⟩

theorem Tidy.mem_keys {m : PlacementMap} (h : m.Tidy) {id : Id} {path : List String} :
    (id, path) ∈ m.keys ↔ m.holds id path = true := by
  rw [keys, List.mem_map, holds_iff]
  constructor
  · rintro ⟨p, hp, hkey⟩
    obtain ⟨i, hp⟩ := mem_all.1 hp
    obtain ⟨hid, hpath⟩ := Prod.mk.inj hkey
    obtain rfl : i = id := (h.keyed i p hp).symm.trans hid
    exact ⟨p, hp, hpath⟩
  · rintro ⟨p, hp, rfl⟩
    exact ⟨p, mem_all.2 ⟨id, hp⟩, by rw [Placement.key, h.keyed id p hp]⟩

/-- A tidy map has no two placements of one item and path. -/
theorem Tidy.nodup_keys {m : PlacementMap} (h : m.Tidy) : m.keys.Nodup := by
  have hrecorded : ∀ e ∈ m.byId.entries, m.recorded e.1 = e.2 := by
    intro e he
    rw [recorded, Table.get?_eq_some_iff.2 he]
    rfl
  have hkeys : m.keys = m.byId.entries.flatMap fun e => e.2.map Placement.key := by
    rw [keys, all, Table.values, ← List.flatMap_def, List.map_flatMap]
  rw [hkeys, List.nodup_flatMap]
  constructor
  · intro e he
    have hpaths : (e.2.map Placement.path).Nodup := hrecorded e he ▸ h.distinct e.1
    refine List.Nodup.of_map Prod.snd ?_
    rw [List.map_map]
    exact hpaths
  · refine (List.pairwise_map.1 m.byId.nodup).imp_of_mem ?_
    intro e f he hf hne k hke hkf
    obtain ⟨p, hp, rfl⟩ := List.mem_map.1 hke
    obtain ⟨q, hq, hkey⟩ := List.mem_map.1 hkf
    have hpid : p.itemId = e.1 := h.keyed _ p (by rwa [hrecorded e he])
    have hqid : q.itemId = f.1 := h.keyed _ q (by rwa [hrecorded f hf])
    exact hne (hpid.symm.trans ((Prod.mk.inj hkey).1.symm.trans hqid))

end PlacementMap

namespace Tree

/-- A tree whose paths tell its nodes and members apart, and whose map holds just these. -/
structure Agrees (t : Tree) : Prop where
  nodes : (t.modules.map Node.path).Nodup
  children : ∀ n ∈ t.modules, ∀ c ∈ n.children, ∃ name, c.path = n.path ++ [name]
  members : ∀ n ∈ t.modules, ∀ p ∈ n.members, ∃ name, p.path = n.path ++ [name]
  keyed : ∀ id, ∀ p ∈ t.placements.recorded id, p.itemId = id
  once : (t.modules.flatMap Node.keys).Nodup
  placements : t.placements.keys.Perm (t.modules.flatMap Node.keys)

section

variable (x : Export) (includePrivate : Bool)

/-- No item and path belong to two nodes or members of a tree. -/
theorem nodup_keys : ((ofExport x includePrivate).modules.flatMap Node.keys).Nodup := by
  have hgrown := grown_modules x includePrivate
  rw [List.nodup_flatMap]
  constructor
  · intro n hn
    refine List.nodup_cons.2 ⟨fun hself => ?_, (hgrown n hn).members_nodup⟩
    obtain ⟨p, hp, hkey⟩ := List.mem_map.1 hself
    exact node_id_ne_member x includePrivate n hn p hp n hn (Prod.mk.inj hkey).1.symm
  · refine (List.pairwise_map.1 (nodup_module_paths x includePrivate)).imp_of_mem ?_
    intro m n hm hn hne k hkm hkn
    rcases List.mem_cons.1 hkm with rfl | hkm
    · rcases List.mem_cons.1 hkn with hkey | hkn
      · exact hne (Prod.mk.inj hkey).2
      · obtain ⟨p, hp, hkey⟩ := List.mem_map.1 hkn
        exact node_id_ne_member x includePrivate n hn p hp m hm (Prod.mk.inj hkey).1.symm
    · obtain ⟨p, hp, rfl⟩ := List.mem_map.1 hkm
      rcases List.mem_cons.1 hkn with hkey | hkn
      · exact node_id_ne_member x includePrivate m hm p hp n hn (Prod.mk.inj hkey).1.symm
      · obtain ⟨q, hq, hkey⟩ := List.mem_map.1 hkn
        exact hne (Node.path_eq_of_members (hgrown m hm) (hgrown n hn) hp hq
          (Prod.mk.inj hkey).2.symm)

/-- The tree of an export and its placement map agree, whatever the export re-exports. -/
theorem agrees_ofExport : (ofExport x includePrivate).Agrees where
  nodes := nodup_module_paths x includePrivate
  children := by
    intro n hn c hc
    obtain ⟨name, -, hpath⟩ := (grown_modules x includePrivate n hn).children_named c hc
    exact ⟨name, hpath⟩
  members := by
    intro n hn p hp
    obtain ⟨name, -, hpath⟩ := (grown_modules x includePrivate n hn).members_named p hp
    exact ⟨name, hpath⟩
  keyed := (tidy_ofExport x includePrivate).keyed
  once := nodup_keys x includePrivate
  placements := by
    have htidy := tidy_ofExport x includePrivate
    refine (List.perm_ext_iff_of_nodup htidy.nodup_keys (nodup_keys x includePrivate)).2 ?_
    rintro ⟨id, path⟩
    rw [htidy.mem_keys, holds_ofExport]

end

end Tree

end CrateBook
