import CrateBook.Tree.Walk
import Mathlib.Data.List.Nodup

/-!
# Nodes of a grown tree

A node is grown if its members and children extend its path by one name each, no two of
them in the same way, and the export knows them. A tree whose nodes are all grown has one
node for a path: what stands below a child extends the child's path, and the paths of
children differ.
-/
namespace CrateBook

/-- The item and the path of a placement. -/
def Placement.key (p : Placement) : Id × List String := (p.itemId, p.path)

theorem nodup_map_push {α β : Type} {f : α → β} {l : List α} {a : α} (h : (l.map f).Nodup)
    (ha : f a ∉ l.map f) : ((l ++ [a]).map f).Nodup := by
  rw [List.map_append, List.map_singleton, ← List.concat_eq_append]
  exact h.concat ha

namespace Node

/-- What a node adds to a placement map: itself and its members. -/
def keys (n : Node) : List (Id × List String) := (n.id, n.path) :: n.members.map Placement.key

/-- A node as the walk over an export makes it. -/
structure Grown (x : Export) (n : Node) : Prop where
  members_named : ∀ p ∈ n.members, ∃ name, name ≠ "" ∧ p.path = n.path ++ [name]
  members_known : ∀ p ∈ n.members, ∃ y, x.items.get? p.itemId = some y ∧
    y.payload.isModule = false ∧ Tree.neverPlaced.contains y.kind = false
  members_nodup : (n.members.map Placement.key).Nodup
  children_named : ∀ c ∈ n.children, ∃ name, name ≠ "" ∧ c.path = n.path ++ [name]
  children_known : ∀ c ∈ n.children, ∃ y, x.items.get? c.id = some y ∧
    y.payload.isModule = true
  children_nodup : (n.children.map path).Nodup
  reexports_known : ∀ r ∈ n.reexports, ∃ y, x.items.get? r.itemId = some y ∧
    ∃ u, y.payload = .use u

section

variable {x : Export} {id : Id} {path : List String} {cs : List Node} {ms : List Placement}
  {rs : List ReExport} (h : (Node.mk id path cs ms rs).Grown x)

include h

/-- A node stays grown under a member that is new to it. -/
theorem Grown.push_member {p : Placement}
    (hnamed : ∃ name, name ≠ "" ∧ p.path = path ++ [name])
    (hknown : ∃ y, x.items.get? p.itemId = some y ∧
      y.payload.isModule = false ∧ Tree.neverPlaced.contains y.kind = false)
    (hnew : p.key ∉ ms.map Placement.key) : (Node.mk id path cs (ms ++ [p]) rs).Grown x where
  members_named := List.forall_mem_append.2 ⟨h.members_named, List.forall_mem_singleton.2 hnamed⟩
  members_known := List.forall_mem_append.2 ⟨h.members_known, List.forall_mem_singleton.2 hknown⟩
  members_nodup := nodup_map_push h.members_nodup hnew
  children_named := h.children_named
  children_known := h.children_known
  children_nodup := h.children_nodup
  reexports_known := h.reexports_known

/-- A node stays grown under a child of a new path. -/
theorem Grown.push_child {c : Node} (hnamed : ∃ name, name ≠ "" ∧ c.path = path ++ [name])
    (hknown : ∃ y, x.items.get? c.id = some y ∧ y.payload.isModule = true)
    (hnew : c.path ∉ cs.map Node.path) : (Node.mk id path (cs ++ [c]) ms rs).Grown x where
  members_named := h.members_named
  members_known := h.members_known
  members_nodup := h.members_nodup
  children_named := List.forall_mem_append.2 ⟨h.children_named, List.forall_mem_singleton.2 hnamed⟩
  children_known := List.forall_mem_append.2 ⟨h.children_known, List.forall_mem_singleton.2 hknown⟩
  children_nodup := nodup_map_push h.children_nodup hnew
  reexports_known := h.reexports_known

theorem Grown.push_reexport {r : ReExport}
    (hr : ∃ y, x.items.get? r.itemId = some y ∧ ∃ u, y.payload = .use u) :
    (Node.mk id path cs ms (rs ++ [r])).Grown x where
  members_named := h.members_named
  members_known := h.members_known
  members_nodup := h.members_nodup
  children_named := h.children_named
  children_known := h.children_known
  children_nodup := h.children_nodup
  reexports_known := List.forall_mem_append.2 ⟨h.reexports_known, List.forall_mem_singleton.2 hr⟩

end

theorem walkAll_eq_flatMap (ns : List Node) : walkAll ns = ns.flatMap walk := by
  induction ns with
  | nil => rfl
  | cons n ns ih => rw [walkAll, ih, List.flatMap_cons]

theorem mem_walkAll {m : Node} {ns : List Node} : m ∈ walkAll ns ↔ ∃ n ∈ ns, m ∈ n.walk := by
  simp [walkAll_eq_flatMap]

/-- The walk of a node is the node, then the walks of its children. -/
theorem walk_eq_cons (n : Node) : n.walk = n :: walkAll n.children := by
  obtain ⟨⟩ := n
  rfl

theorem mem_walk_iff {m n : Node} : m ∈ n.walk ↔ m = n ∨ ∃ c ∈ n.children, m ∈ c.walk := by
  rw [walk_eq_cons, List.mem_cons, mem_walkAll]

/-- Induction over a tree: a node may rely on what holds of its children. -/
theorem induction_children {P : Node → Prop}
    (h : ∀ n : Node, (∀ c ∈ n.children, P c) → P n) (n : Node) : P n := by
  refine @Node.rec P (fun ns => ∀ c ∈ ns, P c) ?_ ?_ ?_ n
  · intro i p cs ms rs ih
    exact h _ ih
  · simp
  · intro n ns hn hns c hc
    rcases List.mem_cons.1 hc with rfl | hc
    · exact hn
    · exact hns c hc

/-- A fact about the nodes below a node follows if children hand it up. -/
theorem walk_induction {P : Node → Node → Prop} (self : ∀ n, P n n)
    (child : ∀ n c m, c ∈ n.children → m ∈ c.walk → P c m → P n m) (n : Node) :
    ∀ m ∈ n.walk, P n m := by
  induction n using induction_children with
  | h n ih =>
    intro m hm
    rcases mem_walk_iff.1 hm with rfl | ⟨c, hc, hm⟩
    · exact self _
    · exact child _ c m hc hm (ih c hc m hm)

theorem mem_walk_of_child {n c m : Node} (hc : c ∈ n.children) (hm : m ∈ c.walk) :
    m ∈ n.walk := mem_walk_iff.2 (.inr ⟨c, hc, hm⟩)

section

variable {x : Export} {n : Node}

/-- What stands below a node extends its path. -/
theorem path_prefix_of_mem_walk (h : ∀ m ∈ n.walk, m.Grown x) :
    ∀ m ∈ n.walk, n.path <+: m.path := by
  intro m hm
  revert h
  refine walk_induction
    (P := fun n m => (∀ k ∈ n.walk, k.Grown x) → n.path <+: m.path) ?_ ?_ n m hm
  · exact fun n _ => List.prefix_refl n.path
  · intro n c m hc _ ih h
    have hprefix : c.path <+: m.path := ih fun k hk => h k (mem_walk_of_child hc hk)
    obtain ⟨name, -, hpath⟩ := (h n n.self_mem_walk).children_named c hc
    exact (hpath ▸ List.prefix_append n.path [name]).trans hprefix

/-- Two children above one path are the same child. -/
theorem Grown.child_eq_of_prefix (h : n.Grown x) {c d : Node} (hc : c ∈ n.children)
    (hd : d ∈ n.children) {q : List String} (hcq : c.path <+: q) (hdq : d.path <+: q) :
    c = d := by
  obtain ⟨a, -, ha⟩ := h.children_named c hc
  obtain ⟨b, -, hb⟩ := h.children_named d hd
  have hlen : c.path.length = d.path.length := by simp [ha, hb]
  have hpath : c.path = d.path :=
    (List.prefix_of_prefix_length_le hcq hdq (Nat.le_of_eq hlen)).eq_of_length hlen
  exact List.inj_on_of_nodup_map h.children_nodup hc hd hpath

/-- A tree of grown nodes has one node for a path. -/
theorem nodup_walk_paths (h : ∀ m ∈ n.walk, m.Grown x) : (n.walk.map path).Nodup := by
  induction n using induction_children with
  | h n ih =>
    have hself := h n n.self_mem_walk
    have hbelow : ∀ c ∈ n.children, ∀ m ∈ c.walk, m.Grown x :=
      fun c hc m hm => h m (mem_walk_of_child hc hm)
    rw [walk_eq_cons, walkAll_eq_flatMap, List.map_cons, List.nodup_cons, List.map_flatMap]
    constructor
    · -- the path of the node is shorter than any path below it
      intro hm
      obtain ⟨c, hc, hm⟩ := List.mem_flatMap.1 hm
      obtain ⟨m, hm, hpath⟩ := List.mem_map.1 hm
      obtain ⟨name, -, hname⟩ := hself.children_named c hc
      have hle := (path_prefix_of_mem_walk (hbelow c hc) m hm).length_le
      rw [hname, hpath, List.length_append, List.length_singleton] at hle
      omega
    · rw [List.nodup_flatMap]
      refine ⟨fun c hc => ih c hc (hbelow c hc), ?_⟩
      have hnodup : n.children.Nodup := List.Nodup.of_map _ hself.children_nodup
      refine (List.nodup_iff_pairwise_ne.1 hnodup).imp_of_mem ?_
      intro c d hc hd hne q hcq hdq
      obtain ⟨k, hk, rfl⟩ := List.mem_map.1 hcq
      obtain ⟨l, hl, hkl⟩ := List.mem_map.1 hdq
      exact hne (hself.child_eq_of_prefix hc hd
        (path_prefix_of_mem_walk (hbelow c hc) k hk)
        (hkl ▸ path_prefix_of_mem_walk (hbelow d hd) l hl))

/-- The nodes of a tree are the root and modules below it. -/
theorem eq_root_or_known (h : ∀ m ∈ n.walk, m.Grown x) :
    ∀ m ∈ n.walk, m = n ∨ ∃ y, x.items.get? m.id = some y ∧ y.payload.isModule = true := by
  intro m hm
  revert h
  refine walk_induction (P := fun n m => (∀ k ∈ n.walk, k.Grown x) →
    m = n ∨ ∃ y, x.items.get? m.id = some y ∧ y.payload.isModule = true) ?_ ?_ n m hm
  · exact fun _ _ => .inl rfl
  · intro n c m hc _ ih h
    rcases ih fun k hk => h k (mem_walk_of_child hc hk) with rfl | hknown
    · exact .inr ((h n n.self_mem_walk).children_known m hc)
    · exact .inr hknown

/-- Behind the path of a node stand the names of nodes below it. -/
theorem exists_of_mem_path (h : ∀ m ∈ n.walk, m.Grown x) : ∀ m ∈ n.walk,
    ∀ segment ∈ m.path.drop n.path.length, segment ≠ "" ∧ ∃ k ∈ n.walk, k.name = segment := by
  intro m hm
  revert h
  refine walk_induction (P := fun n m => (∀ k ∈ n.walk, k.Grown x) →
    ∀ segment ∈ m.path.drop n.path.length,
      segment ≠ "" ∧ ∃ k ∈ n.walk, k.name = segment) ?_ ?_ n m hm
  · intro n _ segment hsegment
    simp at hsegment
  · intro n c m hc hm ih h segment hsegment
    have hbelow : ∀ k ∈ c.walk, k.Grown x := fun k hk => h k (mem_walk_of_child hc hk)
    obtain ⟨name, hne, hname⟩ := (h n n.self_mem_walk).children_named c hc
    obtain ⟨rest, hrest⟩ := path_prefix_of_mem_walk hbelow m hm
    have hlist : segment ∈ name :: rest := by
      rw [← hrest, hname, List.append_assoc] at hsegment
      simpa using hsegment
    rcases List.mem_cons.1 hlist with rfl | hmem
    · exact ⟨hne, c, mem_walk_of_child hc c.self_mem_walk, by simp [Node.name, hname]⟩
    · have hdrop : segment ∈ m.path.drop c.path.length := by
        rw [← hrest]
        simpa using hmem
      obtain ⟨hsegment, k, hk, hkname⟩ := ih hbelow segment hdrop
      exact ⟨hsegment, k, mem_walk_of_child hc hk, hkname⟩

/-- Members of one path stand in one node. -/
theorem path_eq_of_members {m k : Node} (hm : m.Grown x) (hk : k.Grown x) {p q : Placement}
    (hp : p ∈ m.members) (hq : q ∈ k.members) (h : p.path = q.path) : m.path = k.path := by
  obtain ⟨a, -, ha⟩ := hm.members_named p hp
  obtain ⟨b, -, hb⟩ := hk.members_named q hq
  exact (List.append_inj' (ha.symm.trans (h.trans hb)) rfl).1

/-- Every member of a grown node has the node's path for its module. -/
theorem Grown.modulePath (h : n.Grown x) {p : Placement} (hp : p ∈ n.members) :
    p.modulePath = n.path := by
  obtain ⟨a, -, ha⟩ := h.members_named p hp
  simp [Placement.modulePath, ha]

theorem Grown.name_ne_empty (h : n.Grown x) {p : Placement} (hp : p ∈ n.members) :
    p.name ≠ "" ∧ p.path = n.path ++ [p.name] := by
  obtain ⟨a, hne, ha⟩ := h.members_named p hp
  have hname : p.name = a := by simp [Placement.name, ha]
  exact ⟨hname ▸ hne, hname ▸ ha⟩

end

end Node

end CrateBook
