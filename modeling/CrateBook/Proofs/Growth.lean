import CrateBook.Proofs.Nodes
import CrateBook.Proofs.Placements

/-!
# The tree and its placements agree

Growing a node keeps one invariant: the nodes so far are grown, and the placement map holds
what it held at the start and what these nodes add to it, nothing else. The step cases are
an entry for a re-export, a member, and a child module with everything below it. The whole
tree then has one node for a path, and the map holds exactly its nodes and members.
-/
namespace CrateBook.Tree

/-- Only what an export knows is a candidate, under a name that is not empty. -/
def Candidate.Known (x : Export) : Candidate → Prop
  | module id name _ => name ≠ "" ∧ ∃ y, x.items.get? id = some y ∧ y.payload.isModule = true
  | member id name _ => name ≠ "" ∧ ∃ y, x.items.get? id = some y ∧
      y.payload.isModule = false ∧ neverPlaced.contains y.kind = false
  | reexport entry => ∃ y, x.items.get? entry.itemId = some y ∧ ∃ u, y.payload = .use u

section

variable {x : Export} {includePrivate : Bool}

theorem known_candidate {id : Id} {y : Item} (hy : x.items.get? id = some y)
    (name : Option String) (via : Bool) : ∀ c ∈ candidate y name via, c.Known x := by
  have hid : y.id = id := Items.id_of_get? hy
  intro c hc
  unfold candidate at hc
  split at hc
  · simp at hc
  · next n =>
    split at hc
    · simp at hc
    · next hn =>
      have hne : n ≠ "" := by simpa using hn
      split at hc
      · next hm =>
        obtain rfl := List.mem_singleton.1 hc
        exact ⟨hne, y, hid ▸ hy, hm⟩
      · next hm =>
        split at hc
        · simp at hc
        · next hk =>
          obtain rfl := List.mem_singleton.1 hc
          exact ⟨hne, y, hid ▸ hy, by simpa using hm, by simpa using hk⟩

theorem known_listGlobs (stack seen ids : List Id) :
    ∀ c ∈ listGlobs x includePrivate stack seen ids, c.Known x := by
  fun_induction listGlobs x includePrivate stack seen ids with
  | case1 => simp
  | case9 seen id rest child hchild _ _ ih =>
    intro c hc
    rcases List.mem_append.1 hc with hc | hc
    · exact known_candidate hchild _ _ c hc
    · exact ih c hc
  | _ => assumption

theorem known_listGlob (stack : List Id) (target : Id) :
    ∀ c ∈ listGlob x includePrivate stack target, c.Known x := by
  unfold listGlob
  split
  · simp
  · split
    · exact known_listGlobs _ _ _
    · simp

theorem known_listUse {id : Id} {y : Item} (hy : x.items.get? id = some y) {u : UseBody}
    (hu : y.payload = .use u) (stack : List Id) :
    ∀ c ∈ listUse x includePrivate stack y u, c.Known x := by
  have hentry : (Candidate.reexport (entryOf y u)).Known x := by
    refine ⟨y, ?_, u, hu⟩
    rw [entryOf, Items.id_of_get? hy]
    exact hy
  intro c hc
  unfold listUse at hc
  split at hc
  · exact List.mem_singleton.1 hc ▸ hentry
  · split at hc
    · exact List.mem_singleton.1 hc ▸ hentry
    · split at hc
      · exact known_listGlob _ _ c hc
      · split at hc
        · simp at hc
        · split at hc
          · exact List.mem_singleton.1 hc ▸ hentry
          · next ht =>
            split at hc
            · exact known_candidate ht _ _ c hc
            · simp at hc

theorem known_candidates (stack : List Id) (module : Id) :
    ∀ c ∈ candidates x includePrivate stack module, c.Known x := by
  intro c hc
  unfold candidates at hc
  split at hc
  · obtain ⟨id, -, hc⟩ := List.mem_flatMap.1 hc
    unfold listChild at hc
    split at hc
    · simp at hc
    · next hy =>
      split at hc
      · split at hc
        · next u hu => exact known_listUse hy hu _ c hc
        · exact known_candidate hy _ _ c hc
      · simp at hc
  · simp at hc

end

namespace Growth

/-- The node so far, its parts in the order in which they came. -/
def draft (g : Growth) (id : Id) (path : List String) : Node :=
  .mk id path g.children g.members g.reexports

/-- What the node so far has added to the map, itself apart. -/
def keys (g : Growth) : List (Id × List String) :=
  g.members.map Placement.key ++ (Node.walkAll g.children).flatMap Node.keys

/-- The invariant of a node that grows at a path, from a map that held `before`. -/
structure Sound (x : Export) (before : PlacementMap) (path : List String) (g : Growth) :
    Prop where
  tidy : g.placements.Tidy
  here : ∀ id, (g.draft id path).Grown x
  below : ∀ m ∈ Node.walkAll g.children, m.Grown x
  recorded : ∀ p ∈ g.members, p ∈ g.placements.recorded p.itemId
  recorded_below : ∀ m ∈ Node.walkAll g.children, ∀ p ∈ m.members,
    p ∈ g.placements.recorded p.itemId
  kept : ∀ id, ∀ p ∈ before.recorded id, p ∈ g.placements.recorded id
  held : ∀ id q, g.placements.holds id q = true ↔
    before.holds id q = true ∨ (id, q) ∈ g.keys

variable {x : Export} {before : PlacementMap} {path : List String} {g : Growth}

theorem sound_start (h : before.Tidy) : Sound x before path { placements := before } where
  tidy := h
  here := by intro id; constructor <;> simp [draft, Node.members, Node.children, Node.reexports]
  below := by simp [Node.walkAll]
  recorded := by simp
  recorded_below := by simp [Node.walkAll]
  kept := fun _ _ hp => hp
  held := by simp [keys, Node.walkAll]

theorem Sound.addReexport (h : Sound x before path g) {r : ReExport}
    (hr : ∃ y, x.items.get? r.itemId = some y ∧ ∃ u, y.payload = .use u) :
    Sound x before path { g with reexports := g.reexports ++ [r] } where
  tidy := h.tidy
  here id := (h.here id).push_reexport hr
  below := h.below
  recorded := h.recorded
  recorded_below := h.recorded_below
  kept := h.kept
  held := h.held

/-- What a node has among its members is recorded, so a new placement is not among them. -/
theorem Sound.key_notMem_members (h : Sound x before path g) {p : Placement}
    (hnew : g.placements.isNew p) : p.key ∉ g.members.map Placement.key := by
  intro hm
  obtain ⟨q, hq, hkey⟩ := List.mem_map.1 hm
  rw [Placement.key, Placement.key, Prod.mk.injEq] at hkey
  refine PlacementMap.isNew_iff.1 hnew (PlacementMap.holds_iff.2 ⟨q, ?_, hkey.2⟩)
  exact hkey.1 ▸ h.recorded q hq

/-- Adding a member that is known keeps growth sound. -/
theorem Sound.addMember (h : Sound x before path g) {id : Id} {name : String} {via : Bool}
    (hc : (Candidate.member id name via).Known x) :
    Sound x before path (g.addMember ⟨id, path ++ [name], via⟩) := by
  unfold Growth.addMember
  split
  · next hnew =>
    have hkept : ∀ j, ∀ q ∈ g.placements.recorded j,
        q ∈ (g.placements.add ⟨id, path ++ [name], via⟩).recorded j :=
      fun j q hq => PlacementMap.mem_recorded_add.2 (.inl hq)
    have hself : (⟨id, path ++ [name], via⟩ : Placement) ∈
        (g.placements.add ⟨id, path ++ [name], via⟩).recorded id :=
      PlacementMap.mem_recorded_add.2 (.inr ⟨rfl, hnew, rfl⟩)
    exact {
      tidy := h.tidy.add _
      here := fun i =>
        (h.here i).push_member ⟨name, hc.1, rfl⟩ hc.2 (h.key_notMem_members hnew)
      below := h.below
      recorded := by
        intro p hp
        rcases List.mem_append.1 hp with hp | hp
        · exact hkept _ _ (h.recorded p hp)
        · rw [List.mem_singleton.1 hp]
          exact hself
      recorded_below := fun m hm p hp => hkept _ _ (h.recorded_below m hm p hp)
      kept := fun j p hp => hkept _ _ (h.kept j p hp)
      held := by
        intro j q
        rw [PlacementMap.holds_add, h.held]
        simp only [keys, List.map_append, List.map_cons, List.map_nil, List.mem_append,
          List.mem_singleton, Placement.key, Prod.mk.injEq]
        tauto }
  · exact h

theorem mem_walkAll_node {id : Id} {m : Node} :
    m ∈ Node.walkAll (g.node id path).children ↔ m ∈ Node.walkAll g.children := by
  simp [Node.mem_walkAll, Growth.node, Node.children]

/-- Putting children and members in order leaves a node grown. -/
theorem grown_node {id : Id} (h : (g.draft id path).Grown x) : (g.node id path).Grown x where
  members_named := by
    intro p hp
    exact h.members_named p (List.mem_mergeSort.1 hp)
  members_known := by
    intro p hp
    exact h.members_known p (List.mem_mergeSort.1 hp)
  members_nodup := by
    refine List.Perm.nodup ?_ h.members_nodup
    exact ((List.mergeSort_perm g.members memberLe).map Placement.key).symm
  children_named := by
    intro c hc
    exact h.children_named c (List.mem_mergeSort.1 hc)
  children_known := by
    intro c hc
    exact h.children_known c (List.mem_mergeSort.1 hc)
  children_nodup := by
    refine List.Perm.nodup ?_ h.children_nodup
    exact ((List.mergeSort_perm g.children childLe).map Node.path).symm
  reexports_known := h.reexports_known

theorem Sound.grown_walk (h : Sound x before path g) (id : Id) :
    ∀ m ∈ (g.node id path).walk, m.Grown x := by
  intro m hm
  rw [Node.walk_eq_cons] at hm
  rcases List.mem_cons.1 hm with rfl | hm
  · exact grown_node (h.here id)
  · exact h.below m (mem_walkAll_node.1 hm)

theorem Sound.recorded_walk (h : Sound x before path g) (id : Id) :
    ∀ m ∈ (g.node id path).walk, ∀ p ∈ m.members, p ∈ g.placements.recorded p.itemId := by
  intro m hm p hp
  rw [Node.walk_eq_cons] at hm
  rcases List.mem_cons.1 hm with rfl | hm
  · exact h.recorded p (List.mem_mergeSort.1 hp)
  · exact h.recorded_below m (mem_walkAll_node.1 hm) p hp

theorem mem_keys_walk {id : Id} {k : Id × List String} :
    k ∈ (g.node id path).walk.flatMap Node.keys ↔ k = (id, path) ∨ k ∈ g.keys := by
  have hself : k ∈ (g.node id path).keys ↔
      k = (id, path) ∨ k ∈ g.members.map Placement.key := by
    simp [Node.keys, Growth.node, Node.id, Node.path, Node.members]
  have hbelow : k ∈ (Node.walkAll (g.node id path).children).flatMap Node.keys ↔
      k ∈ (Node.walkAll g.children).flatMap Node.keys := by
    simp only [List.mem_flatMap, mem_walkAll_node]
  rw [Node.walk_eq_cons, List.flatMap_cons, List.mem_append, hself, hbelow, keys,
    List.mem_append, or_assoc]

/-- A child is added with everything that has grown below it. -/
theorem Sound.addChild (h : Sound x before path g) {id : Id} {name : String} {via : Bool}
    (hc : (Candidate.module id name via).Known x)
    (hnew : g.hasChild (path ++ [name]) = false) {inner : Growth}
    (hinner : Sound x (g.placements.add ⟨id, path ++ [name], via⟩) (path ++ [name]) inner) :
    Sound x before path { g with
      placements := inner.placements
      children := g.children ++ [inner.node id (path ++ [name])] } := by
  have hnot : path ++ [name] ∉ g.children.map Node.path := by
    simpa [Growth.hasChild] using hnew
  have hkept : ∀ j, ∀ q ∈ g.placements.recorded j, q ∈ inner.placements.recorded j :=
    fun j q hq => hinner.kept j q (PlacementMap.mem_recorded_add.2 (.inl hq))
  have hwalk : Node.walkAll (g.children ++ [inner.node id (path ++ [name])]) =
      Node.walkAll g.children ++ (inner.node id (path ++ [name])).walk := by
    simp [Node.walkAll_eq_flatMap]
  exact {
    tidy := hinner.tidy
    here := fun i => (h.here i).push_child ⟨name, hc.1, rfl⟩ hc.2 hnot
    below := by
      intro m hm
      rw [hwalk] at hm
      rcases List.mem_append.1 hm with hm | hm
      · exact h.below m hm
      · exact hinner.grown_walk id m hm
    recorded := fun p hp => hkept _ _ (h.recorded p hp)
    recorded_below := by
      intro m hm p hp
      rw [hwalk] at hm
      rcases List.mem_append.1 hm with hm | hm
      · exact hkept _ _ (h.recorded_below m hm p hp)
      · exact hinner.recorded_walk id m hm p hp
    kept := fun j p hp => hkept _ _ (h.kept j p hp)
    held := by
      intro j q
      rw [hinner.held, PlacementMap.holds_add, h.held]
      simp only [keys, hwalk, List.flatMap_append, List.mem_append, mem_keys_walk,
        Prod.mk.injEq]
      tauto }

end Growth

/-- Placing candidates keeps the invariant. -/
theorem sound_place {x : Export} {includePrivate : Bool} {stack : List Id}
    {path : List String} {g : Growth} {cs : List Candidate} {before : PlacementMap}
    (h : Growth.Sound x before path g) (hcs : ∀ c ∈ cs, c.Known x) :
    Growth.Sound x before path (place x includePrivate stack path g cs) := by
  fun_induction place x includePrivate stack path g cs generalizing before with
  | case1 stack path g => exact h
  | case2 stack path g r rest ih =>
    have hr := hcs _ List.mem_cons_self
    exact ih (h.addReexport hr) fun c hc => hcs c (List.mem_cons_of_mem _ hc)
  | case3 stack path g id name via rest ih =>
    have hm := hcs _ List.mem_cons_self
    exact ih (h.addMember hm) fun c hc => hcs c (List.mem_cons_of_mem _ hc)
  | case4 stack path g id name via rest childPath hid hchild =>
    rename_i ih
    exact ih h fun c hc => hcs c (List.mem_cons_of_mem _ hc)
  | case5 stack path g id name via rest childPath hid hchild inner ihin =>
    rename_i ih
    have hm := hcs _ List.mem_cons_self
    have hinner := ihin (Growth.sound_start (h.tidy.add _)) (known_candidates _ _)
    exact ih (h.addChild hm (by simpa using hchild) hinner)
      fun c hc => hcs c (List.mem_cons_of_mem _ hc)
  | case6 stack path g id name via rest hid ih =>
    exact ih h fun c hc => hcs c (List.mem_cons_of_mem _ hc)

/-- Two exports with the same ids and the same candidates let a node grow in the same way. -/
theorem place_congr {x y : Export} {includePrivate : Bool}
    (hids : ∀ id, id ∈ y.items.ids ↔ id ∈ x.items.ids)
    (hcandidates : candidates y includePrivate = candidates x includePrivate) (stack : List Id)
    (path : List String) (g : Growth) (cs : List Candidate) :
    place y includePrivate stack path g cs = place x includePrivate stack path g cs := by
  fun_induction place x includePrivate stack path g cs with
  | case1 stack path g => rw [place]
  | case2 stack path g r rest ih =>
    rw [place]
    exact ih
  | case3 stack path g id name via rest ih =>
    rw [place]
    exact ih
  | case4 stack path g id name via rest childPath hid hchild ih =>
    rw [← hids] at hid
    rw [place, dif_pos hid, if_pos hchild]
    exact ih
  | case5 stack path g id name via rest childPath hid hchild inner ihin _ ih =>
    rw [← hids] at hid
    rw [place, dif_pos hid, if_neg hchild, hcandidates, ihin]
    exact ih
  | case6 stack path g id name via rest hid ih =>
    rw [← hids] at hid
    rw [place, dif_neg hid]
    exact ih

/-- Two packages with the same ids and the same candidates have the same tree. -/
theorem ofExport_congr {x y : Export} {includePrivate : Bool} (hpackage : y.package = x.package)
    (hids : ∀ id, id ∈ y.items.ids ↔ id ∈ x.items.ids)
    (hcandidates : candidates y includePrivate = candidates x includePrivate) :
    ofExport y includePrivate = ofExport x includePrivate := by
  simp only [ofExport, hpackage, hcandidates, place_congr hids hcandidates]

/-- The root of a tree, before anything is placed in it. -/
def rootPath (x : Export) : List String := [x.package.name]

section

variable (x : Export) (includePrivate : Bool)

/-- The growth of the root. -/
theorem exists_sound_root : ∃ g : Growth,
    ofExport x includePrivate = ⟨g.placements, g.node x.package.rootId (rootPath x)⟩ ∧
    Growth.Sound x (({} : PlacementMap).add ⟨x.package.rootId, rootPath x, false⟩)
      (rootPath x) g :=
  ⟨_, rfl, sound_place (Growth.sound_start (PlacementMap.tidy_empty.add _))
    (known_candidates _ _)⟩

@[simp] theorem path_root : (ofExport x includePrivate).root.path = [x.package.name] := rfl

@[simp] theorem id_root : (ofExport x includePrivate).root.id = x.package.rootId := rfl

/-- The placement map of an export is tidy. -/
theorem tidy_ofExport : (ofExport x includePrivate).placements.Tidy := by
  obtain ⟨g, hg, h⟩ := exists_sound_root x includePrivate
  rw [hg]
  exact h.tidy

/-- Every node of the tree of an export is grown from it. -/
theorem grown_modules : ∀ n ∈ (ofExport x includePrivate).modules, n.Grown x := by
  obtain ⟨g, hg, h⟩ := exists_sound_root x includePrivate
  rw [hg]
  exact h.grown_walk _

/-- Every member of a node is recorded in the placement map. -/
theorem recorded_members : ∀ n ∈ (ofExport x includePrivate).modules, ∀ p ∈ n.members,
    p ∈ (ofExport x includePrivate).placements.recorded p.itemId := by
  obtain ⟨g, hg, h⟩ := exists_sound_root x includePrivate
  rw [hg]
  exact h.recorded_walk _

/-- The map holds the nodes of the tree and their members, nothing else. -/
theorem holds_ofExport {id : Id} {path : List String} :
    (ofExport x includePrivate).placements.holds id path = true ↔
      (id, path) ∈ (ofExport x includePrivate).modules.flatMap Node.keys := by
  obtain ⟨g, hg, h⟩ := exists_sound_root x includePrivate
  have hempty : ({} : PlacementMap).holds id path = false := rfl
  rw [hg, Tree.modules, Growth.mem_keys_walk, h.held, PlacementMap.holds_add, hempty]
  simp

/-- No two modules of the tree have one path. -/
theorem nodup_module_paths :
    ((ofExport x includePrivate).modules.map Node.path).Nodup :=
  Node.nodup_walk_paths (grown_modules x includePrivate)

/-- The path of every module starts with the name of the package. -/
theorem prefix_module_path : ∀ n ∈ (ofExport x includePrivate).modules,
    [x.package.name] <+: n.path :=
  Node.path_prefix_of_mem_walk (grown_modules x includePrivate)

/-- The primary placement of the root's module is the package itself. -/
theorem path_of_primary?_root {p : Placement}
    (hp : (ofExport x includePrivate).placements.primary? x.package.rootId = some p) :
    p.path = [x.package.name] := by
  have hroot : (ofExport x includePrivate).root ∈ (ofExport x includePrivate).modules :=
    Node.self_mem_walk _
  have hself : (x.package.rootId, [x.package.name]) ∈
      (ofExport x includePrivate).modules.flatMap Node.keys :=
    List.mem_flatMap.2 ⟨_, hroot, List.mem_cons_self⟩
  obtain ⟨q, hq, hqpath⟩ := PlacementMap.holds_iff.1 ((holds_ofExport x includePrivate).2 hself)
  have hshort : p.path.length ≤ 1 := by
    rcases PlacementMap.le_of_primary? hp hq with rfl | hle
    · rw [hqpath]
      exact Nat.le_refl 1
    · rw [Placement.le_iff, hqpath, List.length_singleton] at hle
      omega
  have hkey := (holds_ofExport x includePrivate).1
    (PlacementMap.holds_of_mem (PlacementMap.mem_recorded_of_primary? hp))
  obtain ⟨n, hn, hkey⟩ := List.mem_flatMap.1 hkey
  have hbelow : [x.package.name] <+: p.path := by
    have hnode := prefix_module_path x includePrivate n hn
    rcases List.mem_cons.1 hkey with hnode' | hmember
    · exact (Prod.mk.inj hnode').2 ▸ hnode
    · obtain ⟨r, hr, hrkey⟩ := List.mem_map.1 hmember
      obtain ⟨name, -, hname⟩ := (grown_modules x includePrivate n hn).members_named r hr
      rw [← (Prod.mk.inj hrkey).2, hname]
      exact hnode.trans (List.prefix_append _ _)
  exact (hbelow.eq_of_length_le hshort).symm

/-- A root that is no module shows nothing. -/
theorem modules_of_not_module
    (h : ∀ b, x.items.payload? x.package.rootId ≠ some (.module b)) :
    (ofExport x includePrivate).modules = [(ofExport x includePrivate).root] ∧
      (ofExport x includePrivate).root.members = [] := by
  have hnil : candidates x includePrivate [x.package.rootId] x.package.rootId = [] := by
    unfold candidates
    split
    · next b hb => exact absurd hb (h b)
    · rfl
  simp [ofExport, hnil, place, modules, Growth.node, Node.walk, Node.walkAll, Node.members]

/-- No node is a node of an item that is a member somewhere. -/
theorem node_id_ne_member : ∀ n ∈ (ofExport x includePrivate).modules, ∀ p ∈ n.members,
    ∀ m ∈ (ofExport x includePrivate).modules, m.id ≠ p.itemId := by
  intro n hn p hp m hm hid
  obtain ⟨y, hy, hmod, -⟩ := (grown_modules x includePrivate n hn).members_known p hp
  rcases Node.eq_root_or_known (grown_modules x includePrivate) m hm with hroot | ⟨z, hz, hz'⟩
  · -- then the root is no module, and nothing has members
    have hpay : ∀ b, x.items.payload? x.package.rootId ≠ some (.module b) := by
      intro b hb
      have hroot' : x.package.rootId = p.itemId := by rw [← hid, hroot]; rfl
      rw [hroot', Items.payload?, hy] at hb
      simp only [Option.map_some, Option.some.injEq] at hb
      simp [hb, Payload.isModule] at hmod
    obtain ⟨hmods, hnone⟩ := modules_of_not_module x includePrivate hpay
    rw [hmods, List.mem_singleton] at hn
    rw [hn, hnone] at hp
    simp at hp
  · rw [hid, hy, Option.some.injEq] at hz
    rw [← hz, hmod] at hz'
    exact absurd hz' (by decide)

/-- A placement of an item that is no node is a member of a node. -/
theorem exists_member {id : Id} {p : Placement}
    (hp : p ∈ (ofExport x includePrivate).placements.recorded id)
    (hid : ∀ n ∈ (ofExport x includePrivate).modules, n.id ≠ id) :
    ∃ n ∈ (ofExport x includePrivate).modules, p ∈ n.members := by
  have hkey := (holds_ofExport x includePrivate).1 (PlacementMap.holds_of_mem hp)
  obtain ⟨n, hn, hkey⟩ := List.mem_flatMap.1 hkey
  rcases List.mem_cons.1 hkey with hself | hmember
  · rw [Prod.mk.injEq] at hself
    exact absurd hself.1.symm (hid n hn)
  · obtain ⟨q, hq, hqkey⟩ := List.mem_map.1 hmember
    rw [Placement.key, Prod.mk.injEq] at hqkey
    have hqrec := recorded_members x includePrivate n hn q hq
    rw [hqkey.1] at hqrec
    have hqp := (tidy_ofExport x includePrivate).eq_of_path hqrec hp hqkey.2
    exact ⟨n, hn, hqp ▸ hq⟩

/-- A placement is a member of one node only. -/
theorem node_eq_of_member {m n : Node} (hm : m ∈ (ofExport x includePrivate).modules)
    (hn : n ∈ (ofExport x includePrivate).modules) {p : Placement} (hpm : p ∈ m.members)
    (hpn : p ∈ n.members) : m = n := by
  have hpath := Node.path_eq_of_members (grown_modules x includePrivate m hm)
    (grown_modules x includePrivate n hn) hpm hpn rfl
  exact List.inj_on_of_nodup_map (nodup_module_paths x includePrivate) hm hn hpath

/-- No placement is a member twice, in one node or in two. -/
theorem nodup_members : ((ofExport x includePrivate).modules.flatMap Node.members).Nodup := by
  rw [List.nodup_flatMap]
  constructor
  · intro n hn
    exact List.Nodup.of_map _ (grown_modules x includePrivate n hn).members_nodup
  · have hnodup : (ofExport x includePrivate).modules.Nodup :=
      List.Nodup.of_map _ (nodup_module_paths x includePrivate)
    refine (List.nodup_iff_pairwise_ne.1 hnodup).imp_of_mem ?_
    intro m n hm hn hne p hpm hpn
    exact hne (node_eq_of_member x includePrivate hm hn hpm hpn)

end

end CrateBook.Tree
