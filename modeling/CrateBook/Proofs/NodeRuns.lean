import CrateBook.Proofs.Growth

/-!
# Every node is a run

Each node of a tree is what placing the candidates of its module has made, with the ids of
the modules above it as the stack. So a fact about one run is a fact about every node. A run
keeps what was recorded before, takes members from its candidates only, and has a placement
for each item among them.
-/
namespace CrateBook

/-- The ids of the modules from a node up to the root of its tree, its own first. -/
inductive Node.Lineage (root : Node) : List Id → Node → Prop
  | root : Lineage root [root.id] root
  | child {ids : List Id} {n c : Node} :
      Lineage root ids n → c ∈ n.children → Lineage root (c.id :: ids) c

namespace Node

variable {root n m : Node} {ids : List Id}

theorem Lineage.mem_walk_of_mem_walk (h : root.Lineage ids n) (hm : m ∈ n.walk) :
    m ∈ root.walk := by
  induction h with
  | root => exact hm
  | child _ hc ih => exact ih (mem_walk_of_child hc hm)

theorem Lineage.mem_walk (h : root.Lineage ids n) : n ∈ root.walk :=
  h.mem_walk_of_mem_walk n.self_mem_walk

theorem exists_lineage_below (hm : m ∈ n.walk) :
    ∀ ids, root.Lineage ids n → ∃ js, root.Lineage js m := by
  refine walk_induction (P := fun n m => ∀ ids, root.Lineage ids n → ∃ js, root.Lineage js m)
    ?_ ?_ n m hm
  · intro n ids h
    exact ⟨ids, h⟩
  · intro n c m hc _ ih ids h
    exact ih _ (.child h hc)

/-- The nodes of a tree are those that descend from its root. -/
theorem mem_walk_iff_lineage : n ∈ root.walk ↔ ∃ ids, root.Lineage ids n := by
  constructor
  · exact fun h => exists_lineage_below h _ .root
  · rintro ⟨ids, h⟩
    exact h.mem_walk

end Node

namespace Tree

variable {x : Export} {includePrivate : Bool}

/-- What placing candidates at a path makes of a node under way. -/
structure Progress (path : List String) (cs : List Candidate) (g g' : Growth) : Prop where
  kept : ∀ id q, g.placements.holds id q = true → g'.placements.holds id q = true
  members : ∀ p ∈ g'.members, p ∈ g.members ∨
    ∃ name via, .member p.itemId name via ∈ cs ∧ p.path = path ++ [name]
  shown : ∀ id name via, .member id name via ∈ cs →
    g'.placements.holds id (path ++ [name]) = true

section

variable {path : List String} {c : Candidate} {cs : List Candidate} {g g' g'' : Growth}

theorem progress_nil : Progress path [] g g where
  kept := fun _ _ h => h
  members := fun _ hp => .inl hp
  shown := by simp

/-- Placing candidates one after the other makes the progress of all of them. -/
theorem Progress.cons (h : Progress path [c] g g') (hrest : Progress path cs g' g'') :
    Progress path (c :: cs) g g'' where
  kept id q hq := hrest.kept id q (h.kept id q hq)
  members p hp := by
    rcases hrest.members p hp with hp | ⟨name, via, hmem, hpath⟩
    · rcases h.members p hp with hp | ⟨name, via, hmem, hpath⟩
      · exact .inl hp
      · exact .inr ⟨name, via, List.mem_singleton.1 hmem ▸ List.mem_cons_self, hpath⟩
    · exact .inr ⟨name, via, List.mem_cons_of_mem _ hmem, hpath⟩
  shown id name via hmem := by
    rcases List.mem_cons.1 hmem with rfl | hmem
    · exact hrest.kept _ _ (h.shown id name via List.mem_cons_self)
    · exact hrest.shown id name via hmem

/-- A candidate that is no item changes no members. -/
theorem progress_of_members_eq (hc : ∀ id name via, c ≠ .member id name via)
    (hkept : ∀ id q, g.placements.holds id q = true → g'.placements.holds id q = true)
    (hmembers : g'.members = g.members) : Progress path [c] g g' where
  kept := hkept
  members := fun _ hp => .inl (hmembers ▸ hp)
  shown := fun id name via hmem => absurd (List.mem_singleton.1 hmem).symm (hc id name via)

/-- A member is shown, or was recorded at its path before. -/
theorem progress_addMember (g : Growth) (id : Id) (name : String) (via : Bool) :
    Progress path [.member id name via] g (g.addMember ⟨id, path ++ [name], via⟩) := by
  unfold Growth.addMember
  split
  · next hnew =>
    exact {
      kept := fun i q hq => PlacementMap.holds_add.2 (.inl hq)
      members := by
        intro p hp
        rcases List.mem_append.1 hp with hp | hp
        · exact .inl hp
        · obtain rfl := List.mem_singleton.1 hp
          exact .inr ⟨name, via, List.mem_cons_self, rfl⟩
      shown := by
        intro i nm v hmem
        obtain ⟨rfl, rfl, -⟩ := Candidate.member.inj (List.mem_singleton.1 hmem)
        exact PlacementMap.holds_add.2 (.inr ⟨rfl, rfl⟩) }
  · next hold =>
    exact {
      kept := fun _ _ hq => hq
      members := fun p hp => .inl hp
      shown := by
        intro i nm v hmem
        obtain ⟨rfl, rfl, -⟩ := Candidate.member.inj (List.mem_singleton.1 hmem)
        exact not_not.1 fun h => hold (PlacementMap.isNew_iff.2 h) }

end

/-- A run makes the progress that its candidates stand for. -/
theorem progress_place (stack : List Id) (path : List String) (g : Growth)
    (cs : List Candidate) :
    Progress path cs g (place x includePrivate stack path g cs) := by
  fun_induction place x includePrivate stack path g cs with
  | case1 stack path g => exact progress_nil
  | case2 stack path g r rest ih =>
    refine .cons ?_ ih
    exact progress_of_members_eq (by simp) (fun _ _ h => h) rfl
  | case3 stack path g id name via rest ih => exact .cons (progress_addMember g id name via) ih
  | case4 stack path g id name via rest childPath hid hchild ih =>
    refine .cons ?_ ih
    exact progress_of_members_eq (by simp) (fun _ _ h => h) rfl
  | case5 stack path g id name via rest childPath hid hchild inner ihin _ ih =>
    refine .cons ?_ ih
    refine progress_of_members_eq (by simp) (fun i q hq => ?_) rfl
    exact ihin.kept i q (PlacementMap.holds_add.2 (.inl hq))
  | case6 stack path g id name via rest hid ih =>
    refine .cons ?_ ih
    exact progress_of_members_eq (by simp) (fun _ _ h => h) rfl

/-- A node that was grown by a run with a stack, as were all below it; what the run recorded
is among the placements of the whole tree. -/
inductive GrownBy (x : Export) (includePrivate : Bool) (all : PlacementMap) :
    List Id → Node → Prop
  | run {stack : List Id} {id : Id} {path : List String} {before : PlacementMap} {g : Growth} :
      g = place x includePrivate stack path { placements := before }
        (candidates x includePrivate stack id) →
      (∀ i q, g.placements.holds i q = true → all.holds i q = true) →
      (∀ c ∈ g.children, GrownBy x includePrivate all (c.id :: stack) c) →
      GrownBy x includePrivate all stack (g.node id path)

variable {all : PlacementMap}

/-- The children that a run adds are grown by runs of their own. -/
theorem grownBy_children {stack : List Id} {path : List String} {g : Growth}
    {cs : List Candidate}
    (hall : ∀ i q, (place x includePrivate stack path g cs).placements.holds i q = true →
      all.holds i q = true) :
    ∀ c ∈ (place x includePrivate stack path g cs).children, c ∈ g.children ∨
      GrownBy x includePrivate all (c.id :: stack) c := by
  fun_induction place x includePrivate stack path g cs with
  | case1 stack path g => exact fun c hc => .inl hc
  | case2 stack path g r rest ih => exact ih hall
  | case3 stack path g id name via rest ih =>
    intro c hc
    have hsame : (g.addMember ⟨id, path ++ [name], via⟩).children = g.children := by
      unfold Growth.addMember
      split <;> rfl
    exact hsame ▸ ih hall c hc
  | case4 stack path g id name via rest childPath hid hchild ih => exact ih hall
  | case5 stack path g id name via rest childPath hid hchild inner ihin _ ih =>
    intro c hc
    rcases ih hall c hc with hc | hgrown
    · rcases List.mem_append.1 hc with hc | hc
      · exact .inl hc
      · -- the new child: what its run recorded is kept by the rest of this run
        obtain rfl := List.mem_singleton.1 hc
        have hinner : ∀ i q, inner.placements.holds i q = true → all.holds i q = true :=
          fun i q hq => hall i q ((progress_place stack path _ rest).kept i q hq)
        refine .inr (.run rfl hinner fun d hd => ?_)
        exact (ihin hinner d hd).resolve_left List.not_mem_nil
    · exact .inr hgrown
  | case6 stack path g id name via rest hid ih => exact ih hall

variable (x includePrivate)

theorem grownBy_root : GrownBy x includePrivate (ofExport x includePrivate).placements
    [x.package.rootId] (ofExport x includePrivate).root :=
  .run rfl (fun _ _ h => h) fun c hc =>
    (grownBy_children (fun _ _ h => h) c hc).resolve_left List.not_mem_nil

/-- Every node of a tree is a run with its lineage as the stack. -/
theorem grownBy_lineage {ids : List Id} {n : Node}
    (h : (ofExport x includePrivate).root.Lineage ids n) :
    GrownBy x includePrivate (ofExport x includePrivate).placements ids n := by
  induction h with
  | root => exact grownBy_root x includePrivate
  | child _ hc ih =>
    cases ih with
    | run hg hall hbelow => exact hbelow _ (List.mem_mergeSort.1 hc)

end Tree

end CrateBook
