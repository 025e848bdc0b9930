import CrateBook.Proofs.NodeRuns
import CrateBook.Proofs.Offers
import Mathlib.Data.List.Perm.Subperm

/-!
# Growing the tree ends

Re-exports may lead back to where they came from, so that growing a tree could go on for ever.
The walk through globs is described call by call, with the modules it has met handed from each
call to the next: a call that opens a module meets it for the first time, so no module is opened
twice, and there is a last one. Growing nodes is described in the same way: a node opens only
modules that do not stand above it, so the modules from a node up to the root are distinct.
-/
namespace CrateBook

/-- The ids of the modules among the items of an export. -/
def Export.moduleIds (x : Export) : List Id :=
  x.items.ids.filter fun id => (x.items.payload? id).any (·.isModule)

theorem Export.mem_moduleIds {x : Export} {id : Id} {y : Item} (hy : x.items.get? id = some y)
    (hmod : y.payload.isModule = true) : id ∈ x.moduleIds := by
  refine List.mem_filter.2 ⟨Items.mem_ids_of_get? hy, ?_⟩
  rw [Items.payload?, hy]
  exact hmod

theorem Export.mem_moduleIds_of_module {x : Export} {id : Id} {b : ModuleBody}
    (h : x.items.payload? id = some (.module b)) : id ∈ x.moduleIds := by
  obtain ⟨y, hy, hpayload⟩ := Option.map_eq_some_iff.1 h
  exact mem_moduleIds hy (by rw [hpayload]; rfl)

namespace Tree

variable {x : Export} {includePrivate : Bool} {stack seen : List Id}

/-! ## The walk through globs -/

/-- A call of the walk through globs: for the target of one, or for ids of a list. -/
inductive GlobCall where
  | target (t : Id)
  | ids (ids : List Id)

/-- How a call of the walk through globs ends: with the modules it has opened, what it has listed,
and all ids that were met until then. `seen` holds the ids that were met before. -/
inductive Expands (x : Export) (includePrivate : Bool) (stack : List Id) :
    List Id → GlobCall → List Id → List Candidate → List Id → Prop
  | again {seen : List Id} {t : Id} :
      t ∈ seen → Expands x includePrivate stack seen (.target t) [] [] seen
  | above {seen : List Id} {t : Id} : t ∉ seen → t ∈ stack →
      Expands x includePrivate stack seen (.target t) [] [] (t :: seen)
  | noModule {seen : List Id} {t : Id} : t ∉ seen → t ∉ stack →
      (∀ b, x.items.payload? t ≠ some (.module b)) →
      Expands x includePrivate stack seen (.target t) [] [] (t :: seen)
  | opens {seen seen' opened : List Id} {t : Id} {b : ModuleBody} {cs : List Candidate} :
      t ∉ seen → t ∉ stack → x.items.payload? t = some (.module b) →
      Expands x includePrivate stack (t :: seen) (.ids b.items) opened cs seen' →
      Expands x includePrivate stack seen (.target t) (t :: opened) cs seen'
  | done {seen : List Id} : Expands x includePrivate stack seen (.ids []) [] [] seen
  | item {seen seen' opened rest : List Id} {id : Id} {cs : List Candidate} :
      (∀ t, ¬ x.IsGlobOf includePrivate id t) →
      Expands x includePrivate stack seen (.ids rest) opened cs seen' →
      Expands x includePrivate stack seen (.ids (id :: rest)) opened
        (ownCandidates x includePrivate true id ++ cs) seen'
  | glob {seen mid seen' opened opened' rest : List Id} {id t : Id} {cs cs' : List Candidate} :
      x.IsGlobOf includePrivate id t →
      Expands x includePrivate stack seen (.target t) opened cs mid →
      Expands x includePrivate stack mid (.ids rest) opened' cs' seen' →
      Expands x includePrivate stack seen (.ids (id :: rest)) (opened ++ opened') (cs ++ cs') seen'

section

variable {call : GlobCall} {seen' opened : List Id} {cs : List Candidate}

/-- What is met stays met, and what is opened is met. -/
theorem Expands.met (h : Expands x includePrivate stack seen call opened cs seen') :
    seen ⊆ seen' ∧ opened ⊆ seen' := by
  induction h with
  | again _ => exact ⟨List.Subset.refl _, List.nil_subset _⟩
  | above _ _ => exact ⟨List.subset_cons_self _ _, List.nil_subset _⟩
  | noModule _ _ _ => exact ⟨List.subset_cons_self _ _, List.nil_subset _⟩
  | opens _ _ _ _ ih =>
    exact ⟨List.Subset.trans (List.subset_cons_self _ _) ih.1,
      List.cons_subset.2 ⟨ih.1 List.mem_cons_self, ih.2⟩⟩
  | done => exact ⟨List.Subset.refl _, List.nil_subset _⟩
  | item _ _ ih => exact ih
  | glob _ _ _ ih ih' =>
    exact ⟨List.Subset.trans ih.1 ih'.1,
      List.append_subset.2 ⟨List.Subset.trans ih.2 ih'.1, ih'.2⟩⟩

/-- Only modules are opened, ones that were not met before and do not stand above. -/
theorem Expands.fresh (h : Expands x includePrivate stack seen call opened cs seen') :
    ∀ id ∈ opened, id ∈ x.moduleIds ∧ id ∉ stack ∧ id ∉ seen := by
  induction h with
  | again _ => exact List.forall_mem_nil _
  | above _ _ => exact List.forall_mem_nil _
  | noModule _ _ _ => exact List.forall_mem_nil _
  | opens hseen hstack hmod _ ih =>
    refine List.forall_mem_cons.2 ⟨⟨Export.mem_moduleIds_of_module hmod, hstack, hseen⟩, ?_⟩
    intro id hid
    obtain ⟨hmodule, habove, hmet⟩ := ih id hid
    exact ⟨hmodule, habove, fun hmem => hmet (List.mem_cons_of_mem _ hmem)⟩
  | done => exact List.forall_mem_nil _
  | item _ _ ih => exact ih
  | glob _ hfirst _ ih ih' =>
    intro id hid
    rcases List.mem_append.1 hid with hid | hid
    · exact ih id hid
    · obtain ⟨hmodule, habove, hmet⟩ := ih' id hid
      exact ⟨hmodule, habove, fun hmem => hmet (hfirst.met.1 hmem)⟩

/-- No module is opened twice. -/
theorem Expands.nodup (h : Expands x includePrivate stack seen call opened cs seen') :
    opened.Nodup := by
  induction h with
  | again _ => exact List.nodup_nil
  | above _ _ => exact List.nodup_nil
  | noModule _ _ _ => exact List.nodup_nil
  | opens _ _ _ hlist ih =>
    exact List.nodup_cons.2 ⟨fun hmem => (hlist.fresh _ hmem).2.2 List.mem_cons_self, ih⟩
  | done => exact List.nodup_nil
  | item _ _ ih => exact ih
  | glob _ hfirst hrest ih ih' =>
    refine List.nodup_append.2 ⟨ih, ih', fun a ha b hb hab => ?_⟩
    exact (hrest.fresh b hb).2.2 (hfirst.met.2 (hab ▸ ha))

end

theorem unseen_le_of_subset (items : Items) {seen seen' : List Id} (h : seen ⊆ seen') :
    unseen items seen' ≤ unseen items seen := by
  refine (List.monotone_filter_right items.ids fun id hid => ?_).length_le
  simp only [Bool.not_eq_true', List.contains_eq_mem, decide_eq_false_iff_not] at hid ⊢
  exact fun hmem => hid (h hmem)

/-- A call for the target of a glob ends if the list of a module that is met for the first time
ends. -/
theorem exists_expands_target (stack seen : List Id) (t : Id)
    (hlist : t ∉ seen → ∀ b, x.items.payload? t = some (.module b) → ∃ opened cs seen',
      Expands x includePrivate stack (t :: seen) (.ids b.items) opened cs seen') :
    ∃ opened cs seen', Expands x includePrivate stack seen (.target t) opened cs seen' := by
  by_cases hseen : t ∈ seen
  · exact ⟨_, _, _, .again hseen⟩
  by_cases hstack : t ∈ stack
  · exact ⟨_, _, _, .above hseen hstack⟩
  by_cases hmod : ∃ b, x.items.payload? t = some (.module b)
  · obtain ⟨b, hb⟩ := hmod
    obtain ⟨opened, cs, seen', hids⟩ := hlist hseen b hb
    exact ⟨_, _, _, .opens hseen hstack hb hids⟩
  · exact ⟨_, _, _, .noModule hseen hstack (not_exists.1 hmod)⟩

/-- Every list is gone through to its end: less ids are left to meet at each module that is
opened, and the list gets shorter otherwise. -/
theorem exists_expands_ids (stack seen ids : List Id) :
    ∃ opened cs seen', Expands x includePrivate stack seen (.ids ids) opened cs seen' := by
  induction hn : unseen x.items seen using Nat.strongRecOn generalizing seen ids with
  | ind n ihn =>
    have hmore {t : Id} {seen' : List Id} (hle : unseen x.items seen' ≤ n) (hmet : t ∉ seen')
        (b : ModuleBody) (hb : x.items.payload? t = some (.module b)) : ∃ opened cs seen'',
        Expands x includePrivate stack (t :: seen') (.ids b.items) opened cs seen'' := by
      obtain ⟨y, hy, -⟩ := Option.map_eq_some_iff.1 hb
      have hlt := unseen_cons_lt (Items.mem_ids_of_get? hy) hmet
      exact ihn _ (Nat.lt_of_lt_of_le hlt hle) _ _ rfl
    have hle : unseen x.items seen ≤ n := Nat.le_of_eq hn
    clear hn
    induction ids generalizing seen with
    | nil => exact ⟨_, _, _, .done⟩
    | cons id rest ih =>
      by_cases hglob : ∃ t, x.IsGlobOf includePrivate id t
      · obtain ⟨t, ht⟩ := hglob
        obtain ⟨opened, cs, mid, hfirst⟩ := exists_expands_target stack seen t (hmore hle)
        have hmid := unseen_le_of_subset x.items hfirst.met.1
        obtain ⟨opened', cs', seen', hrest⟩ := ih mid (Nat.le_trans hmid hle)
        exact ⟨_, _, _, .glob ht hfirst hrest⟩
      · obtain ⟨opened, cs, seen', hrest⟩ := ih seen hle
        exact ⟨_, _, _, .item (not_exists.1 hglob) hrest⟩

/-! ## What the walk lists -/

/-- What is listed from a call, in front of ids still to be looked at. -/
def GlobCall.Lists (x : Export) (includePrivate : Bool) (stack seen : List Id) (call : GlobCall)
    (cs : List Candidate) (seen' : List Id) : Prop :=
  match call with
  | .target t => ∀ id rest, x.IsGlobOf includePrivate id t →
      listGlobs x includePrivate stack seen (id :: rest) =
        cs ++ listGlobs x includePrivate stack seen' rest
  | .ids js => ∀ rest, listGlobs x includePrivate stack seen (js ++ rest) =
      cs ++ listGlobs x includePrivate stack seen' rest

/-- The calls list what the walk over all ids to come lists. -/
theorem Expands.lists {call : GlobCall} {opened seen' : List Id} {cs : List Candidate}
    (h : Expands x includePrivate stack seen call opened cs seen') :
    call.Lists x includePrivate stack seen cs seen' := by
  induction h with
  | again hseen =>
    intro id rest hglob
    rw [listGlobs_cons_of_glob rest hglob, if_pos hseen, List.nil_append]
  | above hseen hstack =>
    intro id rest hglob
    rw [listGlobs_cons_of_glob rest hglob, if_neg hseen, if_pos hstack, List.nil_append]
  | noModule hseen hstack hno =>
    intro id rest hglob
    rw [listGlobs_cons_of_glob rest hglob, if_neg hseen, if_neg hstack, Export.listed_eq_nil hno,
      List.nil_append, List.nil_append]
  | opens hseen hstack hmod _ ih =>
    intro id rest hglob
    rw [listGlobs_cons_of_glob rest hglob, if_neg hseen, if_neg hstack, Export.listed_module hmod]
    exact ih rest
  | done => exact fun rest => rfl
  | item hno _ ih =>
    intro rest
    rw [List.cons_append, listGlobs_cons_of_item _ hno, ih rest, List.append_assoc]
  | glob hglob _ _ ih ih' =>
    intro rest
    rw [List.cons_append, ih _ _ hglob, ih' rest, List.append_assoc]

/-- A call for a glob of a module lists what the module's glob lists. -/
theorem Expands.eq_listGlob {t : Id} {opened seen' : List Id} {cs : List Candidate}
    (h : Expands x includePrivate stack [] (.target t) opened cs seen') :
    cs = listGlob x includePrivate stack t := by
  unfold listGlob
  cases h with
  | again hseen => exact absurd hseen List.not_mem_nil
  | above _ hstack => rw [if_pos (List.contains_iff_mem.2 hstack)]
  | noModule _ hstack hno =>
    rw [if_neg (List.contains_iff_mem.not.2 hstack)]
    split
    · next b hb => exact absurd hb (hno b)
    · rfl
  | @opens _ _ _ _ b _ _ hstack hmod hids =>
    have hlists := hids.lists []
    rw [List.append_nil, listGlobs, List.append_nil] at hlists
    simp only [List.contains_iff_mem, hstack, if_false, hmod, hlists]

/-! ## The walk over modules -/

/-- How placing candidates at a node ends, module by module. -/
inductive Places (x : Export) (includePrivate : Bool) :
    List Id → List String → Growth → List Candidate → Growth → Prop
  | done {stack : List Id} {path : List String} {g : Growth} :
      Places x includePrivate stack path g [] g
  | reexport {stack : List Id} {path : List String} {g g' : Growth} {r : ReExport}
      {rest : List Candidate} :
      Places x includePrivate stack path { g with reexports := g.reexports ++ [r] } rest g' →
      Places x includePrivate stack path g (.reexport r :: rest) g'
  | member {stack : List Id} {path : List String} {g g' : Growth} {id : Id} {name : String}
      {via : Bool} {rest : List Candidate} :
      Places x includePrivate stack path (g.addMember ⟨id, path ++ [name], via⟩) rest g' →
      Places x includePrivate stack path g (.member id name via :: rest) g'
  | skipped {stack : List Id} {path : List String} {g g' : Growth} {id : Id} {name : String}
      {via : Bool} {rest : List Candidate} :
      id ∉ x.items.ids ∨ id ∈ stack ∨ g.hasChild (path ++ [name]) = true →
      Places x includePrivate stack path g rest g' →
      Places x includePrivate stack path g (.module id name via :: rest) g'
  | entered {stack : List Id} {path : List String} {g inner g' : Growth} {id : Id} {name : String}
      {via : Bool} {rest : List Candidate} :
      id ∈ x.items.ids → id ∉ stack → g.hasChild (path ++ [name]) = false →
      Places x includePrivate (id :: stack) (path ++ [name])
        { placements := g.placements.add ⟨id, path ++ [name], via⟩ }
        (candidates x includePrivate (id :: stack) id) inner →
      Places x includePrivate stack path { g with
        placements := inner.placements
        children := g.children ++ [inner.node id (path ++ [name])] } rest g' →
      Places x includePrivate stack path g (.module id name via :: rest) g'

/-- Placing candidates ends, whatever stands above. -/
theorem places_place (stack : List Id) (path : List String) (g : Growth) (cs : List Candidate) :
    Places x includePrivate stack path g cs (place x includePrivate stack path g cs) := by
  fun_induction place x includePrivate stack path g cs with
  | case1 stack path g => exact .done
  | case2 stack path g r rest ih => exact .reexport ih
  | case3 stack path g id name via rest ih => exact .member ih
  | case4 stack path g id name via rest childPath hid hchild ih =>
    exact .skipped (.inr (.inr hchild)) ih
  | case5 stack path g id name via rest childPath hid hchild inner ihin _ ih =>
    exact .entered hid.1 hid.2 (by simpa using hchild) ihin ih
  | case6 stack path g id name via rest hid ih =>
    refine .skipped ?_ ih
    rcases not_and_or.1 hid with hid | hid
    · exact .inl hid
    · exact .inr (.inl (not_not.1 hid))

/-- A run has no children that stand above it. -/
theorem id_notMem_of_mem_children {stack : List Id} {path : List String} {g : Growth}
    {cs : List Candidate} (h : ∀ c ∈ g.children, c.id ∉ stack) :
    ∀ c ∈ (place x includePrivate stack path g cs).children, c.id ∉ stack := by
  fun_induction place x includePrivate stack path g cs with
  | case1 stack path g => exact h
  | case2 stack path g r rest ih => exact ih h
  | case3 stack path g id name via rest ih =>
    refine ih ?_
    unfold Growth.addMember
    split <;> exact h
  | case4 stack path g id name via rest childPath hid hchild ih => exact ih h
  | case5 stack path g id name via rest childPath hid hchild inner ihin _ ih =>
    refine ih fun c hc => ?_
    rcases List.mem_append.1 hc with hc | hc
    · exact h c hc
    · rw [List.mem_singleton.1 hc]
      exact hid.2
  | case6 stack path g id name via rest hid ih => exact ih h

section

variable {ids : List Id} {n : Node}

/-- From a node up to the root, no module comes twice. -/
theorem nodup_lineage (h : (ofExport x includePrivate).root.Lineage ids n) : ids.Nodup := by
  induction h with
  | root => exact List.nodup_singleton _
  | @child ids n c hn hc ih =>
    refine List.nodup_cons.2 ⟨?_, ih⟩
    cases grownBy_lineage x includePrivate hn with
    | run hg _ _ =>
      have hmem := List.mem_mergeSort.1 hc
      rw [hg] at hmem
      exact id_notMem_of_mem_children (List.forall_mem_nil _) c hmem

/-- Below the root all nodes are of modules; the root may stand alone. -/
theorem lineage_modules (h : (ofExport x includePrivate).root.Lineage ids n) :
    ids = [x.package.rootId] ∨ ∀ id ∈ ids, id ∈ x.moduleIds := by
  by_cases hroot : ∃ b, x.items.payload? x.package.rootId = some (.module b)
  · obtain ⟨b, hb⟩ := hroot
    right
    induction h with
    | root => exact fun id hid => List.mem_singleton.1 hid ▸ Export.mem_moduleIds_of_module hb
    | child hn hc ih =>
      refine List.forall_mem_cons.2 ⟨?_, ih⟩
      obtain ⟨y, hy, hmod⟩ := (grown_modules x includePrivate _ hn.mem_walk).children_known _ hc
      exact Export.mem_moduleIds hy hmod
  · left
    have halone := (modules_of_not_module x includePrivate (not_exists.1 hroot)).1
    cases h with
    | root => rfl
    | @child ids m _ hn hc =>
      have hnode := hn.mem_walk
      rw [← Tree.modules, halone, List.mem_singleton] at hnode
      have hnone : Node.walkAll (ofExport x includePrivate).root.children = [] := by
        rw [Tree.modules, Node.walk_eq_cons] at halone
        exact (List.cons.inj halone).2
      have hbelow := Node.mem_walkAll.2 ⟨n, hnode ▸ hc, n.self_mem_walk⟩
      rw [hnone] at hbelow
      exact absurd hbelow List.not_mem_nil

/-- No branch holds more nodes than there are modules, but for a root without any. -/
theorem length_lineage_le (h : (ofExport x includePrivate).root.Lineage ids n) :
    ids.length ≤ max 1 x.moduleIds.length := by
  rcases lineage_modules h with rfl | hmods
  · exact Nat.le_max_left _ _
  · have hle : ids.length ≤ x.moduleIds.length :=
      ((nodup_lineage h).subperm hmods).length_le
    exact Nat.le_trans hle (Nat.le_max_right _ _)

end

/-- Growing the tree of an export ends. A branch meets no module twice, so it is no longer than
there are modules; neither does a glob open one twice. -/
theorem ends_ofExport (x : Export) (includePrivate : Bool) :
    (∃ g, Places x includePrivate [x.package.rootId] (rootPath x)
        { placements := ({} : PlacementMap).add ⟨x.package.rootId, rootPath x, false⟩ }
        (candidates x includePrivate [x.package.rootId] x.package.rootId) g ∧
      ofExport x includePrivate = ⟨g.placements, g.node x.package.rootId (rootPath x)⟩) ∧
    (∀ ids n, (ofExport x includePrivate).root.Lineage ids n →
      ids.Nodup ∧ ids.length ≤ max 1 x.moduleIds.length) ∧
    ∀ stack t,
      (∃ opened cs seen, Expands x includePrivate stack [] (.target t) opened cs seen) ∧
      ∀ opened cs seen, Expands x includePrivate stack [] (.target t) opened cs seen →
        cs = listGlob x includePrivate stack t ∧ opened.Nodup ∧
          ∀ id ∈ opened, id ∈ x.moduleIds ∧ id ∉ stack := by
  refine ⟨⟨_, places_place _ _ _ _, rfl⟩, fun ids n h => ⟨nodup_lineage h, length_lineage_le h⟩, ?_⟩
  refine fun stack t => ⟨exists_expands_target stack [] t fun _ b _ => exists_expands_ids _ _ _, ?_⟩
  intro opened cs seen h
  refine ⟨h.eq_listGlob, h.nodup, fun id hid => ?_⟩
  obtain ⟨hmod, habove, -⟩ := h.fresh id hid
  exact ⟨hmod, habove⟩

end Tree

end CrateBook
