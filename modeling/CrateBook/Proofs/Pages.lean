import CrateBook.Proofs.Nodes
import CrateBook.Proofs.Sections
import Mathlib.Data.List.Perm.Basic

/-!
# The marks of pages

What the pages of a site leave: for each placement that a module shows in full, the section
of its item if the placement is the primary one, or else an entry that leads there. Grouping
by kind changes the order of the marks and nothing else.
-/
namespace CrateBook

open Noting (Leaves)

open OnPage (Marks marks_pure marks_lift marks_mapM marks_forM unmarked_mapM unmarked_forM)

/-- Groups by distinct keys hold together what was grouped. -/
theorem perm_flatMap_filter {α κ : Type} [BEq κ] [LawfulBEq κ] {f : α → κ} {ks : List κ}
    (hks : ks.Nodup) {as : List α} (h : ∀ a ∈ as, f a ∈ ks) :
    (ks.flatMap fun k => as.filter fun a => f a == k).Perm as := by
  induction ks generalizing as with
  | nil =>
    cases as with
    | nil => exact .nil
    | cons a as => exact absurd (h a List.mem_cons_self) List.not_mem_nil
  | cons k ks ih =>
    rw [List.nodup_cons] at hks
    have hrest : ∀ a ∈ as.filter (fun a => !(f a == k)), f a ∈ ks := by
      intro a ha
      obtain ⟨ha, hne⟩ := List.mem_filter.1 ha
      exact (List.mem_cons.1 (h a ha)).resolve_left (by simpa using hne)
    have hfilter : (ks.flatMap fun j => (as.filter fun a => !(f a == k)).filter
        fun a => f a == j) = ks.flatMap fun j => as.filter fun a => f a == j := by
      refine List.flatMap_congr fun j hj => ?_
      rw [List.filter_filter]
      refine List.filter_congr fun a _ => ?_
      by_cases hkey : f a = j
      · have hne : f a ≠ k := fun heq => hks.1 (heq ▸ hkey ▸ hj)
        simp [hkey, hkey ▸ hne]
      · simp [hkey]
    rw [List.flatMap_cons, ← hfilter]
    exact ((ih hks.2 hrest).append_left _).trans (List.filter_append_perm _ _)

theorem groupTitle_mem (kind : String) : groupTitle kind ∈ groupOrder := by
  unfold groupTitle
  cases hlookup : groupTitles.lookup kind with
  | none => simp [groupOrder]
  | some title =>
    have hmem := mem_of_lookup_eq_some hlookup
    have htitle : title ∈ groupTitles.map (·.2) := List.mem_map_of_mem hmem
    simp [groupOrder, htitle]

theorem nodup_groupOrder : groupOrder.Nodup := by decide

namespace Site

variable (s : Site)

/-- The marks of a placement that a module shows in full. -/
def placementMarks (p : Placement) : List Note :=
  if s.tree.placements.isPrimary p then
    match s.source.items.get? p.itemId with
    | none => []
    | some x =>
      .section_ x.id (s.layout.anchorFor p.itemId) ::
        s.memberMarks (s.layout.anchorFor p.itemId) x
  else [.entry p (s.hrefOf p.itemId)]

def kindedMembers (n : Node) : List (Placement × String) :=
  n.members.map fun p => (p, Layout.kindOf s.source p.itemId)

/-- The marks of the items of a module, group by group. -/
def contentMarks (n : Node) : List Note :=
  groupOrder.flatMap fun title =>
    (membersUnder title (s.kindedMembers n)).flatMap s.placementMarks

/-- The groups of a module hold its members together. -/
theorem perm_membersUnder (n : Node) :
    (groupOrder.flatMap fun title => membersUnder title (s.kindedMembers n)).Perm n.members := by
  have htitle : ∀ m ∈ s.kindedMembers n, groupTitle m.2 ∈ groupOrder :=
    fun m _ => groupTitle_mem m.2
  have hgroups := perm_flatMap_filter nodup_groupOrder htitle
  have hmap := hgroups.map Prod.fst
  rw [List.map_flatMap] at hmap
  refine hmap.trans ?_
  rw [kindedMembers, List.map_map]
  exact .of_eq (List.map_id n.members)

theorem membersUnder_subset (n : Node) (title : String) :
    membersUnder title (s.kindedMembers n) ⊆ n.members := by
  intro p hp
  obtain ⟨m, hm, rfl⟩ := List.mem_map.1 hp
  obtain ⟨q, hq, rfl⟩ := List.mem_map.1 (List.mem_filter.1 hm).1
  exact hq

theorem perm_contentMarks (n : Node) :
    (s.contentMarks n).Perm (n.members.flatMap s.placementMarks) := by
  rw [contentMarks, ← List.flatMap_assoc]
  exact (s.perm_membersUnder n).flatMap_right _

section

variable {fine : Prop} {α β : Type} {more : List Note}

/-- An item is found on a site just if the export has it. -/
theorem item_eq_ok {id : Id} {x : Item} :
    (s.item id).result = .ok x ↔ s.source.items.get? id = some x := by
  unfold item
  cases s.source.items.get? id with
  | none => simp [Noting.fail]
  | some y => simp

theorem leaves_item {id : Id} (h : fine → ∃ x, s.source.items.get? id = some x) :
    Leaves fine [] (s.item id) := by
  refine Noting.Quiet.leaves ?_ fun hfine => ?_
  · unfold item
    split
    · exact Noting.quiet_pure _
    · intro n hn
      exact absurd hn List.not_mem_nil
  · obtain ⟨x, hx⟩ := h hfine
    exact ⟨x, s.item_eq_ok.2 hx⟩

/-- A step on an item that is looked up first. -/
theorem marks_withItem {id : Id} (h : fine → ∃ x, s.source.items.get? id = some x)
    {f : Item → OnPage β}
    (hf : ∀ x, s.source.items.get? id = some x → Marks fine more (f x)) :
    Marks fine more ((liftM (s.item id) : OnPage Item) >>= f) := by
  refine (marks_lift (s.leaves_item h)).bind fun x hx => hf x ?_
  obtain ⟨p, q, hx⟩ := hx
  exact s.item_eq_ok.1 (OnPage.run_lift_eq_ok.1 hx).1

theorem marks_moduleName (n : Node) : Marks fine [] (s.moduleName n) :=
  (marks_addLinks _).after fun _ => marks_pure _

theorem marks_crumbs (above path : List String) : Marks fine [] (s.crumbs above path) := by
  induction path generalizing above with
  | nil => exact marks_pure _
  | cons segment rest ih =>
    exact (marks_addLinks _).after fun _ => (ih _).after fun _ => marks_pure _

theorem marks_moduleLine (modulePath : List String) :
    Marks fine [] (s.moduleLine modulePath) :=
  ((s.marks_crumbs _ _).after fun _ => marks_pure _).after fun _ => marks_addLines _

theorem marks_otherPlacements (p : Placement) : Marks fine [] (s.otherPlacements p) := by
  unfold otherPlacements
  dsimp only
  split
  · exact marks_addLines _
  · exact marks_pure _

theorem marks_contents (modules : List Node) : Marks fine [] (s.contents modules) := by
  unfold contents
  split
  · exact marks_pure _
  · exact (marks_heading _ _ _).after fun _ => (unmarked_forM fun n _ =>
      (s.marks_moduleName n).after fun _ => marks_addLines _).after fun _ => marks_addLines _

end

/-- The entry of a placement leaves its mark. -/
theorem marks_elsewhereEntry (p : Placement) :
    Marks s.Writable [.entry p (s.hrefOf p.itemId)] (s.elsewhereEntry p) := by
  refine (marks_lift (s.leaves_ask _ _)).bind fun href hhref => ?_
  obtain ⟨page, q, hhref⟩ := hhref
  have hask : (s.ask (some p.itemId) p.name).result = .ok (s.hrefOf p.itemId) := rfl
  obtain rfl := Except.ok.inj (hask.symm.trans (OnPage.run_lift_eq_ok.1 hhref).1)
  exact (marks_addLinks _).after fun _ => (marks_lift (Noting.leaves_mark rfl)).andThen
    fun _ => marks_pure _

section

variable {s}

theorem withKind_eq_ok {p : Placement} {m : Placement × String}
    (h : (s.withKind p).result = .ok m) : m = (p, Layout.kindOf s.source p.itemId) := by
  obtain ⟨x, hx, heq⟩ := Noting.bind_eq_ok.1 h
  cases heq
  rw [Layout.kindOf, s.item_eq_ok.1 hx]

theorem mapM_withKind_eq_ok {ps : List Placement} {ms : List (Placement × String)} {p q : Page}
    (h : ((ps.mapM fun r => (do s.withKind r : OnPage _)).run p).result = .ok (ms, q)) :
    ms = ps.map fun r => (r, Layout.kindOf s.source r.itemId) := by
  induction ps generalizing ms p q with
  | nil =>
    cases h
    rfl
  | cons r ps ih =>
    rw [List.mapM_cons] at h
    obtain ⟨⟨m, p'⟩, hm, h⟩ := Noting.bind_eq_ok.1 h
    obtain ⟨⟨ms', p''⟩, hms, h⟩ := Noting.bind_eq_ok.1 h
    cases h
    rw [withKind_eq_ok (OnPage.run_lift_eq_ok.1 hm).1, ih hms, List.map_cons]

theorem marks_moduleIntro {n : Node}
    (hself : s.Writable → ∃ x, s.source.items.get? n.id = some x) :
    Marks s.Writable [] (s.moduleIntro n) := by
  have hdocs : Marks s.Writable [] (do s.docsBlock (← s.item n.id)) :=
    s.marks_withItem hself fun x _ => s.marks_docsBlock x
  unfold moduleIntro
  split
  · dsimp only
    split
    · exact (s.marks_linkTo _ _).after fun _ => (marks_addLines _).after fun _ => hdocs
    · exact hdocs
  · exact hdocs

end

section

variable {s} {n : Node} (hgrown : n.Grown s.source)

include hgrown

/-- Every member of a node is known to the export. -/
theorem known_member {p : Placement} (hp : p ∈ n.members) :
    ∃ x, s.source.items.get? p.itemId = some x := by
  obtain ⟨x, hx, -⟩ := hgrown.members_known p hp
  exact ⟨x, hx⟩

theorem marks_childModules (level : Int) : Marks s.Writable [] (s.childModules level n) := by
  unfold childModules
  split
  · exact marks_pure _
  · refine (unmarked_mapM fun c hc => ?_).after fun rows =>
      (marks_heading _ _ _).after fun _ => marks_addLines _
    obtain ⟨y, hy, -⟩ := hgrown.children_known c hc
    exact (s.marks_moduleName c).after fun _ => s.marks_withItem (fun _ => ⟨y, hy⟩)
      fun x _ => (s.marks_summary x).after fun _ => marks_pure _

/-- A member is written in full, or listed. -/
theorem marks_inlineMember (level : Int) {p : Placement} (hp : p ∈ n.members) :
    Marks s.Writable (s.placementMarks p) (s.inlineMember level p) := by
  obtain ⟨x, hx⟩ := known_member hgrown hp
  unfold inlineMember placementMarks
  split
  · rw [hx]
    refine s.marks_withItem (fun _ => ⟨x, hx⟩) fun y hy => ?_
    obtain rfl := Option.some.inj (hx.symm.trans hy)
    exact (s.marks_itemSection hx _ _).andThen fun _ => marks_pure _
  · exact (s.marks_elsewhereEntry p).andThen fun _ => marks_pure _

theorem marks_inlineMembers (level : Int) {ps : List Placement} (hps : ps ⊆ n.members) :
    Marks s.Writable (ps.flatMap s.placementMarks) (s.inlineMembers level ps) := by
  refine (marks_mapM fun p hp => marks_inlineMember hgrown level (hps hp)).andThen
    fun entries => ?_
  dsimp only
  split
  · exact marks_addLines _
  · exact marks_pure _

theorem marks_itemRows {ps : List Placement} (hps : ps ⊆ n.members) :
    Marks s.Writable [] (ps.mapM s.itemRow) := by
  refine unmarked_mapM fun p hp => ?_
  obtain ⟨y, hy⟩ := known_member hgrown (hps hp)
  exact (s.marks_linkTo _ _).after fun _ => s.marks_withItem (fun _ => ⟨y, hy⟩)
    fun x _ => (s.marks_summary x).after fun _ => marks_pure _

theorem marks_reexports (level : Int) : Marks s.Writable [] (s.reexports level n) := by
  unfold reexports
  split
  · exact marks_pure _
  · refine (marks_heading _ _ _).after fun _ => (unmarked_forM fun r hr => ?_).after
      fun _ => marks_addLines _
    obtain ⟨y, hy, -⟩ := hgrown.reexports_known r hr
    exact s.marks_withItem (fun _ => ⟨y, hy⟩) fun x hx =>
      (marks_lift (leaves_render hx)).after fun _ => (marks_lift (s.leaves_ask _ _)).after
        fun _ => (marks_addLinks _).after fun _ => marks_addLines _

theorem marks_memberGroupOf (level : Int) (inFull : Bool) (title : String) :
    Marks s.Writable
      (if inFull then (membersUnder title (s.kindedMembers n)).flatMap s.placementMarks else [])
      (s.memberGroupOf level inFull (s.kindedMembers n) title) := by
  unfold memberGroupOf
  have hsub := s.membersUnder_subset n title
  generalize membersUnder title (s.kindedMembers n) = ps at hsub
  cases inFull with
  | true =>
    simp only [if_true]
    split
    · next hempty =>
      have hnil : ps = [] := by simpa using hempty
      rw [hnil]
      exact marks_pure _
    · exact (marks_heading _ _ _).after fun _ => marks_inlineMembers hgrown _ hsub
  | false =>
    simp only [Bool.false_eq_true, if_false]
    split
    · exact marks_pure _
    · exact (marks_heading _ _ _).after fun _ => (marks_itemRows hgrown hsub).after
        fun _ => marks_addLines _

/-- The items of a module leave their marks where the module shows them in full. -/
theorem marks_moduleContents (level : Int) (inFull : Bool) :
    Marks s.Writable (if inFull then s.contentMarks n else [])
      (s.moduleContents level inFull n) := by
  have hkinds : Marks s.Writable [] (n.members.mapM fun p => (do s.withKind p : OnPage _)) := by
    refine unmarked_mapM fun p hp => marks_lift ?_
    exact (s.leaves_item fun _ => known_member hgrown hp).after fun _ _ => Noting.leaves_pure _
  have hgroups : Marks s.Writable (if inFull then s.contentMarks n else [])
      (groupOrder.forM (s.memberGroupOf level inFull (s.kindedMembers n))) := by
    have hforM := marks_forM fun title (_ : title ∈ groupOrder) =>
      marks_memberGroupOf hgrown level inFull title
    cases inFull with
    | true => exact hforM
    | false =>
      have hnil : (groupOrder.flatMap fun _ => ([] : List Note)) = [] := by simp
      exact hnil ▸ hforM
  generalize (if inFull then s.contentMarks n else []) = marks at hgroups ⊢
  refine hkinds.bind fun members hmembers => ?_
  obtain ⟨p, q, hmembers⟩ := hmembers
  obtain rfl := mapM_withKind_eq_ok hmembers
  exact hgroups.andThen fun _ => marks_reexports hgrown level

variable (hself : s.Writable → ∃ x, s.source.items.get? n.id = some x)

include hself

theorem marks_modulePage (title : String) :
    Marks s.Writable (if s.options.mode == .module then s.contentMarks n else [])
      (s.modulePage title n) := by
  have hrest : Marks s.Writable (if s.options.mode == .module then s.contentMarks n else [])
      (do
        heading 1 ((if n.path.length == 1 then "Crate" else "Module") ++ " " ++ n.name) none
        s.moduleIntro n
        s.childModules 2 n
        s.moduleContents 2 (s.options.mode == .module) n) :=
    (marks_heading _ _ _).after fun _ => (marks_moduleIntro hself).after fun _ =>
      (marks_childModules hgrown 2).after fun _ => marks_moduleContents hgrown 2 _
  generalize (if s.options.mode == .module then s.contentMarks n else []) = marks at hrest ⊢
  refine (marks_addLines _).after fun _ => ?_
  dsimp only
  split
  · exact (s.marks_moduleLine _).after fun _ => hrest
  · exact hrest

theorem marks_moduleSection : Marks s.Writable (s.contentMarks n) (s.moduleSection n) :=
  (marks_heading _ _ _).after fun _ => (marks_moduleIntro hself).after fun _ =>
    marks_moduleContents hgrown 3 true

end

end Site

end CrateBook
