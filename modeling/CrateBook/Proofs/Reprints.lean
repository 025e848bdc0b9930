import CrateBook.Conversion
import CrateBook.Proofs.HiddenSections
import CrateBook.Proofs.Pages

/-!
# Conversions do not tell of a hidden item

The pages of a plan write the members, the re-exports and the docs of modules, and a hidden
item is none of these. So each document is written again as it was when the item is swapped,
and so is the navigation, which reads no items, and the report, which reads where ids lead.
-/
namespace CrateBook

/-- Steps that go on in the same way from what a step gives are the same. -/
theorem OnPage.bind_congr {α β : Type} {x : OnPage α} {f g : α → OnPage β}
    (h : ∀ a p q, (x.run p).result = .ok (a, q) → f a = g a) : x >>= f = x >>= g := by
  funext p
  have hbind (f : α → OnPage β) : (x >>= f) p = x.run p >>= fun r => f r.1 r.2 := rfl
  rw [hbind, hbind]
  cases hx : (x.run p).result with
  | error e => rw [Noting.bind_error hx, Noting.bind_error hx]
  | ok r => rw [Noting.bind_ok hx, Noting.bind_ok hx, h r.1 p r.2 hx]

namespace Site.Swap

variable {s : Site} {y z : Item} (h : s.Swap y z)

include h

theorem item_replace {id : Id} (hid : id ≠ y.id) : (s.replace z).item id = s.item id := by
  have hget : (s.replace z).source.items.get? id = s.source.items.get? id :=
    h.items.get?_of_ne hid
  unfold item
  rw [hget]

/-- Steps on any other item stay as they are if they do so for what is found. -/
theorem item_bind_replace {β : Type} {id : Id} (hid : id ≠ y.id) {f g : Item → OnPage β}
    (hfg : ∀ c, s.source.items.get? id = some c → f c = g c) :
    (liftM ((s.replace z).item id) : OnPage Item) >>= f = liftM (s.item id) >>= g := by
  rw [h.item_replace hid]
  exact OnPage.bind_congr fun c p q hc => hfg c (s.item_eq_ok.1 (OnPage.run_lift_eq_ok.1 hc).1)

theorem inlineMember_replace (level : Int) {p : Placement} (hp : p.itemId ≠ y.id) :
    (s.replace z).inlineMember level p = s.inlineMember level p := by
  have htree : (s.replace z).tree = s.tree := rfl
  have hlayout : (s.replace z).layout = s.layout := rfl
  unfold inlineMember elsewhereEntry
  rw [htree, hlayout, h.ask_replace]
  refine ite_congr rfl (fun _ => ?_) fun _ => rfl
  exact h.item_bind_replace hp fun c hc => by rw [h.itemSection_replace hc]

theorem itemRow_replace {p : Placement} (hp : p.itemId ≠ y.id) :
    (s.replace z).itemRow p = s.itemRow p := by
  unfold itemRow
  rw [h.linkTo_replace, h.item_replace hp, h.summary_replace]

theorem memberGroupOf_replace (level : Int) (inFull : Bool) (members : List (Placement × String))
    (title : String) (hne : ∀ p ∈ membersUnder title members, p.itemId ≠ y.id) :
    (s.replace z).memberGroupOf level inFull members title =
      s.memberGroupOf level inFull members title := by
  have hsections : (membersUnder title members).mapM ((s.replace z).inlineMember (level + 1)) =
      (membersUnder title members).mapM (s.inlineMember (level + 1)) :=
    mapM_congr fun p hp => h.inlineMember_replace _ (hne p hp)
  have hrows : (membersUnder title members).mapM (s.replace z).itemRow =
      (membersUnder title members).mapM s.itemRow :=
    mapM_congr fun p hp => h.itemRow_replace (hne p hp)
  unfold memberGroupOf inlineMembers
  dsimp only
  rw [hsections, hrows]

section

variable {n : Node} (hn : n ∈ s.tree.modules)

include hn

theorem child_ne {c : Node} (hc : c ∈ n.children) : c.id ≠ y.id := by
  obtain ⟨m, hm, hmodule⟩ := (h.planned.grown n hn).children_known c hc
  refine h.items.ne_of_payload hm fun q hq => ?_
  generalize m.payload = p at hq hmodule
  cases hq <;> cases hmodule

theorem childModules_replace (level : Int) :
    (s.replace z).childModules level n = s.childModules level n := by
  have hrows : n.children.mapM (s.replace z).childRow = n.children.mapM s.childRow := by
    refine mapM_congr fun c hc => ?_
    have hname : (s.replace z).moduleName c = s.moduleName c := rfl
    unfold childRow
    rw [hname, h.item_replace (h.child_ne hn hc), h.summary_replace]
  unfold childModules
  rw [hrows]

theorem reexports_replace (level : Int) :
    (s.replace z).reexports level n = s.reexports level n := by
  have hlines : n.reexports.forM (s.replace z).reexport = n.reexports.forM s.reexport := by
    refine forM_congr fun r hr => ?_
    unfold reexport
    rw [h.ask_replace]
    exact h.item_bind_replace (h.reexport_ne hn hr) fun c hc => by rw [h.render_replace hc]
  unfold reexports
  rw [hlines]

/-- The items and re-exports of a module are written as before: a hidden item is none of
them. -/
theorem moduleContents_replace (level : Int) (inFull : Bool) :
    (s.replace z).moduleContents level inFull n = s.moduleContents level inFull n := by
  have hkinds : (n.members.mapM fun p => (do (s.replace z).withKind p : OnPage _)) =
      n.members.mapM fun p => (do s.withKind p : OnPage _) := by
    refine mapM_congr fun p hp => ?_
    unfold withKind
    rw [h.item_replace (h.member_ne hn hp)]
  unfold moduleContents
  rw [hkinds, h.reexports_replace hn]
  -- The groups are made from what the step before gives: the members with their kinds.
  refine OnPage.bind_congr fun members p q hmembers => ?_
  obtain rfl := mapM_withKind_eq_ok hmembers
  have hgroups : groupOrder.forM ((s.replace z).memberGroupOf level inFull (s.kindedMembers n)) =
      groupOrder.forM (s.memberGroupOf level inFull (s.kindedMembers n)) :=
    forM_congr fun title _ => h.memberGroupOf_replace level inFull _ title fun p hp =>
      h.member_ne hn (s.membersUnder_subset n title hp)
  exact congrArg (fun step => step >>= fun _ => s.reexports level n) hgroups

theorem moduleIntro_replace : (s.replace z).moduleIntro n = s.moduleIntro n := by
  have htree : (s.replace z).tree = s.tree := rfl
  unfold moduleIntro
  rw [htree, h.linkTo_replace, h.item_replace (h.module_ne hn), h.docsBlock_replace]

theorem modulePage_replace (title : String) :
    (s.replace z).modulePage title n = s.modulePage title n := by
  have hoptions : (s.replace z).options = s.options := rfl
  unfold modulePage
  rw [hoptions, moduleLine_replace, h.moduleIntro_replace hn, h.childModules_replace hn,
    h.moduleContents_replace hn]

theorem moduleSection_replace : (s.replace z).moduleSection n = s.moduleSection n := by
  have htree : (s.replace z).tree = s.tree := rfl
  have hlayout : (s.replace z).layout = s.layout := rfl
  unfold moduleSection
  rw [htree, hlayout, h.moduleIntro_replace hn, h.moduleContents_replace hn]

end

theorem packagePage_replace (title : String) :
    (s.replace z).packagePage title s.tree.root = s.packagePage title s.tree.root := by
  have hroot : s.tree.root ∈ s.tree.modules := Node.self_mem_walk _
  have hcontents : (s.replace z).contents = s.contents := rfl
  have htree : (s.replace z).tree = s.tree := rfl
  have hsections : s.tree.modules.tail.forM (s.replace z).moduleSection =
      s.tree.modules.tail.forM s.moduleSection :=
    forM_congr fun n hn => h.moduleSection_replace (List.mem_of_mem_tail hn)
  unfold packagePage
  dsimp only
  rw [htree, hcontents, h.moduleIntro_replace hroot, h.moduleContents_replace hroot, hsections]

theorem itemPage_replace (title : String) {p : Placement} (hp : p.itemId ≠ y.id) :
    (s.replace z).itemPage title p = s.itemPage title p := by
  have hothers : (s.replace z).otherPlacements = s.otherPlacements := rfl
  unfold itemPage
  rw [moduleLine_replace, hothers]
  exact h.item_bind_replace hp fun c hc => by rw [h.itemSection_replace hc]

theorem pageOf_replace {plan : FilePlan PageKind} (hplan : plan ∈ s.layout.files) :
    (s.replace z).pageOf plan = s.pageOf plan := by
  unfold pageOf
  rcases h.planned.page_cases hplan with ⟨-, hpage⟩ | ⟨n, hn, rfl⟩ | ⟨hmode, p, hpage⟩
  · rw [hpage]
    exact h.packagePage_replace _
  · exact h.modulePage_replace hn _
  · rw [hpage]
    have hp : p ∈ Layout.placementsOn s.tree s.options.mode plan.page := by
      rw [hpage, hmode]
      exact List.mem_singleton_self p
    obtain ⟨n, hn, hpn⟩ := h.planned.exists_node hplan hp
    exact h.itemPage_replace _ (h.member_ne hn hpn)

/-- All documents are written as before. -/
theorem documents_replace : (s.replace z).documents = s.documents := by
  refine mapM_congr fun plan hplan => ?_
  unfold document
  rw [h.pageOf_replace hplan]

/-- The report is the same for the same notes. -/
theorem enterAll_replace (r : Report) (notes : List Note) :
    (s.replace z).enterAll r notes = s.enterAll r notes :=
  List.foldl_ext _ _ _ fun r n _ => h.enter_replace r n

omit h in
theorem category_replace (ds : List Document) (n : Node) :
    (s.replace z).category ds n = s.category ds n := by
  induction n using Node.induction_children with
  | h n ih =>
    obtain ⟨id, path, children, members, reexports⟩ := n
    have hchildren : children.map ((s.replace z).category ds) = children.map (s.category ds) :=
      List.map_congr_left ih
    rw [category, category, categories_eq_map, categories_eq_map, hchildren]
    rfl

omit h in
/-- The navigation reads no items. -/
theorem navigation_replace (ds : List Document) :
    (s.replace z).navigation ds = s.navigation ds := category_replace ds s.tree.root

end Site.Swap

end CrateBook
