import CrateBook.Export.Reader
import CrateBook.Proofs.Declared
import CrateBook.Proofs.Memories
import CrateBook.Proofs.Pages
import CrateBook.Proofs.Plans
import CrateBook.Proofs.SampleCrates

/-!
# Planned sites

A site that was planned has the tree of its export and the sheets of its mode, and it
remembers nothing that it would not work out. All that is said about its pages rests on these
facts.
-/
namespace CrateBook

open Layout (Sheet addSheet sheets placementsOn)

/-- A site as planning makes it, whatever it was asked since. -/
structure Site.Planned (s : Site) : Prop where
  tree : s.tree = Tree.ofExport s.source s.options.includePrivate
  layout : s.layout = (sheets s.tree s.source s.options.mode).foldl addSheet
    { package := s.source.package.name, basePath := s.options.basePath }
  sound : s.Sound

/-- Planning keeps the export and the options, and what it makes is planned. -/
theorem Site.planned_of_plan {x : Export} {o : Options} {s : Site}
    (h : Site.plan x o = .ok s) : s.source = x ∧ s.options = o ∧ s.Planned := by
  obtain ⟨⟨layout, collisions⟩, hlayout, h⟩ := Except.bind_eq_ok.1 h
  obtain ⟨u, -, h⟩ := Except.bind_eq_ok.1 h
  cases h
  exact ⟨rfl, rfl, rfl, Layout.eq_sheets_of_plan hlayout, Site.sound_of_memory_eq rfl⟩

section

/-- Every id of the export can be ordered. -/
def Export.Ordered (x : Export) : Prop := ∀ id ∈ x.items.ids, (Id.key? id).isSome = true

theorem Id.checkKeys_eq_ok {ids : List Id} (h : ∀ id ∈ ids, (Id.key? id).isSome = true) :
    Id.checkKeys ids = .ok () := by
  rw [Id.checkKeys, if_pos (List.all_eq_true.2 h)]

theorem Layout.exists_allocate {directory : String} {reserved : List String}
    {requests : List Layout.Request}
    (h : ∀ r ∈ requests, (Id.key? r.id).isSome = true) :
    ∃ r, Layout.allocate directory reserved requests = .ok r := by
  have hkeys : Id.checkKeys (requests.map (·.id)) = .ok () := by
    refine Id.checkKeys_eq_ok fun id hid => ?_
    obtain ⟨r, hr, rfl⟩ := List.mem_map.1 hid
    exact h r hr
  rw [Layout.allocate, hkeys]
  exact ⟨_, rfl⟩

/-- A request that no other one meets gets its plain name. -/
theorem Layout.allocate_singleton (directory : String) {r : Layout.Request}
    (h : (Id.key? r.id).isSome = true) :
    Layout.allocate directory [] [r] = .ok (Table.ofList [(r.id, r.base)], []) := by
  have hkeys : Id.checkKeys [r.id] = .ok () := Id.checkKeys_eq_ok (by simpa using h)
  have hsorted : sortById (·.id) [r] = [r] := by rw [sortById, List.mergeSort_singleton]
  have hclash : Layout.clashes [] [r] r = false := by simp [Layout.clashes]
  have hname : Layout.firstName [] [r] r = r.base := by
    rw [Layout.firstName, hclash, if_neg Bool.false_ne_true]
  have hgroups : (Layout.groupByBase [r]).entries = [(Text.lower r.base, [r])] := rfl
  have hcollisions (names : Table Id String) :
      Layout.collisionsOf directory [] [r] names = [] := by
    simp [Layout.collisionsOf, hgroups, hclash]
  simp [Layout.allocate, hkeys, hsorted, Layout.numbered, hname, hcollisions]

theorem Checked.exists_foldlM {α β : Type} {f : β → α → Checked β} {as : List α}
    (h : ∀ a ∈ as, ∀ b, ∃ b', f b a = .ok b') (b : β) : ∃ b', as.foldlM f b = .ok b' := by
  induction as generalizing b with
  | nil => exact ⟨b, rfl⟩
  | cons a as ih =>
    obtain ⟨c, hc⟩ := h a List.mem_cons_self b
    obtain ⟨b', hb'⟩ := ih (fun d hd => h d (List.mem_cons_of_mem a hd)) c
    exact ⟨b', by rw [List.foldlM_cons, hc]; exact hb'⟩

variable {x : Export} {includePrivate : Bool} (h : x.Ordered)

include h

theorem Tree.isSome_key?_member {n : Node}
    (hn : n ∈ (Tree.ofExport x includePrivate).modules) {p : Placement} (hp : p ∈ n.members) :
    (Id.key? p.itemId).isSome = true := by
  obtain ⟨y, hy, -⟩ := (Tree.grown_modules x includePrivate n hn).members_known p hp
  exact h _ (Items.mem_ids_of_get? hy)

/-- The blocks for types can be put in order. -/
theorem Export.Ordered.checkImpls : x.checkImpls = .ok () := by
  refine Id.checkKeys_eq_ok fun id hid => ?_
  obtain ⟨i, hi, rfl⟩ := List.mem_map.1 hid
  obtain ⟨y, hy, hmatch⟩ := List.mem_filterMap.1 (List.mem_filter.1 hi).1
  have hyid : y.id = i.1 := by
    split at hmatch
    · exact congrArg Prod.fst (Option.some.inj hmatch)
    · simp at hmatch
  obtain ⟨e, he, rfl⟩ := List.mem_map.1 hy
  rw [← hyid, x.items.keyed e he]
  exact h _ (List.mem_map_of_mem he)

/-- A layout can be planned in every mode if the root is known and ids can be ordered. -/
theorem Layout.exists_plan (hroot : x.package.rootId ∈ x.items.ids) (mode : Mode)
    (basePath : String) :
    ∃ d, Layout.plan (Tree.ofExport x includePrivate) x mode basePath = .ok d := by
  unfold Layout.plan
  cases mode with
  | single =>
    have hnode : ∀ n ∈ (Tree.ofExport x includePrivate).modules, (Id.key? n.id).isSome = true := by
      intro n hn
      rcases Node.eq_root_or_known (Tree.grown_modules x includePrivate) n hn with rfl | ⟨y, hy, -⟩
      · exact h _ hroot
      · exact h _ (Items.mem_ids_of_get? hy)
    have hrequests : ∀ r ∈ (Tree.ofExport x includePrivate).modules.flatMap
        (Layout.documentRequests (Tree.ofExport x includePrivate) x),
        (Id.key? r.id).isSome = true := by
      intro r hr
      obtain ⟨n, hn, hr⟩ := List.mem_flatMap.1 hr
      rcases Layout.mem_ids_documentRequests.1 (List.mem_map_of_mem hr) with ⟨-, hid⟩ | hid
      · exact hid ▸ hnode n hn
      · obtain ⟨p, hp, hid⟩ := List.mem_map.1 hid
        exact hid ▸ Tree.isSome_key?_member h hn (Layout.mem_primaryMembers.1 hp).1
    obtain ⟨r, hr⟩ := Layout.exists_allocate hrequests
    exact ⟨_, Except.bind_eq_ok.2 ⟨r, hr, rfl⟩⟩
  | module =>
    refine Checked.exists_foldlM (fun n hn d => ?_) _
    have hrequests : ∀ r ∈ Layout.moduleRequests (Tree.ofExport x includePrivate) x n,
        (Id.key? r.id).isSome = true := by
      intro r hr
      obtain ⟨p, hp, rfl⟩ := List.mem_map.1 hr
      exact Tree.isSome_key?_member h hn (Layout.mem_primaryMembers.1 hp).1
    obtain ⟨r, hr⟩ := Layout.exists_allocate hrequests
    exact ⟨_, Except.bind_eq_ok.2 ⟨r, hr, rfl⟩⟩
  | item =>
    refine Checked.exists_foldlM (fun entry hentry d => ?_) _
    have hrequests : ∀ r ∈ Layout.itemRequests x entry.2, (Id.key? r.id).isSome = true := by
      intro r hr
      obtain ⟨p, hp, rfl⟩ := List.mem_map.1 hr
      obtain ⟨n, hn, -, hp⟩ := (Layout.mem_directory hentry).1 hp
      exact Tree.isSome_key?_member h hn (Layout.mem_primaryMembers.1 hp).1
    obtain ⟨r, hr⟩ := Layout.exists_allocate hrequests
    exact ⟨_, Except.bind_eq_ok.2 ⟨r, hr, rfl⟩⟩

/-- Planning succeeds if the root is known and ids can be ordered. -/
theorem Site.exists_plan (hroot : x.package.rootId ∈ x.items.ids) (o : Options) :
    ∃ s, Site.plan x o = .ok s := by
  obtain ⟨d, hd⟩ := Layout.exists_plan h hroot o.mode o.basePath
  exact ⟨_, Except.bind_eq_ok.2 ⟨d, hd, Except.bind_eq_ok.2 ⟨(), h.checkImpls, rfl⟩⟩⟩

end

namespace Sample

variable {xs : List Item} {owners containers : Table Id Id} {external : Table Id Summary}

theorem ordered_crate (hids : ∀ x ∈ xs, (Id.key? x.id).isSome = true) :
    (crate xs owners containers external).Ordered :=
  forall_ids_crate (P := fun id => (Id.key? id).isSome = true) hids

section

variable (hids : ∀ x ∈ xs, (Id.key? x.id).isSome = true)
  (hroot : ∃ y, (crate xs owners containers external).items.get? "0" = some y)

include hids hroot

theorem exists_plan (o : Options) :
    ∃ s, Site.plan (crate xs owners containers external) o = .ok s :=
  Site.exists_plan (ordered_crate hids) (Items.mem_ids_of_get? hroot.choose_spec) o

theorem exists_layout (mode : Mode) : ∃ l cs, Layout.plan
    (Tree.ofExport (crate xs owners containers external) false)
    (crate xs owners containers external) mode "" = .ok (l, cs) := by
  obtain ⟨⟨l, cs⟩, hplan⟩ := Layout.exists_plan (ordered_crate hids)
    (Items.mem_ids_of_get? hroot.choose_spec) mode ""
  exact ⟨l, cs, hplan⟩

end

end Sample

/-- A crate with a module of one macro, which the crate shows under another name too. -/
def smallExport : Export := Sample.crate [
  Sample.module "0" "demo" ["1", "2"], Sample.module "1" "m" ["3"],
  Sample.reexport "2" "m::f" "g" (some "3"),
  Sample.item "3" "macro" (some "f") (.macroRules "x")]

def smallText : String := Sample.text [
  ("0", Sample.moduleEntry "demo" [1, 2]), ("1", Sample.moduleEntry "m" [3]),
  ("2", Sample.reexportEntry "m::f" "g" (.int 3)), ("3", Sample.publicEntry "f" "macro" (.str "x"))]

set_option maxRecDepth 4000 in
theorem parse_smallText : Export.parse smallText = .ok smallExport :=
  Sample.read_textOf (by decide +kernel) rfl

/-- Where the small crate shows its modules and its macro. -/
def smallPlacements : PlacementMap :=
  ((({} : PlacementMap).add ⟨"0", ["demo"], false⟩).add ⟨"1", ["demo", "m"], false⟩
    |>.add ⟨"3", ["demo", "m", "f"], false⟩).add ⟨"3", ["demo", "g"], true⟩

theorem placements_smallExport :
    (Tree.ofExport smallExport false).placements = smallPlacements := by
  have hroot : Tree.candidates smallExport false ["0"] "0" =
      [.module "1" "m" false, .member "3" "g" true] := rfl
  have hmodule : Tree.candidates smallExport false ["1", "0"] "1" = [.member "3" "f" false] := rfl
  have hnew : "1" ∈ smallExport.items.ids ∧ "1" ∉ ["0"] := by decide
  have hname : smallExport.package.name = "demo" := rfl
  have hid : smallExport.package.rootId = "0" := rfl
  simp only [Tree.ofExport, hname, hid, hroot]
  rw [Tree.place, dif_pos hnew, if_neg (by decide), hmodule]
  simp only [Tree.place]
  rfl

/-- A site of the small export can be planned with any options. -/
theorem exists_plan_smallExport (o : Options) : ∃ s, Site.plan smallExport o = .ok s :=
  Sample.exists_plan (by decide) ⟨_, rfl⟩ o

theorem exists_layout_smallExport (mode : Mode) : ∃ l cs,
    Layout.plan (Tree.ofExport smallExport false) smallExport mode "" = .ok (l, cs) :=
  Sample.exists_layout (by decide) ⟨_, rfl⟩ mode

/-- All declarations of the small export can be written. -/
theorem writable_smallExport {s : Site} (h : s.source = smallExport) : s.Writable := by
  have hschema : smallExport.FollowsSchema := Sample.forall_crate (by decide)
  exact Site.writable_of_followsSchema (h ▸ hschema) (h ▸ ⟨_, rfl⟩)

namespace Site

def sheets (s : Site) : List Sheet := Layout.sheets s.tree s.source s.options.mode

namespace Planned

variable {s : Site} (h : s.Planned)

include h

/-- The files of a planned site are those of its sheets. -/
theorem files : s.layout.files = s.sheets.map (·.plan) := by
  rw [h.layout, Layout.files_sheets, List.nil_append]
  rfl

/-- The file of an item is that of the first sheet that shows it. -/
theorem fileFor (id : Id) :
    s.layout.fileFor id = (s.sheets.find? (·.shows id)).map (·.plan) := by
  rw [h.layout, Layout.fileFor_sheets]
  rfl

/-- The anchor of an item is the one that the first sheet with any gives to it. -/
theorem anchorFor (id : Id) :
    s.layout.anchorFor id = s.sheets.findSome? fun sheet => sheet.anchors.get? id := by
  rw [h.layout, Layout.anchorFor_sheets]
  rfl

/-- The address of a page, from the options and the name of the package. -/
theorem urlOf_eq (plan : FilePlan PageKind) : s.layout.urlOf plan =
    Layout.pageUrl s.options.basePath s.source.package.name plan.path := by
  rw [h.layout, Layout.urlOf_sheets]
  rfl

/-- A file that is found at a path is one of the site's, and has that path. -/
theorem mem_files_of_fileAt {path : String} {plan : FilePlan PageKind}
    (hplan : s.layout.fileAt path = some plan) : plan ∈ s.layout.files ∧ plan.path = path := by
  have hat := hplan
  rw [h.layout] at hat
  rcases Layout.mem_of_fileAt_sheets _ _ hat with hnone | ⟨sheet, hsheet, rfl, hpath⟩
  · exact absurd hnone (by simp [Layout.fileAt])
  · rw [h.files]
    exact ⟨List.mem_map_of_mem hsheet, hpath⟩

/-- The file of an item is one of the site's. -/
theorem mem_files_of_fileFor {id : Id} {plan : FilePlan PageKind}
    (hplan : s.layout.fileFor id = some plan) : plan ∈ s.layout.files := by
  rw [h.fileFor] at hplan
  obtain ⟨sheet, hfind, rfl⟩ := Option.map_eq_some_iff.1 hplan
  rw [h.files]
  exact List.mem_map_of_mem (List.mem_of_find?_eq_some hfind)

/-- Where items have pages, none has an anchor. -/
theorem anchorFor_item (hmode : s.options.mode = .item) (id : Id) :
    s.layout.anchorFor id = none := by
  rw [h.anchorFor, List.findSome?_eq_none_iff]
  intro sheet hsheet
  rw [sheets, hmode] at hsheet
  rw [Layout.anchors_item hsheet]
  rfl

/-- Every node of the tree is grown from the export. -/
theorem grown : ∀ n ∈ s.tree.modules, n.Grown s.source := by
  rw [h.tree]
  exact Tree.grown_modules _ _

/-- Every module is known if the root module is. -/
theorem known_node {n : Node} (hn : n ∈ s.tree.modules)
    (hroot : ∃ x, s.source.items.get? s.source.package.rootId = some x) :
    ∃ x, s.source.items.get? n.id = some x := by
  rcases Node.eq_root_or_known h.grown n hn with rfl | ⟨x, hx, -⟩
  · rw [h.tree]
    exact hroot
  · exact ⟨x, hx⟩

/-- A page shows the package, a module of the tree, or an item at its primary placement. -/
theorem page_cases {plan : FilePlan PageKind} (hplan : plan ∈ s.layout.files) :
    s.options.mode = .single ∧ plan.page = .document s.tree.root ∨
    (∃ n ∈ s.tree.modules, plan = Layout.modulePlan n) ∨
    s.options.mode = .item ∧ ∃ p, plan.page = .item p := by
  rw [h.files] at hplan
  obtain ⟨sheet, hsheet, rfl⟩ := List.mem_map.1 hplan
  unfold sheets at hsheet
  cases hmode : s.options.mode with
  | single =>
    rw [hmode] at hsheet
    obtain rfl := List.mem_singleton.1 hsheet
    exact .inl ⟨rfl, rfl⟩
  | module =>
    rw [hmode] at hsheet
    obtain ⟨n, hn, rfl⟩ := List.mem_map.1 hsheet
    exact .inr (.inl ⟨n, hn, rfl⟩)
  | item =>
    rw [hmode] at hsheet
    rcases List.mem_append.1 hsheet with hsheet | hsheet
    · obtain ⟨n, hn, rfl⟩ := List.mem_map.1 hsheet
      exact .inr (.inl ⟨n, List.mem_of_mem_filter hn, rfl⟩)
    · obtain ⟨entry, -, hsheet⟩ := List.mem_flatMap.1 hsheet
      obtain ⟨p, -, rfl⟩ := List.mem_map.1 hsheet
      exact .inr (.inr ⟨rfl, p, rfl⟩)

/-- What a page accounts for is a member of a module. -/
theorem exists_node {plan : FilePlan PageKind} (hplan : plan ∈ s.layout.files) {p : Placement}
    (hp : p ∈ placementsOn s.tree s.options.mode plan.page) :
    ∃ n ∈ s.tree.modules, p ∈ n.members := by
  rw [h.files] at hplan
  obtain ⟨sheet, hsheet, rfl⟩ := List.mem_map.1 hplan
  unfold sheets at hsheet
  rw [h.tree] at hsheet hp ⊢
  exact Layout.exists_node_of_placementsOn hsheet hp

/-- A page for items accounts for primary placements. -/
theorem isPrimary_of_item (hmode : s.options.mode = .item) {plan : FilePlan PageKind}
    (hplan : plan ∈ s.layout.files) {p : Placement}
    (hp : p ∈ placementsOn s.tree s.options.mode plan.page) :
    s.tree.placements.isPrimary p = true := by
  rw [hmode] at hp
  have hall : p ∈ s.layout.files.flatMap fun plan => placementsOn s.tree .item plan.page :=
    List.mem_flatMap.2 ⟨plan, hplan, hp⟩
  rw [h.files, List.flatMap_map, sheets, hmode] at hall
  obtain ⟨n, -, hprim⟩ := List.mem_flatMap.1 (Layout.perm_placementsOn_sheets.mem_iff.1 hall)
  exact (Layout.mem_primaryMembers.1 hprim).2

/-- A placement is accounted for on a page, in item pages if it is a primary one. -/
theorem exists_file {n : Node} (hn : n ∈ s.tree.modules) {p : Placement} (hp : p ∈ n.members)
    (hprim : s.tree.placements.isPrimary p = true ∨ s.options.mode ≠ .item) :
    ∃ plan ∈ s.layout.files, p ∈ placementsOn s.tree s.options.mode plan.page := by
  have hsheet : ∃ sheet ∈ s.sheets, p ∈ placementsOn s.tree s.options.mode sheet.plan.page := by
    unfold sheets
    rw [h.tree] at hn hprim ⊢
    exact Layout.exists_sheet_of_member hn hp hprim
  obtain ⟨sheet, hsheet, hp⟩ := hsheet
  rw [h.files]
  exact ⟨sheet.plan, List.mem_map_of_mem hsheet, hp⟩

/-- A primary placement is accounted for in the file that its item stands in. -/
theorem fileFor_of_placementsOn {plan : FilePlan PageKind} (hplan : plan ∈ s.layout.files)
    {p : Placement} (hp : p ∈ placementsOn s.tree s.options.mode plan.page)
    (hprim : s.tree.placements.isPrimary p = true) :
    s.layout.fileFor p.itemId = some plan := by
  rw [h.files] at hplan
  obtain ⟨sheet, hsheet, rfl⟩ := List.mem_map.1 hplan
  have hfind : s.sheets.find? (·.shows p.itemId) = some sheet := by
    unfold sheets at hsheet ⊢
    rw [h.tree] at hsheet hp hprim ⊢
    exact Layout.find?_shows_of_mem hsheet hp hprim
  rw [h.fileFor, hfind]
  rfl

/-- No placement is accounted for twice. -/
theorem nodup_placementsOn :
    (s.layout.files.flatMap fun plan => placementsOn s.tree s.options.mode plan.page).Nodup := by
  rw [h.files, List.flatMap_map]
  unfold sheets
  rw [h.tree]
  exact Layout.nodup_placementsOn _ _ _

end Planned

end Site

end CrateBook
