import CrateBook.Proofs.Addresses
import CrateBook.Proofs.InternalLinks

/-!
# Predicted links

A link into another package is predicted from the path of the item alone, while that package
plans its own layout from its tree. For an item that has its plain name there, the two agree
in every mode: the page is that of the placement, and so is the name. For a module they agree
where modules have pages; on one page for the whole package a module is an anchor, but the
prediction is the address of a page of its own.
-/
namespace CrateBook

namespace Layout

/-- The name of an item without a clash: an anchor, or the name of a file. -/
def plainName (mode : Mode) (p : Placement) : String :=
  match mode with
  | .single => Markdown.headerSlug ("-".intercalate p.path)
  | .module => Markdown.headerSlug p.name
  | .item => p.name

/-- An item goes by a name in a layout: it is its anchor, or the name of its file in the
directory of its module. -/
def Names (l : Planned) (mode : Mode) (p : Placement) (name : String) : Prop :=
  match mode with
  | .single | .module => l.anchorFor p.itemId = some name
  | .item => ∃ plan, l.fileFor p.itemId = some plan ∧
      plan.path = itemFile (directoryOf p.modulePath) name

/-- The link of an item under a name, at one of its placements. -/
def hrefUnder (basePath package : String) (mode : Mode) (p : Placement) (name : String) :
    String :=
  match mode with
  | .single => pageUrl basePath package "index.md" ++ "#" ++ name
  | .module => pageUrl basePath package (moduleFile p.modulePath) ++ "#" ++ name
  | .item => pageUrl basePath package (itemFile (directoryOf p.modulePath) name)

theorem isEmpty_intercalate {as : List String} (h : ∀ a ∈ as, a ≠ "") :
    ("/".intercalate as).isEmpty = as.isEmpty := by
  match as, h with
  | [], _ => rfl
  | [a], h => simpa [Bool.eq_false_iff] using h a List.mem_cons_self
  | a :: b :: bs, _ =>
    rw [String.intercalate_cons_cons, List.isEmpty_cons, Bool.eq_false_iff]
    intro hempty
    have hlen := congrArg String.length (String.isEmpty_iff.1 hempty)
    have hslash : "/".length = 1 := by decide
    simp [hslash] at hlen

/-- The address of a page has no fragment. -/
theorem pageUrl_ne (basePath package path anchor : String) :
    pageUrl basePath package path ≠ pageUrl basePath package "index.md" ++ "#" ++ anchor := by
  have hindex : (pagePath "index.md").isEmpty = true := by decide
  intro h
  simp only [pageUrl, hindex, if_true] at h
  generalize Text.trimEndChar '/' basePath ++ "/" ++ package = url at h
  have hlist := congrArg String.toList h
  split at hlist
  · simp at hlist
  · simp only [String.toList_append, List.append_assoc] at hlist
    exact absurd (List.append_cancel_left hlist) (by simp)

section

variable {x : Export} {includePrivate : Bool} {n : Node}
  (hn : n ∈ (Tree.ofExport x includePrivate).modules)

include hn

/-- The names of the modules on the way to a module are not empty. -/
theorem ne_empty_of_mem_tail : ∀ segment ∈ n.path.tail, segment ≠ "" := by
  intro segment hsegment
  have hdrop : segment ∈ n.path.drop (Tree.ofExport x includePrivate).root.path.length := by
    rwa [Tree.path_root, List.length_singleton, List.drop_one]
  exact (Node.exists_of_mem_path (Tree.grown_modules x includePrivate) n hn segment hdrop).1

/-- The file of an item without a clash is the path of the item. -/
theorem itemFile_directoryOf (name : String) :
    itemFile (directoryOf n.path) name = "/".intercalate (n.path.tail ++ [name]) ++ ".md" := by
  rw [itemFile, directoryOf, isEmpty_intercalate (ne_empty_of_mem_tail hn)]
  cases htail : n.path.tail with
  | nil => rfl
  | cons a as =>
    rw [List.isEmpty_cons, if_neg Bool.false_ne_true,
      String.intercalate_append_of_ne_nil (List.cons_ne_nil a as) (by simp),
      String.intercalate_singleton]
    simp only [String.append_assoc]

/-- What is predicted for a member of a module: its plain name, on the page of the placement. -/
theorem predictedHrefOf_member {p : Placement} (hp : p ∈ n.members) {kind : String}
    (hkind : kind ≠ "module") (basePath : String) (mode : Mode) :
    predictedHrefOf basePath mode p.path kind =
      .ok (hrefUnder basePath x.package.name mode p (plainName mode p)) := by
  have hgrown := Tree.grown_modules x includePrivate n hn
  have hpath : p.path = x.package.name :: (n.path.tail ++ [p.name]) := by
    rw [(hgrown.name_ne_empty hp).2, path_eq_cons hn]
    rfl
  have hmodule : moduleFile (x.package.name :: n.path.tail) = moduleFile p.modulePath := by
    rw [← path_eq_cons hn, hgrown.modulePath hp]
  have hlast : (x.package.name :: (n.path.tail ++ [p.name])).getLastD "" = p.name := by
    rw [← hpath, Placement.name]
  have hkind' : (kind == "module") = false := by simpa using hkind
  rw [hpath]
  cases mode with
  | single => simp [predictedHrefOf, predictedHref, hkind', hrefUnder, plainName, hpath]
  | module =>
    rw [predictedHrefOf, predictedHref, hkind', if_neg Bool.false_ne_true, hlast,
      List.dropLast_concat, hmodule]
    rfl
  | item =>
    simp [predictedHrefOf, predictedHref, hkind', hrefUnder, plainName, hgrown.modulePath hp,
      itemFile_directoryOf hn]

end

end Layout

namespace Site.Planned

open Layout (placementsOn)

variable {s : Site} (h : s.Planned)

include h

/-- A package on one page has one file. -/
theorem path_of_single (hmode : s.options.mode = .single) {plan : FilePlan PageKind}
    (hplan : plan ∈ s.layout.files) : plan.path = "index.md" := by
  rw [h.files, sheets, hmode] at hplan
  obtain rfl := List.mem_singleton.1 hplan
  rfl

/-- An item stands where its name and its primary placement put it. -/
theorem hrefFor_of_names {n : Node} (hn : n ∈ s.tree.modules) {p : Placement} (hp : p ∈ n.members)
    (hprim : s.tree.placements.isPrimary p = true) {name : String}
    (hname : s.layout.Names s.options.mode p name) : s.layout.hrefFor p.itemId =
      some (Layout.hrefUnder s.options.basePath s.source.package.name s.options.mode p name) := by
  obtain ⟨plan, hplan, hpon⟩ := h.exists_file hn hp (.inl hprim)
  have hfile := h.fileFor_of_placementsOn hplan hpon hprim
  have hmodulePath := (h.grown n hn).modulePath hp
  cases hmode : s.options.mode with
  | single =>
    rw [hmode] at hname
    rw [h.hrefFor_of_anchorFor hfile hname, h.urlOf_eq, h.path_of_single hmode hplan]
    rfl
  | module =>
    rw [hmode] at hname hpon
    rcases h.page_cases hplan with ⟨hsingle, -⟩ | ⟨m, hm, rfl⟩ | ⟨hitem, -⟩
    · cases hmode.symm.trans hsingle
    · have hpath : p.modulePath = m.path := (h.grown m hm).modulePath hpon
      rw [h.hrefFor_of_anchorFor hfile hname, h.urlOf_eq, Layout.hrefUnder, hpath]
      rfl
    · cases hmode.symm.trans hitem
  | item =>
    rw [hmode] at hname
    obtain ⟨plan', hfile', hpath⟩ := hname
    rw [Layout.hrefFor, hfile', Option.map_some, h.anchorFor_item hmode]
    dsimp only
    rw [h.urlOf_eq, hpath]
    rfl

/-- A root that is no module has the address of the package, as predicted. -/
theorem exists_href_of_root (hroot : ∀ b, s.source.items.payload? s.source.package.rootId ≠
    some (.module b)) {p : Placement}
    (hp : s.tree.placements.primary? s.source.package.rootId = some p)
    (hid : p.itemId = s.source.package.rootId)
    (hname : s.layout.Names s.options.mode p (Layout.plainName s.options.mode p)) {kind : String}
    (hkind : kind ≠ "module") : ∃ href, s.layout.hrefFor p.itemId = some href ∧
      Layout.predictedHrefOf s.options.basePath s.options.mode p.path kind = .ok href := by
  have hpath : p.path = [s.source.package.name] := by
    rw [h.tree] at hp
    exact Tree.path_of_primary?_root _ _ hp
  have hkind' : (kind == "module") = false := by simpa using hkind
  obtain ⟨hmodules, hmembers⟩ := Tree.modules_of_not_module _ s.options.includePrivate hroot
  rw [← h.tree] at hmodules hmembers
  have hself : s.tree.root ∈ s.tree.modules := Node.self_mem_walk _
  have hrootid : s.tree.root.id = p.itemId := by
    rw [hid, h.tree]
    rfl
  cases hmode : s.options.mode with
  | single =>
    rw [hmode] at hname
    obtain ⟨plan, hfile⟩ := Option.ne_none_iff_exists'.1 (h.fileFor_ne_none_of_anchorFor hname)
    refine ⟨_, h.hrefFor_of_anchorFor hfile hname, ?_⟩
    rw [h.urlOf_eq, h.path_of_single hmode (h.mem_files_of_fileFor hfile), hpath]
    simp [Layout.predictedHrefOf, Layout.predictedHref, hkind', Layout.plainName, hpath]
  | module =>
    -- the page of the root is its own, without an anchor
    rw [hmode] at hname
    rcases h.placed_or_node_of_anchorFor hname with ⟨-, hnode⟩ | ⟨hsingle, -⟩
    · exact absurd hrootid (hnode _ hself)
    · cases hmode.symm.trans hsingle
  | item =>
    rw [hmode] at hname
    obtain ⟨plan, hfile, -⟩ := hname
    have hplan := h.mem_files_of_fileFor hfile
    have hindex : plan.path = "index.md" := by
      rcases h.page_cases hplan with ⟨hsingle, -⟩ | ⟨m, hm, rfl⟩ | ⟨-, q, hq⟩
      · cases hmode.symm.trans hsingle
      · rw [hmodules, List.mem_singleton] at hm
        rw [hm, Layout.modulePlan, h.tree]
        rfl
      · have hqon : q ∈ placementsOn s.tree s.options.mode plan.page := by
          rw [hq]
          exact List.mem_cons_self
        obtain ⟨m, hm, hqm⟩ := h.exists_node hplan hqon
        rw [hmodules, List.mem_singleton] at hm
        rw [hm, hmembers] at hqm
        cases hqm
    refine ⟨s.layout.urlOf plan, ?_, ?_⟩
    · rw [Layout.hrefFor, hfile, Option.map_some, h.anchorFor_item hmode]
    · have hempty : Layout.pagePath "index.md" = "" ∧ Layout.pagePath ".md" = "" := by decide
      rw [h.urlOf_eq, hindex, hpath]
      simp [Layout.predictedHrefOf, Layout.predictedHref, hkind', Layout.pageUrl, hempty]

/-- The primary placement of a module is a node of the module. -/
theorem exists_primary_node {n : Node} (hn : n ∈ s.tree.modules) {p : Placement}
    (hp : s.tree.placements.primary? n.id = some p) :
    ∃ m ∈ s.tree.modules, m.id = n.id ∧ m.path = p.path := by
  rw [h.tree] at hn hp ⊢
  have hkey := (Tree.holds_ofExport _ _).1
    (PlacementMap.holds_of_mem (PlacementMap.mem_recorded_of_primary? hp))
  obtain ⟨m, hm, hkey⟩ := List.mem_flatMap.1 hkey
  rcases List.mem_cons.1 hkey with hself | hmember
  · obtain ⟨hid, hpath⟩ := Prod.mk.inj hself
    exact ⟨m, hm, hid.symm, hpath.symm⟩
  · obtain ⟨q, hq, hqkey⟩ := List.mem_map.1 hmember
    exact absurd (Prod.mk.inj hqkey).1.symm (Tree.node_id_ne_member _ _ m hm q hq n hn)

/-- What is predicted for a module is the address of a page of its own. -/
theorem predictedHrefOf_node {n : Node} (hn : n ∈ s.tree.modules) {p : Placement}
    (hp : s.tree.placements.primary? n.id = some p) :
    Layout.predictedHrefOf s.options.basePath s.options.mode p.path "module" =
      .ok (Layout.pageUrl s.options.basePath s.source.package.name
        (Layout.moduleFile p.path)) := by
  obtain ⟨m, hm, -, hpath⟩ := h.exists_primary_node hn hp
  rw [h.tree] at hm
  have hcons : p.path = s.source.package.name :: p.path.tail := hpath ▸ Layout.path_eq_cons hm
  rw [hcons]
  simp only [Layout.predictedHrefOf, Layout.predictedHref, beq_self_eq_true, if_true]

theorem anchorFor_of_node {n : Node} (hn : n ∈ s.tree.modules)
    (hmode : s.options.mode ≠ .single) : s.layout.anchorFor n.id = none := by
  by_contra hne
  obtain ⟨a, ha⟩ := Option.ne_none_iff_exists'.1 hne
  rcases h.placed_or_node_of_anchorFor ha with ⟨-, hnode⟩ | ⟨hsingle, -⟩
  · exact hnode n hn rfl
  · exact hmode hsingle

/-- Where modules have pages, a module stands on the page of its primary placement. -/
theorem path_of_node {n : Node} (hn : n ∈ s.tree.modules) {p : Placement}
    (hp : s.tree.placements.primary? n.id = some p) (hmode : s.options.mode ≠ .single)
    {plan : FilePlan PageKind} (hfile : s.layout.fileFor n.id = some plan) :
    plan.path = Layout.moduleFile p.path := by
  have hanchor := h.anchorFor_of_node hn hmode
  rw [h.anchorFor, List.findSome?_eq_none_iff] at hanchor
  rw [h.fileFor] at hfile
  obtain ⟨sheet, hfind, rfl⟩ := Option.map_eq_some_iff.1 hfile
  have hsheet := List.mem_of_find?_eq_some hfind
  have hshows := List.find?_some hfind
  have hnone : sheet.anchors.contains n.id = false := by
    rw [Table.contains, hanchor sheet hsheet]
    rfl
  rw [Layout.Sheet.shows, hnone, Bool.or_false, Bool.and_eq_true, beq_iff_eq] at hshows
  obtain ⟨howns, htarget⟩ := hshows
  have hmodule {m : Node} (hid : m.id = n.id) (hprim : s.tree.isPrimaryNode m = true) :
      (Layout.modulePlan m).path = Layout.moduleFile p.path := by
    rw [Tree.isPrimaryNode, hid, hp, Option.any_some, beq_iff_eq] at hprim
    rw [Layout.modulePlan, hprim]
  unfold sheets at hsheet
  cases hcases : s.options.mode with
  | single => exact absurd hcases hmode
  | module =>
    rw [hcases] at hsheet
    obtain ⟨m, -, rfl⟩ := List.mem_map.1 hsheet
    exact hmodule htarget howns
  | item =>
    rw [hcases] at hsheet
    rcases List.mem_append.1 hsheet with hsheet | hsheet
    · obtain ⟨m, -, rfl⟩ := List.mem_map.1 hsheet
      exact hmodule htarget howns
    · -- the page of an item stands for no module
      obtain ⟨⟨directory, ps⟩, hentry, hsheet⟩ := List.mem_flatMap.1 hsheet
      obtain ⟨q, hq, rfl⟩ := List.mem_map.1 hsheet
      obtain ⟨m, hm, -, hqm⟩ := (Layout.mem_directory hentry).1 (List.mem_mergeSort.1 hq)
      have hqplaced := h.placed_of_member hm (Layout.mem_primaryMembers.1 hqm).1
      exact absurd htarget.symm (hqplaced.2 n hn)

/-- Where every module has a page, each one has a place. -/
theorem exists_file_of_node {n : Node} (hn : n ∈ s.tree.modules) {p : Placement}
    (hp : s.tree.placements.primary? n.id = some p) (hmode : s.options.mode = .module) :
    ∃ plan, s.layout.fileFor n.id = some plan := by
  obtain ⟨m, hm, hid, hpath⟩ := h.exists_primary_node hn hp
  have hprim : s.tree.isPrimaryNode m = true := by
    rw [Tree.isPrimaryNode, hid, hp, Option.any_some, hpath, beq_self_eq_true]
  have hshows : (Layout.moduleSheet s.tree s.source m).shows n.id = true := by
    simp [Layout.Sheet.shows, Layout.moduleSheet, Layout.modulePlan, hprim, hid]
  have hsheet : Layout.moduleSheet s.tree s.source m ∈ s.sheets := by
    rw [sheets, hmode]
    exact List.mem_map_of_mem hm
  have hfind : (s.sheets.find? (·.shows n.id)).isSome = true :=
    List.find?_isSome.2 ⟨_, hsheet, hshows⟩
  obtain ⟨sheet, hfind⟩ := Option.isSome_iff_exists.1 hfind
  exact ⟨sheet.plan, by rw [h.fileFor, hfind, Option.map_some]⟩

/-- On one page for the whole package, a module that has a place has an anchor. -/
theorem exists_anchor_of_node {n : Node} (hmode : s.options.mode = .single)
    {plan : FilePlan PageKind} (hfile : s.layout.fileFor n.id = some plan) :
    ∃ a, s.layout.anchorFor n.id = some a := by
  rw [h.fileFor] at hfile
  obtain ⟨sheet, hfind, -⟩ := Option.map_eq_some_iff.1 hfile
  have hsheet := List.mem_of_find?_eq_some hfind
  have hshows := List.find?_some hfind
  rw [sheets, hmode] at hsheet
  obtain rfl := List.mem_singleton.1 hsheet
  rw [Layout.Sheet.shows, Layout.packageSheet, Bool.false_and, Bool.false_or, Table.contains,
    Option.isSome_iff_exists] at hshows
  obtain ⟨a, ha⟩ := hshows
  refine ⟨a, ?_⟩
  rw [h.anchorFor, sheets, hmode, Layout.sheets, List.findSome?_singleton]
  exact ha

/-- For a module the prediction is right, except on one page for the whole package. -/
theorem predictedHrefOf_node_iff {n : Node} (hn : n ∈ s.tree.modules) {p : Placement}
    (hp : s.tree.placements.primary? n.id = some p) {href : String}
    (hhref : s.layout.hrefFor n.id = some href) :
    Layout.predictedHrefOf s.options.basePath s.options.mode p.path "module" = .ok href ↔
      s.options.mode ≠ .single := by
  obtain ⟨plan, hfile, -⟩ := Option.map_eq_some_iff.1 hhref
  rw [h.predictedHrefOf_node hn hp, Except.ok.injEq]
  by_cases hmode : s.options.mode = .single
  · obtain ⟨a, ha⟩ := h.exists_anchor_of_node hmode hfile
    rw [h.hrefFor_of_anchorFor hfile ha, h.urlOf_eq,
      h.path_of_single hmode (h.mem_files_of_fileFor hfile)] at hhref
    rw [← Option.some.inj hhref]
    exact iff_of_false (Layout.pageUrl_ne _ _ _ _) fun hne => hne hmode
  · refine iff_of_true ?_ hmode
    rw [Layout.hrefFor, hfile, Option.map_some, h.anchorFor_of_node hn hmode, h.urlOf_eq,
      h.path_of_node hn hp hmode hfile] at hhref
    exact Option.some.inj hhref

end Site.Planned

namespace Layout

section

variable {x : Export} {o : Options} {l : Planned} {cs : List Collision}
  (hl : Layout.plan (Tree.ofExport x o.includePrivate) x o.mode o.basePath = .ok (l, cs))

include hl

/-- A layout that was planned belongs to a planned site. -/
theorem planned_of_layout : Site.Planned
    { options := o, source := x, tree := Tree.ofExport x o.includePrivate, layout := l
      collisions := cs } :=
  ⟨rfl, eq_sheets_of_plan hl, Site.sound_of_memory_eq rfl⟩

/-- An item that has its plain name stands where the prediction leads, in every mode. -/
theorem exists_href_of_plainName {id : Id} {y : Item} (hy : x.items.get? id = some y)
    (hmodule : y.payload.isModule = false) (hkind : y.kind ≠ "module") {p : Placement}
    (hp : (Tree.ofExport x o.includePrivate).placements.primary? id = some p)
    (hname : l.Names o.mode p (plainName o.mode p)) :
    ∃ href, l.hrefFor id = some href ∧
      predictedHrefOf o.basePath o.mode p.path y.kind = .ok href := by
  have h := planned_of_layout hl
  obtain ⟨rfl, hprim⟩ := (Tree.tidy_ofExport x o.includePrivate).isPrimary_of_primary? hp
  by_cases hnode : ∃ n ∈ (Tree.ofExport x o.includePrivate).modules, n.id = p.itemId
  · -- a node of an item that is no module is the root
    obtain ⟨n, hn, hid⟩ := hnode
    have hroot : p.itemId = x.package.rootId := by
      rcases Node.eq_root_or_known (Tree.grown_modules x o.includePrivate) n hn with
        rfl | ⟨z, hz, hz'⟩
      · exact hid.symm
      · rw [hid, hy, Option.some.injEq] at hz
        rw [← hz, hmodule] at hz'
        cases hz'
    refine h.exists_href_of_root (fun b hb => ?_) (hroot ▸ hp) hroot hname hkind
    rw [← hroot, Items.payload?, hy, Option.map_some, Option.some.injEq] at hb
    rw [hb] at hmodule
    cases hmodule
  · have hnodes : ∀ n ∈ (Tree.ofExport x o.includePrivate).modules, n.id ≠ p.itemId :=
      fun n hn hid => hnode ⟨n, hn, hid⟩
    obtain ⟨n, hn, hpn⟩ :=
      Tree.exists_member x o.includePrivate (PlacementMap.mem_recorded_of_primary? hp) hnodes
    exact ⟨_, h.hrefFor_of_names hn hpn hprim hname, predictedHrefOf_member hn hpn hkind _ _⟩

/-- Where a module has a place, the prediction leads there, except on one page for the whole
package. -/
theorem predictedHrefOf_module_iff {n : Node}
    (hn : n ∈ (Tree.ofExport x o.includePrivate).modules) {p : Placement}
    (hp : (Tree.ofExport x o.includePrivate).placements.primary? n.id = some p) {href : String}
    (hhref : l.hrefFor n.id = some href) :
    predictedHrefOf o.basePath o.mode p.path "module" = .ok href ↔ o.mode ≠ .single :=
  (planned_of_layout hl).predictedHrefOf_node_iff hn hp hhref

end

/-- The tree of the small crate. -/
def smallTree : Tree :=
  ⟨smallPlacements, .mk "0" ["demo"]
    [.mk "1" ["demo", "m"] [] [⟨"3", ["demo", "m", "f"], false⟩] []]
    [⟨"3", ["demo", "g"], true⟩] []⟩

theorem tree_smallExport : Tree.ofExport smallExport false = smallTree := by
  have hroot : Tree.candidates smallExport false ["0"] "0" =
      [.module "1" "m" false, .member "3" "g" true] := rfl
  have hmodule : Tree.candidates smallExport false ["1", "0"] "1" = [.member "3" "f" false] := rfl
  have hnew : "1" ∈ smallExport.items.ids ∧ "1" ∉ ["0"] := by decide
  have hname : smallExport.package.name = "demo" := rfl
  have hid : smallExport.package.rootId = "0" := rfl
  simp only [Tree.ofExport, hname, hid, hroot]
  rw [Tree.place, dif_pos hnew, if_neg (by decide), hmodule]
  simp only [Tree.place, Tree.Growth.addMember]
  rw [if_pos (by decide), if_pos (by decide)]
  simp only [Tree.Growth.node, List.nil_append, List.mergeSort_nil, List.mergeSort_singleton]
  rfl

/-- Of the two paths of the macro the shorter one is primary. -/
theorem primary?_smallTree : smallTree.placements.primary? "0" = some ⟨"0", ["demo"], false⟩ ∧
    smallTree.placements.primary? "1" = some ⟨"1", ["demo", "m"], false⟩ ∧
    smallTree.placements.primary? "3" = some ⟨"3", ["demo", "g"], true⟩ := by
  refine ⟨?_, ?_, ?_⟩
  all_goals exact PlacementMap.primary?_eq_some (by decide) (by decide)

/-- The anchors that the small crate asks for on its one page. -/
def smallRequests : List Request :=
  [anchorRequest "0" "module" "demo", anchorRequest "3" "macro" "demo-g",
    anchorRequest "1" "module" "demo-m"]

theorem requests_smallTree :
    smallTree.modules.flatMap (documentRequests smallTree smallExport) = smallRequests := by
  let m : Node := .mk "1" ["demo", "m"] [] [⟨"3", ["demo", "m", "f"], false⟩] []
  obtain ⟨hp0, hp1, hp3⟩ := primary?_smallTree
  have hmodules : smallTree.modules = [smallTree.root, m] := rfl
  have hroot : smallTree.isPrimaryNode smallTree.root = true :=
    (congrArg (Option.any _) hp0).trans rfl
  have hm : smallTree.isPrimaryNode m = true := (congrArg (Option.any _) hp1).trans rfl
  have hmembers : primaryMembers smallTree smallTree.root = [⟨"3", ["demo", "g"], true⟩] := by
    refine List.filter_eq_self.2 fun p hp => ?_
    rw [List.mem_singleton.1 hp, PlacementMap.isPrimary_iff]
    exact hp3
  have hnone : primaryMembers smallTree m = [] := by
    refine List.filter_eq_nil_iff.2 fun p hp => ?_
    rw [List.mem_singleton.1 hp, PlacementMap.isPrimary_iff, hp3]
    decide
  have htext : "-".intercalate ["demo"] = "demo" ∧ "-".intercalate ["demo", "g"] = "demo-g" ∧
      "-".intercalate ["demo", "m"] = "demo-m" := by decide
  have hkind : kindOf smallExport "3" = "macro" := rfl
  have hid : smallTree.root.id = "0" ∧ m.id = "1" := ⟨rfl, rfl⟩
  have hpath : smallTree.root.path = ["demo"] ∧ m.path = ["demo", "m"] := ⟨rfl, rfl⟩
  simp only [hmodules, List.flatMap_cons, List.flatMap_nil, documentRequests, hroot, hm, hmembers,
    hnone, List.map_cons, List.map_nil, hid, hpath, hkind, htext, if_true]
  rfl

/-- On one page, what the small crate asks for is what it gets. -/
theorem anchorFor_smallExport {l : Planned} {cs : List Collision}
    (hl : Layout.plan (Tree.ofExport smallExport false) smallExport .single "" = .ok (l, cs))
    {r : Request} (hr : r ∈ smallRequests) : l.anchorFor r.id = some r.base := by
  have hids : (smallRequests.map (·.id)).Nodup := by decide
  have halone : ∀ q ∈ smallRequests, q.id ≠ r.id →
      Text.lower q.base ≠ Text.lower r.base ∧ Text.lower q.qualified ≠ Text.lower r.base := by
    revert r
    decide +kernel
  have hanchors : (packageSheet (Tree.ofExport smallExport false) smallExport).anchors =
      namesOf [] smallRequests := by
    rw [tree_smallExport, packageSheet, requests_smallTree]
  have h := planned_of_layout (x := smallExport) (o := { mode := .single }) hl
  rw [h.anchorFor]
  have hsheets : Site.sheets
      { options := { mode := .single }, source := smallExport
        tree := Tree.ofExport smallExport false, layout := l, collisions := cs } =
      [packageSheet (Tree.ofExport smallExport false) smallExport] := rfl
  rw [hsheets, List.findSome?_singleton, hanchors]
  exact get?_namesOf_of_alone hids hr List.not_mem_nil halone

theorem exists_node_smallExport : ∃ n ∈ (Tree.ofExport smallExport false).modules, n.id = "1" ∧
    (Tree.ofExport smallExport false).placements.primary? n.id =
      some ⟨"1", ["demo", "m"], false⟩ := by
  rw [tree_smallExport]
  exact ⟨_, List.mem_cons_of_mem _ List.mem_cons_self, rfl, primary?_smallTree.2.1⟩

/-- The macro of the small crate goes by the shorter one of its two paths. -/
theorem exists_href_of_plainName_small : ∃ l cs href,
    Layout.plan (Tree.ofExport smallExport false) smallExport .single "" = .ok (l, cs) ∧
    (Tree.ofExport smallExport false).placements.primary? "3" =
      some ⟨"3", ["demo", "g"], true⟩ ∧
    l.Names .single ⟨"3", ["demo", "g"], true⟩ (plainName .single ⟨"3", ["demo", "g"], true⟩) ∧
    l.hrefFor "3" = some href ∧
    predictedHrefOf "" .single ["demo", "g"] "macro" = .ok href := by
  obtain ⟨l, cs, hl⟩ := exists_layout_smallExport .single
  have hname : l.Names .single ⟨"3", ["demo", "g"], true⟩
      (plainName .single ⟨"3", ["demo", "g"], true⟩) := by
    have hanchor := anchorFor_smallExport hl (r := anchorRequest "3" "macro" "demo-g") (by decide)
    exact hanchor
  have hp : (Tree.ofExport smallExport false).placements.primary? "3" =
      some ⟨"3", ["demo", "g"], true⟩ := by
    rw [tree_smallExport]
    exact primary?_smallTree.2.2
  obtain ⟨href, hhref, hpredicted⟩ := exists_href_of_plainName (o := { mode := .single }) hl
    (y := _) rfl rfl (by decide) hp hname
  exact ⟨l, cs, href, hl, hp, hname, hhref, hpredicted⟩

/-- With a page for each module, the prediction leads to the page of the small crate's module. -/
theorem predictedHrefOf_module_small : ∃ l cs, ∃ n ∈ (Tree.ofExport smallExport false).modules,
    ∃ href, Layout.plan (Tree.ofExport smallExport false) smallExport .module "" = .ok (l, cs) ∧
    n.id = "1" ∧ l.hrefFor n.id = some href ∧
    predictedHrefOf "" .module ["demo", "m"] "module" = .ok href := by
  obtain ⟨l, cs, hl⟩ := exists_layout_smallExport .module
  obtain ⟨n, hn, hid, hp⟩ := exists_node_smallExport
  have h := planned_of_layout (x := smallExport) (o := { mode := .module }) hl
  obtain ⟨plan, hfile⟩ := h.exists_file_of_node hn hp rfl
  obtain ⟨href, hhref⟩ : ∃ href, l.hrefFor n.id = some href := by
    have hfile : l.fileFor n.id = some plan := hfile
    rw [Layout.hrefFor, hfile]
    exact ⟨_, rfl⟩
  exact ⟨l, cs, n, hn, href, hl, hid, hhref,
    (predictedHrefOf_module_iff (o := { mode := .module }) hl hn hp hhref).2 (by decide)⟩

/-- On one page, the module of the small crate is an anchor, and is predicted to be a page. -/
theorem not_predictedHrefOf_module_small : ∃ l cs,
    ∃ n ∈ (Tree.ofExport smallExport false).modules,
    Layout.plan (Tree.ofExport smallExport false) smallExport .single "" = .ok (l, cs) ∧
    (Tree.ofExport smallExport false).placements.primary? n.id =
      some ⟨"1", ["demo", "m"], false⟩ ∧
    l.anchorFor n.id = some (Markdown.headerSlug "demo-m") ∧
    l.hrefFor n.id = some "/demo#demo-m" ∧
    predictedHrefOf "" .single ["demo", "m"] "module" = .ok "/demo/m" := by
  obtain ⟨l, cs, hl⟩ := exists_layout_smallExport .single
  obtain ⟨n, hn, hid, hp⟩ := exists_node_smallExport
  have h := planned_of_layout (x := smallExport) (o := { mode := .single }) hl
  have hanchor : l.anchorFor n.id = some (Markdown.headerSlug "demo-m") :=
    hid ▸ anchorFor_smallExport hl (r := anchorRequest "1" "module" "demo-m") (by decide)
  have hslug : Markdown.headerSlug "demo-m" = "demo-m" := by decide +kernel
  obtain ⟨plan, hfile⟩ := Option.ne_none_iff_exists'.1 (h.fileFor_ne_none_of_anchorFor hanchor)
  have hhref : l.hrefFor n.id = some (pageUrl "" "demo" plan.path ++ "#" ++ "demo-m") := by
    rw [← hslug]
    exact (h.hrefFor_of_anchorFor hfile hanchor).trans (by rw [h.urlOf_eq]; rfl)
  rw [h.path_of_single rfl (h.mem_files_of_fileFor hfile)] at hhref
  have hpredicted : predictedHref "" .single "demo" ["m"] "module" = "/demo/m" := by
    decide +kernel
  refine ⟨l, cs, n, hn, hl, hp, hanchor, hhref.trans ?_,
    congrArg Except.ok hpredicted⟩
  decide +kernel

end Layout

end CrateBook
