import CrateBook.Proofs.Urls

/-!
# Every page has an address of its own

Where items have pages of their own, the segments of a page are the names of the modules
above it and, for an item, the name of its file. Two modules have different paths, and two
items of one directory have different names. An item and a module with one address would
have one name below one module, but the names of child modules are reserved there.
-/
namespace CrateBook

namespace Layout

/-- The shown names are identifiers, and the kinds are free of slashes. -/
structure PlainNames (t : Tree) (x : Export) : Prop where
  names : ∀ id, ∀ p ∈ t.placements.recorded id,
    '/' ∉ p.name.toList ∧ '.' ∉ p.name.toList ∧ '-' ∉ p.name.toList
  kinds : ∀ id y, x.items.get? id = some y → '/' ∉ y.kind.toList

section

variable (t : Tree) (x : Export)

/-- The segments of an item's page. -/
def itemAddress (entry : String × List Placement) (p : Placement) : List String :=
  p.modulePath.tail ++ [((itemNames t x entry.1 entry.2).get? p.itemId).getD ""]

/-- The segments of all pages, in the order of the files. -/
def addresses : List (List String) :=
  (t.modules.filter (needsOverview x)).map (fun n => n.path.tail) ++
    (directories t).flatMap fun entry => (entry.2.mergeSort pageLe).map (itemAddress t x entry)

end

section

variable {t : Tree}

/-- The names that child modules take below a directory. -/
theorem mem_subdirectories {directory name : String} :
    name ∈ ((subdirectories t).get? directory).getD [] ↔ ∃ n ∈ t.modules,
      1 < n.path.length ∧ directoryOf n.path.dropLast = directory ∧ Text.lower n.name = name := by
  have hfold : subdirectories t = (t.modules.filter fun n => 1 < n.path.length).foldl
      (fun table n => table.push (directoryOf n.path.dropLast) (Text.lower n.name)) .empty := by
    rw [subdirectories, List.foldl_filter]
    simp only [decide_eq_true_eq]
  rw [hfold, Table.getD_foldl_push]
  simp [and_assoc, and_left_comm]

/-- An index is reserved everywhere. -/
theorem index_mem_reservedIn (directory : String) :
    Text.lower "index" ∈ reservedIn t directory := by
  have hindex : Text.lower "index" ∈ reservedFileNames := by decide
  exact List.mem_append_left _ hindex

theorem nodup_directories : ((directories t).map Prod.fst).Nodup := by
  have hsorted : (directories t).Perm (itemsByDirectory t).entries := List.mergeSort_perm _ _
  exact ((hsorted.map Prod.fst).nodup_iff).2 (itemsByDirectory t).nodup

theorem ids_itemRequests (x : Export) (ps : List Placement) :
    (itemRequests x ps).map (·.id) = ps.map (·.itemId) := by
  simp [itemRequests, Function.comp_def]

end

/-- A character that is in no word for a kind is in the words of other kinds only. -/
theorem notMem_kindPrefix {c : Char} (hc : ∀ e ∈ kindPrefixes, c ∉ e.2.toList) {kind : String}
    (h : c ∉ kind.toList) : c ∉ (kindPrefix kind).toList := by
  unfold kindPrefix
  cases hlookup : kindPrefixes.lookup kind with
  | none => exact h
  | some word => exact hc _ (mem_of_lookup_eq_some hlookup)

section

variable {x : Export} {includePrivate : Bool}

/-- The package's name stands in front of every path. -/
theorem path_eq_cons {n : Node} (hn : n ∈ (Tree.ofExport x includePrivate).modules) :
    n.path = x.package.name :: n.path.tail := by
  obtain ⟨rest, hrest⟩ := Tree.prefix_module_path x includePrivate n hn
  rw [← hrest]
  rfl

variable (h : PlainNames (Tree.ofExport x includePrivate) x)

include h

/-- The names of modules are identifiers. -/
theorem PlainNames.module {n : Node} (hn : n ∈ (Tree.ofExport x includePrivate).modules) :
    '/' ∉ n.name.toList ∧ '.' ∉ n.name.toList ∧ '-' ∉ n.name.toList := by
  have hkey : (n.id, n.path) ∈ (Tree.ofExport x includePrivate).modules.flatMap Node.keys :=
    List.mem_flatMap.2 ⟨n, hn, List.mem_cons_self⟩
  obtain ⟨p, hp, hpath⟩ := PlacementMap.holds_iff.1 ((Tree.holds_ofExport x includePrivate).2 hkey)
  have hname : p.name = n.name := by rw [Placement.name, Node.name, hpath]
  exact hname ▸ h.names _ p hp

/-- The path of a module is made of segments. -/
theorem PlainNames.path {n : Node} (hn : n ∈ (Tree.ofExport x includePrivate).modules) :
    ∀ segment ∈ n.path.tail, IsSegment segment := by
  intro segment hsegment
  have hdrop : segment ∈ n.path.drop (Tree.ofExport x includePrivate).root.path.length := by
    rwa [Tree.path_root, List.length_singleton, List.drop_one]
  obtain ⟨hne, m, hm, rfl⟩ :=
    Node.exists_of_mem_path (Tree.grown_modules x includePrivate) n hn segment hdrop
  exact ⟨hne, (h.module hm).1⟩

/-- The directory of a module tells the module's path. -/
theorem PlainNames.directoryOf_inj {m n : Node}
    (hm : m ∈ (Tree.ofExport x includePrivate).modules)
    (hn : n ∈ (Tree.ofExport x includePrivate).modules)
    (heq : directoryOf m.path = directoryOf n.path) : m = n := by
  have htail : m.path.tail = n.path.tail := intercalate_inj (h.path hm) (h.path hn) heq
  have hpath : m.path = n.path := by rw [path_eq_cons hm, path_eq_cons hn, htail]
  exact List.inj_on_of_nodup_map (Tree.nodup_module_paths x includePrivate) hm hn hpath

/-- A file in the directory of a module has the module's path in front of it. -/
theorem PlainNames.join_directoryOf {n : Node}
    (hn : n ∈ (Tree.ofExport x includePrivate).modules) (file : String) :
    (if (directoryOf n.path).isEmpty then file else directoryOf n.path ++ "/" ++ file) =
      "/".intercalate (n.path.tail ++ [file]) := by
  rw [directoryOf]
  by_cases htail : n.path.tail = []
  · rw [htail]
    rfl
  · have hne : ("/".intercalate n.path.tail).isEmpty = false := by
      -- an empty directory would be that of the package
      rw [Bool.eq_false_iff]
      intro hempty
      refine htail (intercalate_inj (h.path hn) (by simp) ?_)
      rw [String.isEmpty_iff.1 hempty]
      rfl
    rw [hne, String.intercalate_append_of_ne_nil htail (by simp), String.intercalate_singleton]
    rfl

/-- The members of a module ask for names as identifiers do. -/
theorem PlainNames.request {n : Node} (hn : n ∈ (Tree.ofExport x includePrivate).modules)
    {p : Placement} (hp : p ∈ n.members) :
    PlainRequest ⟨p.itemId, p.name, kindPrefix (kindOf x p.itemId) ++ "." ++ p.name⟩ := by
  have hgrown := Tree.grown_modules x includePrivate n hn
  obtain ⟨hslash, -, hdash⟩ := h.names _ p (Tree.recorded_members x includePrivate n hn p hp)
  obtain ⟨y, hy, -⟩ := hgrown.members_known p hp
  have hkind : '/' ∉ (kindOf x p.itemId).toList := by
    rw [kindOf, hy]
    exact h.kinds _ y hy
  exact ⟨⟨(hgrown.name_ne_empty hp).1, hslash⟩, hdash, _, notMem_kindPrefix (by decide) hkind, rfl⟩

end

section

variable {x : Export} {includePrivate : Bool} {entry : String × List Placement}
  (hentry : entry ∈ directories (Tree.ofExport x includePrivate))

include hentry

/-- An item page stands in the directory of the item's module. -/
theorem exists_node_of_directory {p : Placement} (hp : p ∈ entry.2) :
    ∃ n ∈ (Tree.ofExport x includePrivate).modules, directoryOf n.path = entry.1 ∧
      p ∈ n.members ∧ p.modulePath = n.path := by
  obtain ⟨n, hn, hdirectory, hprim⟩ := (mem_directory hentry).1 hp
  have hmember := (mem_primaryMembers.1 hprim).1
  have hgrown := Tree.grown_modules x includePrivate n hn
  exact ⟨n, hn, hdirectory, hmember, hgrown.modulePath hmember⟩

/-- An item has one page in a directory. -/
theorem eq_of_directory {p q : Placement} (hp : p ∈ entry.2) (hq : q ∈ entry.2)
    (hid : p.itemId = q.itemId) : p = q := by
  obtain ⟨m, -, -, hpm⟩ := (mem_directory hentry).1 hp
  obtain ⟨n, -, -, hqn⟩ := (mem_directory hentry).1 hq
  exact PlacementMap.eq_of_isPrimary (mem_primaryMembers.1 hpm).2 (mem_primaryMembers.1 hqn).2 hid

theorem nodup_directory : entry.2.Nodup := by
  have hall := (perm_directories.nodup_iff).2 (nodup_primaryMembers x includePrivate)
  exact (List.nodup_flatMap.1 hall).1 entry hentry

theorem nodup_ids_directory : ((itemRequests x entry.2).map (·.id)).Nodup := by
  rw [ids_itemRequests]
  exact (nodup_directory hentry).map_on fun p hp q hq => eq_of_directory hentry hp hq

variable (h : PlainNames (Tree.ofExport x includePrivate) x)

include h

/-- With plain names all requests for the names of files are plain. -/
theorem PlainNames.requests : ∀ r ∈ itemRequests x entry.2, PlainRequest r := by
  intro r hr
  obtain ⟨p, hp, rfl⟩ := List.mem_map.1 hr
  obtain ⟨n, hn, -, hmember, -⟩ := exists_node_of_directory hentry hp
  exact h.request hn hmember

/-- The file of an item has a name that is a segment: an identifier that is not reserved, or
a name that is no identifier. -/
theorem PlainNames.itemName {p : Placement} (hp : p ∈ entry.2) : ∃ name,
    (itemNames (Tree.ofExport x includePrivate) x entry.1 entry.2).get? p.itemId = some name ∧
      IsSegment name ∧
      (Text.lower name ∉ reservedIn (Tree.ofExport x includePrivate) entry.1 ∨
        '.' ∈ name.toList ∨ '-' ∈ name.toList) := by
  have hrequest : (⟨p.itemId, p.name, kindPrefix (kindOf x p.itemId) ++ "." ++ p.name⟩ : Request) ∈
      itemRequests x entry.2 := List.mem_map_of_mem hp
  obtain ⟨name, hname⟩ : ∃ name,
      (itemNames (Tree.ofExport x includePrivate) x entry.1 entry.2).get? p.itemId = some name :=
    let ⟨_, _, hname⟩ := exists_name (nodup_ids_directory hentry) hrequest
    ⟨_, hname⟩
  obtain ⟨hsegment, hcases⟩ := PlainRequest.given (h.requests hentry _ hrequest)
    (nodup_ids_directory hentry) hrequest hname
  refine ⟨name, hname, hsegment, ?_⟩
  rcases hcases with ⟨hbase, hreserved⟩ | hcases
  · exact .inl (hbase ▸ hreserved)
  · exact .inr hcases

/-- Two items of a directory have different names. -/
theorem PlainNames.itemName_inj {p q : Placement} (hp : p ∈ entry.2) (hq : q ∈ entry.2)
    {name : String}
    (hpname : (itemNames (Tree.ofExport x includePrivate) x entry.1 entry.2).get? p.itemId =
      some name)
    (hqname : (itemNames (Tree.ofExport x includePrivate) x entry.1 entry.2).get? q.itemId =
      some name) : p = q := by
  by_contra hne
  have hid : p.itemId ≠ q.itemId := fun hid => hne (eq_of_directory hentry hp hq hid)
  have hplain := h.requests hentry
  refine names_ne (f := id) (nodup_ids_directory hentry) (fun a b hab => congrArg Text.lower hab)
    (fun r hr q _ k => (hplain r hr).firstName_ne _ k) (fun r _ q _ j k => numbered_inj)
    hpname hqname hid rfl

/-- The address of an item is that of its module, with the name of its file. -/
theorem PlainNames.itemAddress {p : Placement} (hp : p ∈ entry.2) :
    ∃ n ∈ (Tree.ofExport x includePrivate).modules, ∃ name, directoryOf n.path = entry.1 ∧
      itemAddress (Tree.ofExport x includePrivate) x entry p = n.path.tail ++ [name] ∧
      (itemNames (Tree.ofExport x includePrivate) x entry.1 entry.2).get? p.itemId =
        some name := by
  obtain ⟨n, hn, hdirectory, -, hpath⟩ := exists_node_of_directory hentry hp
  obtain ⟨name, hname, -⟩ := h.itemName hentry hp
  exact ⟨n, hn, name, hdirectory, by rw [Layout.itemAddress, hpath, hname, Option.getD_some], hname⟩

theorem PlainNames.segments_itemAddress {p : Placement} (hp : p ∈ entry.2) :
    ∀ segment ∈ Layout.itemAddress (Tree.ofExport x includePrivate) x entry p,
      IsSegment segment := by
  intro segment hsegment
  obtain ⟨n, hn, name, -, haddress, hname⟩ := h.itemAddress hentry hp
  obtain ⟨name', hname', hsegment', -⟩ := h.itemName hentry hp
  obtain rfl := Option.some.inj (hname.symm.trans hname')
  rw [haddress] at hsegment
  rcases List.mem_append.1 hsegment with hsegment | hsegment
  · exact h.path hn segment hsegment
  · exact List.mem_singleton.1 hsegment ▸ hsegment'

/-- The page of an item goes by the item's segments. -/
theorem PlainNames.pagePath_itemSheet {p : Placement} (hp : p ∈ entry.2) :
    pagePath (itemSheet entry.1
      (itemNames (Tree.ofExport x includePrivate) x entry.1 entry.2) p).plan.path =
      "/".intercalate (Layout.itemAddress (Tree.ofExport x includePrivate) x entry p) := by
  obtain ⟨n, hn, name, hdirectory, haddress, hname⟩ := h.itemAddress hentry hp
  obtain ⟨name', hname', hsegment, hcases⟩ := h.itemName hentry hp
  obtain rfl := Option.some.inj (hname.symm.trans hname')
  have hindex : name ≠ "index" := by
    rintro rfl
    rcases hcases with hreserved | hcases
    · exact hreserved (index_mem_reservedIn _)
    · exact absurd hcases (by decide)
  have hpath : pagePath (itemFile entry.1 name) = "/".intercalate (n.path.tail ++ [name]) := by
    rw [pagePath_itemFile hsegment.2 hindex, ← hdirectory, h.join_directoryOf hn]
  rw [itemSheet, hname, Option.getD_some, haddress]
  exact hpath

end

section

variable {x : Export} {includePrivate : Bool} (h : PlainNames (Tree.ofExport x includePrivate) x)

include h

/-- The pages of items and modules go by their segments. -/
theorem PlainNames.pagePath_sheets :
    (sheets (Tree.ofExport x includePrivate) x .item).map (fun sheet => pagePath sheet.plan.path) =
      (addresses (Tree.ofExport x includePrivate) x).map ("/".intercalate ·) := by
  rw [sheets, addresses, List.map_append, List.map_append, List.map_map, List.map_map,
    List.map_flatMap, List.map_flatMap]
  congr 1
  · exact List.map_congr_left fun n _ => pagePath_moduleFile n.path
  · refine List.flatMap_congr fun entry hentry => ?_
    rw [directorySheets, List.map_map, List.map_map]
    exact List.map_congr_left fun p hp => h.pagePath_itemSheet hentry (List.mem_mergeSort.1 hp)

/-- With plain names every part of an address can be a segment of a URL. -/
theorem PlainNames.segments : ∀ address ∈ addresses (Tree.ofExport x includePrivate) x,
    ∀ segment ∈ address, IsSegment segment := by
  intro address haddress
  rcases List.mem_append.1 haddress with haddress | haddress
  · obtain ⟨n, hn, rfl⟩ := List.mem_map.1 haddress
    exact h.path (List.mem_of_mem_filter hn)
  · obtain ⟨entry, hentry, haddress⟩ := List.mem_flatMap.1 haddress
    obtain ⟨p, hp, rfl⟩ := List.mem_map.1 haddress
    exact h.segments_itemAddress hentry (List.mem_mergeSort.1 hp)

omit h in
theorem nodup_overviews :
    (((Tree.ofExport x includePrivate).modules.filter (needsOverview x)).map
      fun n => n.path.tail).Nodup := by
  have hnodup : (Tree.ofExport x includePrivate).modules.Nodup :=
    List.Nodup.of_map _ (Tree.nodup_module_paths x includePrivate)
  refine (hnodup.filter _).map_on fun m hm n hn heq => ?_
  have hm := List.mem_of_mem_filter hm
  have hn := List.mem_of_mem_filter hn
  have hpath : m.path = n.path := by rw [path_eq_cons hm, path_eq_cons hn, heq]
  exact List.inj_on_of_nodup_map (Tree.nodup_module_paths x includePrivate) hm hn hpath

theorem PlainNames.nodup_items :
    ((directories (Tree.ofExport x includePrivate)).flatMap fun entry =>
      (entry.2.mergeSort pageLe).map
        (Layout.itemAddress (Tree.ofExport x includePrivate) x entry)).Nodup := by
  rw [List.nodup_flatMap]
  constructor
  · intro entry hentry
    have hsorted : (entry.2.mergeSort pageLe).Nodup :=
      ((List.mergeSort_perm entry.2 pageLe).nodup_iff).2 (nodup_directory hentry)
    refine hsorted.map_on fun p hp q hq heq => ?_
    have hp := List.mem_mergeSort.1 hp
    have hq := List.mem_mergeSort.1 hq
    obtain ⟨m, -, a, -, hpaddress, ha⟩ := h.itemAddress hentry hp
    obtain ⟨n, -, b, -, hqaddress, hb⟩ := h.itemAddress hentry hq
    rw [hpaddress, hqaddress] at heq
    obtain rfl := List.singleton_inj.1 (List.append_inj' heq rfl).2
    exact h.itemName_inj hentry hp hq ha hb
  · have hkeys := List.pairwise_map.1 (nodup_directories (t := Tree.ofExport x includePrivate))
    refine hkeys.imp_of_mem fun {e f} he hf hne address hae haf => hne ?_
    obtain ⟨p, hp, rfl⟩ := List.mem_map.1 hae
    obtain ⟨q, hq, heq⟩ := List.mem_map.1 haf
    obtain ⟨m, -, a, hm, hpaddress, -⟩ := h.itemAddress he (List.mem_mergeSort.1 hp)
    obtain ⟨n, -, b, hn, hqaddress, -⟩ := h.itemAddress hf (List.mem_mergeSort.1 hq)
    rw [hpaddress, hqaddress] at heq
    rw [← hm, ← hn, directoryOf, directoryOf, (List.append_inj' heq rfl).1]

/-- No item has the segments of a module: below a directory the names of child modules are
reserved. -/
theorem PlainNames.disjoint {n : Node} (hn : n ∈ (Tree.ofExport x includePrivate).modules)
    {entry : String × List Placement}
    (hentry : entry ∈ directories (Tree.ofExport x includePrivate)) {p : Placement}
    (hp : p ∈ entry.2) :
    n.path.tail ≠ Layout.itemAddress (Tree.ofExport x includePrivate) x entry p := by
  intro heq
  obtain ⟨m, hm, name, hdirectory, haddress, hname⟩ := h.itemAddress hentry hp
  obtain ⟨name', hname', -, hcases⟩ := h.itemName hentry hp
  obtain rfl := Option.some.inj (hname.symm.trans hname')
  have hpath : n.path = m.path ++ [name] := by
    rw [path_eq_cons hn, path_eq_cons hm, heq, haddress, List.cons_append]
  have hself : n.name = name := by simp [Node.name, hpath]
  obtain ⟨-, hdot, hdash⟩ := h.module hn
  rw [hself] at hdot hdash
  rcases hcases with hreserved | hcases
  · refine hreserved (List.mem_append_right _ (mem_subdirectories.2 ⟨n, hn, ?_, ?_, ?_⟩))
    · rw [hpath, path_eq_cons hm]
      simp
    · rw [hpath, List.dropLast_concat, hdirectory]
    · rw [hself]
  · exact hcases.elim hdot hdash

theorem PlainNames.nodup_addresses :
    (addresses (Tree.ofExport x includePrivate) x).Nodup := by
  rw [addresses, List.nodup_append]
  refine ⟨nodup_overviews, h.nodup_items, ?_⟩
  intro a ha b hb hab
  obtain ⟨n, hn, rfl⟩ := List.mem_map.1 ha
  obtain ⟨entry, hentry, hb⟩ := List.mem_flatMap.1 hb
  obtain ⟨p, hp, rfl⟩ := List.mem_map.1 hb
  exact h.disjoint (List.mem_of_mem_filter hn) hentry (List.mem_mergeSort.1 hp) hab

/-- The pages of items and modules go by different paths. -/
theorem PlainNames.nodup_pagePaths :
    ((sheets (Tree.ofExport x includePrivate) x .item).map
      fun sheet => pagePath sheet.plan.path).Nodup := by
  rw [h.pagePath_sheets]
  refine h.nodup_addresses.map_on fun a ha b hb heq => ?_
  exact intercalate_inj (h.segments a ha) (h.segments b hb) heq

end

end Layout

namespace Site

/-- Where items have pages of their own, all pages have different addresses. -/
theorem nodup_urls_of_plan {x : Export} {o : Options} {s : Site} (h : Site.plan x o = .ok s)
    (hmode : o.mode = .item) (hplain : Layout.PlainNames s.tree x) :
    (s.layout.files.map s.layout.urlOf).Nodup := by
  obtain ⟨rfl, rfl, hplanned⟩ := planned_of_plan h
  rw [hplanned.tree] at hplain
  have hpaths := hplain.nodup_pagePaths
  rw [← hplanned.tree] at hpaths
  rw [hplanned.files, sheets, hmode, List.map_map, List.Nodup, List.pairwise_map]
  exact (List.pairwise_map.1 hpaths).imp fun hne heq => hne (Layout.pagePath_inj heq)

theorem paths_smallExport :
    smallPlacements.byId.entries.flatMap (fun e => e.2.map Placement.path) =
      [["demo"], ["demo", "m"], ["demo", "m", "f"], ["demo", "g"]] := rfl

theorem path_of_recorded_small {id : Id} {p : Placement}
    (hp : p ∈ (Tree.ofExport smallExport false).placements.recorded id) :
    p.path ∈ [["demo"], ["demo", "m"], ["demo", "m", "f"], ["demo", "g"]] := by
  rw [placements_smallExport] at hp
  rw [← paths_smallExport]
  exact PlacementMap.path_mem_of_recorded hp

theorem kind_smallExport {id : Id} {y : Item} (hy : smallExport.items.get? id = some y) :
    y.kind ∈ ["module", "use", "macro"] :=
  Sample.forall_crate (P := fun y => y.kind ∈ ["module", "use", "macro"]) (by decide) id y hy

theorem plainNames_smallExport :
    Layout.PlainNames (Tree.ofExport smallExport false) smallExport where
  names := by
    intro id p hp
    have hpath := path_of_recorded_small hp
    unfold Placement.name
    generalize p.path = path at hpath
    revert path
    decide
  kinds := by
    intro id y hy
    have hkind := kind_smallExport hy
    generalize y.kind = kind at hkind
    revert kind
    decide

/-- The pages of a small crate, with an item that is shown in two modules. -/
theorem nodup_urls_of_plan_small : ∃ s, Site.plan smallExport { mode := .item } = .ok s ∧
    (s.layout.files.map s.layout.urlOf).Nodup := by
  obtain ⟨s, hs⟩ := exists_plan_smallExport { mode := .item }
  obtain ⟨hsource, hoptions, hplanned⟩ := planned_of_plan hs
  have hplain : Layout.PlainNames s.tree smallExport := by
    rw [hplanned.tree, hsource, hoptions]
    exact plainNames_smallExport
  exact ⟨s, hs, nodup_urls_of_plan hs rfl hplain⟩

end Site

end CrateBook
