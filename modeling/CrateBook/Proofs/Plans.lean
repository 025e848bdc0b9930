import CrateBook.Proofs.Growth
import CrateBook.Proofs.Sheets
import Mathlib.Data.List.Pairwise
import Mathlib.Data.List.Perm.Basic

/-!
# The sheets of each mode

A plan that is made lays out the sheets of its mode: one sheet for the package, one for each
module, or the overviews and then the items, directory by directory. For a tree that grew
from an export each item is shown by one sheet, which its primary placement decides.
-/
namespace CrateBook.Layout

variable (t : Tree) (x : Export)

def modulePlan (n : Node) : FilePlan PageKind := ⟨moduleFile n.path, .module n, n.name, n.id⟩

def packageSheet : Sheet where
  plan := ⟨"index.md", .document t.root, x.package.name, t.root.id⟩
  owns := false
  anchors := namesOf [] (t.modules.flatMap (documentRequests t x))

/-- The requests for anchors on the page of a module. -/
def moduleRequests (n : Node) : List Request :=
  (primaryMembers t n).map fun p => anchorRequest p.itemId (kindOf x p.itemId) p.name

/-- The sheet of a module that shows its items. -/
def moduleSheet (n : Node) : Sheet where
  plan := modulePlan n
  owns := t.isPrimaryNode n
  anchors := namesOf [] (moduleRequests t x n)

/-- The sheet of a module whose items have sheets of their own. -/
def overviewSheet (n : Node) : Sheet where
  plan := modulePlan n
  owns := t.isPrimaryNode n

def itemFile (directory name : String) : String :=
  if directory.isEmpty then name ++ ".md" else directory ++ "/" ++ (name ++ ".md")

def itemSheet (directory : String) (names : Table Id String) (p : Placement) : Sheet where
  plan := ⟨itemFile directory ((names.get? p.itemId).getD ""), .item p, p.name, p.itemId⟩
  owns := true

/-- The names that no item page of a directory may take. -/
def reservedIn (directory : String) : List String :=
  reservedFileNames ++ ((subdirectories t).get? directory).getD []

/-- The requests for names of item pages. -/
def itemRequests (ps : List Placement) : List Request :=
  ps.map fun p => ⟨p.itemId, p.name, kindPrefix (kindOf x p.itemId) ++ "." ++ p.name⟩

def itemNames (directory : String) (ps : List Placement) : Table Id String :=
  namesOf (reservedIn t directory) (itemRequests x ps)

/-- The sheets of the items of a directory. -/
def directorySheets (entry : String × List Placement) : List Sheet :=
  (entry.2.mergeSort pageLe).map (itemSheet entry.1 (itemNames t x entry.1 entry.2))

/-- The directories with item pages, in order. -/
def directories : List (String × List Placement) :=
  (itemsByDirectory t).entries.mergeSort fun a b => a.1 ≤ b.1

/-- The sheets of a tree, in the order of their files. -/
def sheets : Mode → List Sheet
  | .single => [packageSheet t x]
  | .module => t.modules.map (moduleSheet t x)
  | .item => (t.modules.filter (needsOverview x)).map (overviewSheet t) ++
      (directories t).flatMap (directorySheets t x)

section

/-- Where nothing comes twice, it comes from one place. -/
theorem eq_of_nodup_flatMap {α β : Type} {as : List α} {f : α → List β}
    (h : (as.flatMap f).Nodup) {a b : α} (ha : a ∈ as) (hb : b ∈ as) {y : β} (hya : y ∈ f a)
    (hyb : y ∈ f b) : a = b := by
  have hsymm : Std.Symm (Function.onFun List.Disjoint f) :=
    ⟨fun _ _ hcd _ hd hc => hcd hc hd⟩
  by_contra hne
  exact (List.nodup_flatMap.1 h).2.forall ha hb hne hya hyb

/-- A fold that cannot fail describes one that can, where that one succeeds. -/
theorem foldl_of_foldlM {α β γ : Type} {f : β → α → Checked β} {g : γ → α → γ} {r : β → γ}
    (step : ∀ b a b', f b a = .ok b' → r b' = g (r b) a) {as : List α} {b b' : β}
    (h : as.foldlM f b = .ok b') : r b' = as.foldl g (r b) := by
  induction as generalizing b with
  | nil =>
    cases h
    rfl
  | cons a as ih =>
    rw [List.foldlM_cons] at h
    obtain ⟨c, hc, h⟩ := Except.bind_eq_ok.1 h
    rw [ih h, step b a c hc, List.foldl_cons]

variable {t x}

theorem planSingle_ok {l l' : Planned} {cs : List Collision}
    (h : planSingle t x l = .ok (l', cs)) : l' = addSheet l (packageSheet t x) := by
  obtain ⟨⟨names, collisions⟩, halloc, h⟩ := Except.bind_eq_ok.1 h
  cases h
  rw [eq_namesOf_of_allocate halloc]
  rfl

theorem planModulePage_ok {d d' : Draft} {n : Node} (h : planModulePage t x d n = .ok d') :
    d'.1 = addSheet d.1 (moduleSheet t x n) := by
  obtain ⟨⟨names, collisions⟩, halloc, h⟩ := Except.bind_eq_ok.1 h
  cases h
  rw [eq_namesOf_of_allocate halloc]
  rfl

theorem planDirectory_ok {d d' : Draft} {entry : String × List Placement}
    (h : planDirectory t x d entry = .ok d') :
    d'.1 = (directorySheets t x entry).foldl addSheet d.1 := by
  obtain ⟨⟨names, collisions⟩, halloc, h⟩ := Except.bind_eq_ok.1 h
  cases h
  rw [eq_namesOf_of_allocate halloc, directorySheets, List.foldl_map]
  rfl

theorem planOverviews_eq (l : Planned) : planOverviews t x l =
    ((t.modules.filter (needsOverview x)).map (overviewSheet t)).foldl addSheet l := by
  rw [planOverviews, List.foldl_map]
  rfl

/-- The layout of a mode holds the sheets of the mode. -/
theorem eq_sheets_of_plan {mode : Mode} {basePath : String} {l : Planned}
    {cs : List Collision} (h : Layout.plan t x mode basePath = .ok (l, cs)) :
    l = (sheets t x mode).foldl addSheet { package := x.package.name, basePath } := by
  unfold Layout.plan at h
  cases mode with
  | single => exact planSingle_ok h
  | module =>
    have hfold := foldl_of_foldlM (r := Prod.fst) (g := fun l n => addSheet l (moduleSheet t x n))
      (fun d n d' hd => planModulePage_ok hd) h
    rw [sheets, List.foldl_map]
    exact hfold
  | item =>
    have hfold := foldl_of_foldlM (r := Prod.fst)
      (g := fun l entry => (directorySheets t x entry).foldl addSheet l)
      (fun d n d' hd => planDirectory_ok hd) h
    rw [sheets, List.foldl_append, List.foldl_flatMap, ← planOverviews_eq]
    exact hfold

end

/-- The placements that a page accounts for, with a section or with an entry. -/
def placementsOn (mode : Mode) : PageKind → List Placement
  | .document _ => t.modules.flatMap Node.members
  | .module n => if mode = .module then n.members else []
  | .item p => [p]

section

variable {t x}

/-- The primary members of a node are the members that stand at their primary placement. -/
theorem mem_primaryMembers {n : Node} {p : Placement} :
    p ∈ primaryMembers t n ↔ p ∈ n.members ∧ t.placements.isPrimary p = true := List.mem_filter

/-- The items of a tree with the directories of their pages. -/
theorem itemsByDirectory_eq : itemsByDirectory t =
    (t.modules.flatMap fun n => (primaryMembers t n).map fun p => (directoryOf n.path, p)).foldl
      (fun table e => table.push e.1 e.2) .empty := by
  simp only [itemsByDirectory, List.foldl_flatMap, List.foldl_map]

/-- An item is filed under the directory of its module. -/
theorem mem_directory {directory : String} {ps : List Placement}
    (h : (directory, ps) ∈ directories t) {p : Placement} :
    p ∈ ps ↔ ∃ n ∈ t.modules, directoryOf n.path = directory ∧ p ∈ primaryMembers t n := by
  have hmem : (directory, ps) ∈ (itemsByDirectory t).entries := List.mem_mergeSort.1 h
  rw [itemsByDirectory_eq] at hmem
  rw [Table.eq_of_mem_foldl_push hmem]
  simp only [List.mem_map, List.mem_filter, List.mem_flatMap, decide_eq_true_eq]
  constructor
  · rintro ⟨e, ⟨⟨n, hn, q, hq, rfl⟩, hdirectory⟩, rfl⟩
    exact ⟨n, hn, hdirectory, hq⟩
  · rintro ⟨n, hn, hdirectory, hp⟩
    exact ⟨_, ⟨⟨n, hn, p, hp, rfl⟩, hdirectory⟩, rfl⟩

/-- The directories hold the items of a tree, each as often as the tree does. -/
theorem perm_directories : ((directories t).flatMap fun entry => entry.2).Perm
    (t.modules.flatMap (primaryMembers t)) := by
  have hsorted : (directories t).Perm (itemsByDirectory t).entries := List.mergeSort_perm _ _
  refine (hsorted.flatMap_right _).trans ?_
  rw [itemsByDirectory_eq]
  refine (Table.perm_foldl_push (f := Prod.fst) (g := Prod.snd) _).trans ?_
  simp [List.map_flatMap, Function.comp_def]

theorem placementsOn_directorySheets (entry : String × List Placement) :
    (directorySheets t x entry).flatMap (fun sheet => placementsOn t .item sheet.plan.page) =
      entry.2.mergeSort pageLe := by
  simp [directorySheets, itemSheet, placementsOn, List.flatMap_map]

/-- In pages for modules and for the package, every placement is accounted for once. -/
theorem placementsOn_sheets {mode : Mode} (h : mode ≠ .item) :
    (sheets t x mode).flatMap (fun sheet => placementsOn t mode sheet.plan.page) =
      t.modules.flatMap Node.members := by
  cases mode with
  | single => simp [sheets, packageSheet, placementsOn]
  | module => simp [sheets, moduleSheet, modulePlan, placementsOn, List.flatMap_map]
  | item => exact absurd rfl h

/-- In pages for items, every primary placement is. -/
theorem perm_placementsOn_sheets :
    ((sheets t x .item).flatMap fun sheet => placementsOn t .item sheet.plan.page).Perm
      (t.modules.flatMap (primaryMembers t)) := by
  have hoverviews : ((t.modules.filter (needsOverview x)).map (overviewSheet t)).flatMap
      (fun sheet => placementsOn t .item sheet.plan.page) = [] := by
    simp [overviewSheet, modulePlan, placementsOn, List.flatMap_map]
  rw [sheets, List.flatMap_append, hoverviews, List.nil_append, List.flatMap_assoc]
  simp only [placementsOn_directorySheets]
  refine .trans ?_ perm_directories
  exact List.Perm.flatMap_left _ fun entry _ => List.mergeSort_perm _ _

theorem contains_namesOf {reserved : List String} {requests : List Request} {id : Id} :
    (namesOf reserved requests).contains id = true ↔ id ∈ requests.map (·.id) := by
  rw [Table.contains, Option.isSome_iff_exists, ← Table.mem_keys_iff, mem_keys_namesOf]

theorem ids_moduleRequests (n : Node) :
    (moduleRequests t x n).map (·.id) = (primaryMembers t n).map (·.itemId) := by
  simp [moduleRequests, anchorRequest, Function.comp_def]

theorem mem_ids_documentRequests {n : Node} {id : Id} :
    id ∈ (documentRequests t x n).map (·.id) ↔
      t.isPrimaryNode n = true ∧ id = n.id ∨ id ∈ (primaryMembers t n).map (·.itemId) := by
  have hmembers : ((primaryMembers t n).map fun p =>
      anchorRequest p.itemId (kindOf x p.itemId) ("-".intercalate p.path)).map (·.id) =
      (primaryMembers t n).map (·.itemId) := by
    simp [anchorRequest, Function.comp_def]
  rw [documentRequests, List.map_append, List.mem_append, hmembers]
  cases t.isPrimaryNode n <;> simp [anchorRequest]

/-- For an item that is no module, a sheet shows just the items whose primary placements it
accounts for. -/
theorem shows_iff {mode : Mode} {sheet : Sheet} (hsheet : sheet ∈ sheets t x mode) {id : Id}
    (hid : ∀ n ∈ t.modules, n.id ≠ id) : sheet.shows id = true ↔
      ∃ p ∈ placementsOn t mode sheet.plan.page, t.placements.isPrimary p = true ∧
        p.itemId = id := by
  cases mode with
  | single =>
    obtain rfl := List.mem_singleton.1 hsheet
    have hmem : (packageSheet t x).shows id = true ↔
        ∃ n ∈ t.modules, id ∈ (documentRequests t x n).map (·.id) := by
      rw [Sheet.shows, packageSheet, Bool.false_and, Bool.false_or, contains_namesOf,
        List.map_flatMap, List.mem_flatMap]
    rw [hmem]
    simp only [mem_ids_documentRequests]
    simp only [packageSheet, placementsOn, List.mem_flatMap, List.mem_map, mem_primaryMembers]
    constructor
    · rintro ⟨n, hn, ⟨-, rfl⟩ | ⟨p, ⟨hp, hprim⟩, rfl⟩⟩
      · exact absurd rfl (hid n hn)
      · exact ⟨p, ⟨n, hn, hp⟩, hprim, rfl⟩
    · rintro ⟨p, ⟨n, hn, hp⟩, hprim, rfl⟩
      exact ⟨n, hn, .inr ⟨p, ⟨hp, hprim⟩, rfl⟩⟩
  | module =>
    obtain ⟨n, hn, rfl⟩ := List.mem_map.1 hsheet
    have hself : (n.id == id) = false := by simpa using hid n hn
    have hmem : (moduleSheet t x n).shows id = true ↔
        id ∈ (primaryMembers t n).map (·.itemId) := by
      rw [Sheet.shows, moduleSheet, modulePlan, hself, Bool.and_false, Bool.false_or,
        contains_namesOf, ids_moduleRequests]
    rw [hmem]
    simp [moduleSheet, modulePlan, placementsOn, mem_primaryMembers, and_assoc]
  | item =>
    rcases List.mem_append.1 hsheet with hsheet | hsheet
    · obtain ⟨n, hn, rfl⟩ := List.mem_map.1 hsheet
      have hself : n.id ≠ id := hid n (List.mem_of_mem_filter hn)
      simp [Sheet.shows, overviewSheet, modulePlan, placementsOn, Table.contains, hself]
    · obtain ⟨⟨directory, ps⟩, hentry, hsheet⟩ := List.mem_flatMap.1 hsheet
      obtain ⟨p, hp, rfl⟩ := List.mem_map.1 hsheet
      obtain ⟨n, -, -, hprim⟩ := (mem_directory hentry).1 (List.mem_mergeSort.1 hp)
      have hprim := (mem_primaryMembers.1 hprim).2
      simp [Sheet.shows, itemSheet, placementsOn, Table.contains, hprim]

/-- Where items have pages, they need no anchors. -/
theorem anchors_item {sheet : Sheet} (hsheet : sheet ∈ sheets t x .item) :
    sheet.anchors = .empty := by
  rcases List.mem_append.1 hsheet with hsheet | hsheet
  · obtain ⟨n, -, rfl⟩ := List.mem_map.1 hsheet
    rfl
  · obtain ⟨entry, -, hsheet⟩ := List.mem_flatMap.1 hsheet
    obtain ⟨p, -, rfl⟩ := List.mem_map.1 hsheet
    rfl

end

section

variable (x : Export) (includePrivate : Bool) (mode : Mode)

theorem nodup_primaryMembers : ((Tree.ofExport x includePrivate).modules.flatMap
    (primaryMembers (Tree.ofExport x includePrivate))).Nodup := by
  have hfilter := (Tree.nodup_members x includePrivate).filter
    (Tree.ofExport x includePrivate).placements.isPrimary
  rwa [List.filter_flatMap] at hfilter

/-- No placement is accounted for on two pages, or twice on one. -/
theorem nodup_placementsOn : ((sheets (Tree.ofExport x includePrivate) x mode).flatMap
    fun sheet => placementsOn (Tree.ofExport x includePrivate) mode sheet.plan.page).Nodup := by
  by_cases hmode : mode = .item
  · subst hmode
    exact (perm_placementsOn_sheets.nodup_iff).2 (nodup_primaryMembers x includePrivate)
  · rw [placementsOn_sheets hmode]
    exact Tree.nodup_members x includePrivate

variable {x includePrivate mode}

/-- What a page accounts for is a member of a module. -/
theorem exists_node_of_placementsOn {sheet : Sheet}
    (hsheet : sheet ∈ sheets (Tree.ofExport x includePrivate) x mode) {p : Placement}
    (hp : p ∈ placementsOn (Tree.ofExport x includePrivate) mode sheet.plan.page) :
    ∃ n ∈ (Tree.ofExport x includePrivate).modules, p ∈ n.members := by
  have hall : p ∈ (sheets (Tree.ofExport x includePrivate) x mode).flatMap fun sheet =>
      placementsOn (Tree.ofExport x includePrivate) mode sheet.plan.page :=
    List.mem_flatMap.2 ⟨sheet, hsheet, hp⟩
  by_cases hmode : mode = .item
  · subst hmode
    obtain ⟨n, hn, hp⟩ := List.mem_flatMap.1 (perm_placementsOn_sheets.mem_iff.1 hall)
    exact ⟨n, hn, (mem_primaryMembers.1 hp).1⟩
  · rw [placementsOn_sheets hmode] at hall
    exact List.mem_flatMap.1 hall

/-- Each primary placement is accounted for on a page. -/
theorem exists_sheet_of_member {n : Node}
    (hn : n ∈ (Tree.ofExport x includePrivate).modules) {p : Placement} (hp : p ∈ n.members)
    (hprim : (Tree.ofExport x includePrivate).placements.isPrimary p = true ∨ mode ≠ .item) :
    ∃ sheet ∈ sheets (Tree.ofExport x includePrivate) x mode,
      p ∈ placementsOn (Tree.ofExport x includePrivate) mode sheet.plan.page := by
  refine List.mem_flatMap.1 ?_
  by_cases hmode : mode = .item
  · subst hmode
    have hprim := hprim.resolve_right fun h => h rfl
    exact perm_placementsOn_sheets.mem_iff.2
      (List.mem_flatMap.2 ⟨n, hn, mem_primaryMembers.2 ⟨hp, hprim⟩⟩)
  · rw [placementsOn_sheets hmode]
    exact List.mem_flatMap.2 ⟨n, hn, hp⟩

/-- An item that is no module stands in the file that accounts for its primary placement. -/
theorem find?_shows_of_mem {sheet : Sheet}
    (hsheet : sheet ∈ sheets (Tree.ofExport x includePrivate) x mode) {p : Placement}
    (hp : p ∈ placementsOn (Tree.ofExport x includePrivate) mode sheet.plan.page)
    (hprim : (Tree.ofExport x includePrivate).placements.isPrimary p = true) :
    ((sheets (Tree.ofExport x includePrivate) x mode).find? (·.shows p.itemId)) =
      some sheet := by
  obtain ⟨n, hn, hpn⟩ := exists_node_of_placementsOn hsheet hp
  have hid : ∀ m ∈ (Tree.ofExport x includePrivate).modules, m.id ≠ p.itemId :=
    Tree.node_id_ne_member x includePrivate n hn p hpn
  have hshows : sheet.shows p.itemId = true := (shows_iff hsheet hid).2 ⟨p, hp, hprim, rfl⟩
  have hsome : ((sheets (Tree.ofExport x includePrivate) x mode).find?
      (·.shows p.itemId)).isSome = true := List.find?_isSome.2 ⟨sheet, hsheet, hshows⟩
  obtain ⟨other, hfind⟩ := Option.isSome_iff_exists.1 hsome
  have hother := List.mem_of_find?_eq_some hfind
  have hothershows := List.find?_some hfind
  obtain ⟨q, hq, hqprim, hqid⟩ := (shows_iff hother hid).1 hothershows
  obtain rfl := PlacementMap.eq_of_isPrimary hqprim hprim hqid
  rw [hfind, eq_of_nodup_flatMap (nodup_placementsOn x includePrivate mode) hother hsheet hq hp]

end

end CrateBook.Layout
