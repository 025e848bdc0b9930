import CrateBook.Navigation.Sidebar
import CrateBook.Proofs.Categories
import CrateBook.Proofs.LowerPaths

/-!
# Sidebars by key

The key of a sidebar joins the names of a module's path by underscores, and puts underscores for
a few other signs. So it tells the words of the names, cut at these signs, but not where one name
ends and the next begins. Of the categories with one key, the last one in the order of the tree
has the sidebar. Each module has a sidebar of its own exactly when no two of their paths have the
same words.
-/
namespace CrateBook

namespace Navigation

/-- The words of a name in a key: what stands between the signs that keys do not tell apart. -/
def keyWords (name : String) : List (List Char) :=
  (name.toList.map fun c => if isKeyGap c then '_' else c).splitOn '_'

theorem splitOn_intercalate_keyNames (path : List String) (hpath : path ≠ []) :
    (sidebarKey path).toList.splitOn '_' = path.flatMap keyWords := by
  induction path with
  | nil => exact absurd rfl hpath
  | cons name path ih =>
    cases path with
    | nil => simp [sidebarKey, keyWords]
    | cons second path =>
      have hjoin : (sidebarKey (name :: second :: path)).toList =
          (name.toList.map fun c => if isKeyGap c then '_' else c) ++
            '_' :: (sidebarKey (second :: path)).toList := by
        have hunderscore : isKeyGap '_' = false := by decide
        simp [sidebarKey, String.intercalate_cons_of_ne_nil, hunderscore]
      rw [hjoin, List.splitOn_append_cons_self, ih (List.cons_ne_nil _ _), List.flatMap_cons]
      rfl

/-- A key tells the words of a path, and nothing else. -/
theorem sidebarKey_eq_iff {p q : List String} (hp : p ≠ []) (hq : q ≠ []) :
    sidebarKey p = sidebarKey q ↔ p.flatMap keyWords = q.flatMap keyWords := by
  rw [← splitOn_intercalate_keyNames p hp, ← splitOn_intercalate_keyNames q hq]
  constructor
  · exact fun h => congrArg (fun key : String => key.toList.splitOn '_') h
  · intro h
    have hjoined := congrArg (List.intercalate ['_']) h
    rw [List.intercalate_splitOn, List.intercalate_splitOn] at hjoined
    exact String.toList_inj.1 hjoined

end Navigation

namespace Table

variable {κ α : Type} [DecidableEq κ]

theorem get?_foldl_insert (es : List (κ × α)) (t : Table κ α) (k : κ) :
    (es.foldl (fun t e => t.insert e.1 e.2) t).get? k =
      (((es.filter fun e => e.1 = k).getLast?.map Prod.snd).or (t.get? k)) := by
  induction es generalizing t with
  | nil => simp
  | cons e es ih =>
    rw [List.foldl_cons, ih, get?_insert]
    by_cases hk : e.1 = k
    · rw [List.filter_cons_of_pos (by simpa using hk), if_pos hk.symm]
      cases hlast : (es.filter fun e => e.1 = k) with
      | nil => simp
      | cons d ds => simp [List.getLast?_cons]
    · rw [List.filter_cons_of_neg (by simpa using hk), if_neg (Ne.symm hk)]

/-- Of several entries with one key, a table has the last one. -/
theorem get?_ofList (es : List (κ × α)) (k : κ) :
    (ofList es).get? k = (es.filter fun e => e.1 = k).getLast?.map Prod.snd := by
  rw [ofList, get?_foldl_insert, get?_empty, Option.or_none]

end Table

namespace Navigation

/-- The categories of the modules below the root. -/
def belowRoot (n : Navigation) : List Navigation :=
  n.categories.filter fun c => 1 < c.modulePath.length

/-- Each module below the root has a sidebar of its own. -/
structure OwnSidebars (n : Navigation) : Prop where
  size : n.sidebars.size = n.belowRoot.length
  own : ∀ c ∈ n.belowRoot, n.sidebars.get? (sidebarKey c.modulePath) = some c

theorem sidebarPaths_eq (n : Navigation) : n.sidebarPaths = n.belowRoot.map modulePath := by
  rw [sidebarPaths, List.filter_map, belowRoot]
  rfl

section

variable {n : Navigation} (hpaths : (n.categories.map modulePath).Nodup)

include hpaths

theorem subtree?_of_mem {c : Navigation} (hc : c ∈ n.categories) :
    n.subtree? c.modulePath = some c := by
  unfold subtree?
  generalize n.categories = cs at hpaths hc
  induction cs with
  | nil => exact absurd hc List.not_mem_nil
  | cons d cs ih =>
    rw [List.map_cons, List.nodup_cons] at hpaths
    rcases List.mem_cons.1 hc with rfl | hc
    · exact List.find?_cons_of_pos (beq_self_eq_true _)
    · have hne : d.modulePath ≠ c.modulePath :=
        fun heq => hpaths.1 (heq ▸ List.mem_map_of_mem hc)
      rw [List.find?_cons_of_neg (by simpa using hne), ih hpaths.2 hc]

/-- The sidebars are the categories below the root, each put under its key. -/
theorem sidebars_eq :
    n.sidebars = Table.ofList (n.belowRoot.map fun c => (sidebarKey c.modulePath, c)) := by
  have hsubtree : ∀ c ∈ n.belowRoot, (n.subtree? c.modulePath).map (fun m =>
      (sidebarKey c.modulePath, m)) = some (sidebarKey c.modulePath, c) := by
    intro c hc
    rw [subtree?_of_mem hpaths (List.mem_filter.1 hc).1, Option.map_some]
  rw [sidebars, sidebarPaths_eq, List.filterMap_map]
  congr 1
  rw [← List.filterMap_eq_map]
  exact List.filterMap_congr hsubtree

/-- Under a key stands the last category that has it. -/
theorem get?_sidebars (key : String) : n.sidebars.get? key =
    (n.belowRoot.filter fun c => sidebarKey c.modulePath = key).getLast? := by
  rw [sidebars_eq hpaths, Table.get?_ofList, List.filter_map, List.getLast?_map, Option.map_map]
  exact Option.map_id'

theorem ownSidebars_iff : n.OwnSidebars ↔ ∀ p ∈ n.sidebarPaths, ∀ q ∈ n.sidebarPaths,
    p.flatMap keyWords = q.flatMap keyWords → p = q := by
  have hne : ∀ c ∈ n.belowRoot, c.modulePath ≠ [] := by
    intro c hc hnil
    have hlong := (List.mem_filter.1 hc).2
    rw [hnil] at hlong
    exact absurd hlong (by decide)
  rw [sidebarPaths_eq]
  simp only [List.forall_mem_map]
  constructor
  · intro hown c hc d hd hwords
    have hkey := (sidebarKey_eq_iff (hne c hc) (hne d hd)).2 hwords
    have hsame := hkey ▸ hown.own c hc
    rw [hown.own d hd, Option.some.injEq] at hsame
    rw [hsame]
  · intro hapart
    have hbelow : (n.belowRoot.map modulePath).Nodup :=
      hpaths.sublist (List.filter_sublist.map modulePath)
    have hnodup :
        ((n.belowRoot.map fun c => (sidebarKey c.modulePath, c)).map Prod.fst).Nodup := by
      rw [List.map_map]
      refine (List.Nodup.of_map _ hbelow).map_on fun c hc d hd hkey => ?_
      have hwords := (sidebarKey_eq_iff (hne c hc) (hne d hd)).1 hkey
      exact List.inj_on_of_nodup_map hbelow hc hd (hapart c hc d hd hwords)
    have hentries := Table.entries_ofList hnodup
    refine ⟨?_, fun c hc => ?_⟩
    · rw [sidebars_eq hpaths, Table.size, hentries, List.length_map]
    · rw [sidebars_eq hpaths, Table.get?_eq_some_iff, hentries]
      exact List.mem_map_of_mem hc

end

theorem categories_category (label : String) (href : Option String) (collapsed : Bool)
    (path : List String) (entries : List Navigation) :
    (category label href collapsed path entries).categories =
      category label href collapsed path entries :: entries.flatMap categories := by
  rw [categories, walk, List.filter_cons_of_pos rfl, walkAll_eq_flatMap, List.filter_flatMap]
  rfl

end Navigation

namespace Site

variable (s : Site) (ds : List Document)

/-- There is a category for each node, in the order of the tree. -/
theorem modulePaths_category (n : Node) :
    (s.category ds n).categories.map Navigation.modulePath = n.walk.map Node.path := by
  induction n using Node.induction_children with
  | h n ih =>
    obtain ⟨id, path, children, members, reexports⟩ := n
    have hoverview : (s.overviewEntry ds path).flatMap Navigation.categories = [] := by
      rw [overviewEntry, List.flatMap_map]
      exact List.flatMap_eq_nil_iff.2 fun _ _ => rfl
    have hitems : ((s.itemDocuments ds path).map fun d => s.pageEntry d.title d).flatMap
        Navigation.categories = [] := by
      rw [List.flatMap_map]
      exact List.flatMap_eq_nil_iff.2 fun _ _ => rfl
    have hbelow : ((children.map (s.category ds)).flatMap Navigation.categories).map
        Navigation.modulePath = (Node.walkAll children).map Node.path := by
      rw [List.flatMap_map, Node.walkAll_eq_flatMap, List.map_flatMap, List.map_flatMap]
      exact List.flatMap_congr ih
    rw [category, Navigation.categories_category, s.categories_eq_map, List.flatMap_append,
      List.flatMap_append, hoverview, hitems, List.nil_append, List.append_nil, List.map_cons,
      hbelow, Node.walk, List.map_cons]
    rfl

variable {s}

theorem Planned.nodup_modulePaths (h : s.Planned) :
    ((s.navigation ds).categories.map Navigation.modulePath).Nodup := by
  rw [navigation, modulePaths_category, h.tree]
  exact Tree.nodup_module_paths _ _

/-- Each module below the root has a sidebar of its own just when no two have the same words in
their paths; where some have, the last one in the order of the tree has the sidebar. -/
theorem ownSidebars_iff_of_plan {x : Export} {o : Options} (h : Site.plan x o = .ok s)
    (ds : List Document) :
    (∀ key, (s.navigation ds).sidebars.get? key =
      ((s.navigation ds).belowRoot.filter fun c =>
        Navigation.sidebarKey c.modulePath = key).getLast?) ∧
    ((s.navigation ds).OwnSidebars ↔ ∀ m ∈ s.tree.modules, ∀ n ∈ s.tree.modules,
      1 < m.path.length → 1 < n.path.length →
        m.path.flatMap Navigation.keyWords = n.path.flatMap Navigation.keyWords →
          m.path = n.path) := by
  have hpaths := (planned_of_plan h).2.2.nodup_modulePaths ds
  refine ⟨Navigation.get?_sidebars hpaths, (Navigation.ownSidebars_iff hpaths).trans ?_⟩
  rw [Navigation.sidebarPaths, navigation, modulePaths_category]
  simp only [List.mem_filter, List.mem_map, decide_eq_true_eq]
  constructor
  · intro hapart m hm n hn hmlong hnlong
    exact hapart _ ⟨⟨m, hm, rfl⟩, hmlong⟩ _ ⟨⟨n, hn, rfl⟩, hnlong⟩
  · rintro hapart _ ⟨⟨m, hm, rfl⟩, hmlong⟩ _ ⟨⟨n, hn, rfl⟩, hnlong⟩
    exact hapart m hm n hn hmlong hnlong

/-- The two modules of a small crate have sidebars under different keys. -/
theorem ownSidebars_small : ∃ s ds, Site.plan smallExport { mode := .item } = .ok s ∧
    s.documents.result = .ok ds ∧ (s.navigation ds).OwnSidebars := by
  obtain ⟨s, hs⟩ := exists_plan_smallExport { mode := .item }
  obtain ⟨hsource, hoptions, hplanned⟩ := planned_of_plan hs
  obtain ⟨ds, hds⟩ := hplanned.leaves_documents.ends (writable_smallExport hsource)
  refine ⟨s, ds, hs, hds, (ownSidebars_iff_of_plan hs ds).2.2 fun m hm n hn _ _ => ?_⟩
  have hapart : ∀ p ∈ [["demo"], ["demo", "m"], ["demo", "m", "f"], ["demo", "g"]],
      ∀ q ∈ [["demo"], ["demo", "m"], ["demo", "m", "f"], ["demo", "g"]],
        p.flatMap Navigation.keyWords = q.flatMap Navigation.keyWords → p = q := by decide
  rw [hplanned.tree, hsource, hoptions] at hm hn
  exact hapart _ (Layout.path_of_node_small hm) _ (Layout.path_of_node_small hn)

end Site

/-- A crate with a module `a`, which has a module `b`, and a module `a_b`. -/
def underscoredExport : Export := Sample.crate [
  Sample.module "0" "demo" ["1", "3"], Sample.module "1" "a" ["2"], Sample.module "2" "b" [],
  Sample.module "3" "a_b" []]

/-- The crate of these modules as a text. -/
def underscoredText : String := Sample.text [
  ("0", Sample.moduleEntry "demo" [1, 3]), ("1", Sample.moduleEntry "a" [2]),
  ("2", Sample.moduleEntry "b" []), ("3", Sample.moduleEntry "a_b" [])]

set_option maxRecDepth 4000 in
theorem parse_underscoredText : Export.parse underscoredText = .ok underscoredExport :=
  Sample.read_textOf (by decide +kernel) rfl

/-- The nodes of this crate. -/
def underscoredRoot : Node :=
  .mk "0" ["demo"] [.mk "1" ["demo", "a"] [.mk "2" ["demo", "a", "b"] [] [] []] [] [],
    .mk "3" ["demo", "a_b"] [] [] []] [] []

theorem root_underscoredExport :
    (Tree.ofExport underscoredExport false).root = underscoredRoot := by
  have hroot : Tree.candidates underscoredExport false ["0"] "0" =
      [.module "1" "a" false, .module "3" "a_b" false] := rfl
  have hfirst : Tree.candidates underscoredExport false ["1", "0"] "1" =
      [.module "2" "b" false] := rfl
  have hbelow : Tree.candidates underscoredExport false ["2", "1", "0"] "2" = [] := rfl
  have hsecond : Tree.candidates underscoredExport false ["3", "0"] "3" = [] := rfl
  have hname : underscoredExport.package.name = "demo" := rfl
  have hid : underscoredExport.package.rootId = "0" := rfl
  have hids : underscoredExport.items.ids = ["0", "1", "2", "3"] := rfl
  have hsorted : underscoredRoot.children.mergeSort Tree.childLe = underscoredRoot.children :=
    List.mergeSort_of_pairwise (by decide +kernel)
  simp only [underscoredRoot, Node.children] at hsorted
  simp [Tree.ofExport, hname, hid, hids, hroot, hfirst, hbelow, hsecond, Tree.place,
    Tree.Growth.node, Tree.Growth.hasChild, Node.path, underscoredRoot, hsorted]

namespace Site

/-- Three modules below the root leave two sidebars: the one of `a::b` is overwritten by the one
of `a_b`. -/
theorem not_ownSidebars_underscored : Export.parse underscoredText = .ok underscoredExport ∧
    ∃ s ds, Site.plan underscoredExport {} = .ok s ∧ s.documents.result = .ok ds ∧
      (s.navigation ds).sidebarPaths = [["demo", "a"], ["demo", "a", "b"], ["demo", "a_b"]] ∧
      (s.navigation ds).sidebars.size = 2 ∧ ¬ (s.navigation ds).OwnSidebars := by
  have hschema : underscoredExport.FollowsSchema := Sample.forall_crate (by decide)
  obtain ⟨s, hs⟩ : ∃ s, plan underscoredExport {} = .ok s :=
    Sample.exists_plan (by decide) ⟨_, rfl⟩ {}
  obtain ⟨hsource, hoptions, hplanned⟩ := planned_of_plan hs
  have hwritable := writable_of_followsSchema (hsource ▸ hschema) (hsource ▸ ⟨_, rfl⟩)
  obtain ⟨ds, hds⟩ := hplanned.leaves_documents.ends hwritable
  have hpaths : (s.navigation ds).sidebarPaths =
      [["demo", "a"], ["demo", "a", "b"], ["demo", "a_b"]] := by
    rw [Navigation.sidebarPaths, navigation, modulePaths_category, hplanned.tree, hsource,
      hoptions, root_underscoredExport]
    decide
  have hsize : (s.navigation ds).sidebars.size = 2 := by
    have hbelow := hpaths
    rw [Navigation.sidebarPaths_eq, List.map_eq_cons_iff] at hbelow
    obtain ⟨a, _, hbelow, ha, hrest⟩ := hbelow
    obtain ⟨b, _, rfl, hb, hrest⟩ := List.map_eq_cons_iff.1 hrest
    obtain ⟨c, _, rfl, hc, hrest⟩ := List.map_eq_cons_iff.1 hrest
    obtain rfl := List.map_eq_nil_iff.1 hrest
    rw [Navigation.sidebars_eq (hplanned.nodup_modulePaths ds), hbelow]
    simp only [List.map_cons, List.map_nil, ha, hb, hc]
    rfl
  refine ⟨parse_underscoredText, s, ds, hs, hds, hpaths, hsize, fun hown => ?_⟩
  have hlength := hown.size
  rw [hsize, ← List.length_map Navigation.modulePath, ← Navigation.sidebarPaths_eq, hpaths]
    at hlength
  exact absurd hlength (by decide)

end Site

end CrateBook
