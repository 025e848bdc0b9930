import CrateBook.Proofs.Addresses
import CrateBook.Proofs.Ordinals

/-!
# Paths that agree in lower case

The slashes of a path separate words, so a path in lower case is made of the segments in lower
case. The names of the files of one directory are told apart in lower case, but those of
directories are not: two modules whose paths agree in lower case may have files that do. A
capital sigma has its say too. At the end of a name it is another small letter than in front of
the suffix, where the dot does not end the word.
-/
namespace CrateBook

namespace Text

/-- A path in lower case is made of its segments in lower case. -/
theorem lower_intercalate (segments : List String) :
    lower ("/".intercalate segments) = "/".intercalate (segments.map lower) := by
  have hseparates : separates '/' = true := by decide +kernel
  induction segments with
  | nil => rfl
  | cons segment segments ih =>
    by_cases hnil : segments = []
    · rw [hnil, List.map_singleton, String.intercalate_singleton, String.intercalate_singleton]
    · have hmap : segments.map lower ≠ [] := by simpa using hnil
      rw [List.map_cons, String.intercalate_cons_of_ne_nil hnil,
        String.intercalate_cons_of_ne_nil hmap, ← ih]
      exact lower_append_separator hseparates _ _

/-- Where there is no capital sigma, the neighbours of a character have no say. -/
theorem lowerAfter_eq_flatMap {before cs : List Char} (h : 'Σ' ∉ cs) :
    lowerAfter before cs = cs.flatMap lowerChar := by
  induction cs generalizing before with
  | nil => rfl
  | cons c cs ih =>
    rw [List.mem_cons, not_or] at h
    rw [lowerAfter, lowerAt, if_neg (Ne.symm h.1), ih h.2, List.flatMap_cons]

theorem lower_append {s t : String} (hs : 'Σ' ∉ s.toList) (ht : 'Σ' ∉ t.toList) :
    lower (s ++ t) = lower s ++ lower t := by
  have hst : 'Σ' ∉ (s ++ t).toList := by simp [hs, ht]
  rw [lower, lower, lower, lowerAfter_eq_flatMap hst, lowerAfter_eq_flatMap hs,
    lowerAfter_eq_flatMap ht, String.toList_append, List.flatMap_append, String.ofList_append]

/-- A suffix changes the last letter of a name that ends in a capital sigma. -/
example : lower "ΑΣ" ≠ lower "ασ" ∧ lower "ΑΣ.md" = lower "ασ.md" := by decide +kernel

/-- Lower case leaves something of every character. -/
theorem lowerAt_ne_nil {before rest : List Char} {c : Char} : lowerAt before c rest ≠ [] := by
  unfold lowerAt lowerChar
  split
  · exact List.cons_ne_nil _ _
  · split
    · exact List.cons_ne_nil _ _
    · split <;> exact List.cons_ne_nil _ _

theorem lowerAfter_eq_nil_iff {before cs : List Char} : lowerAfter before cs = [] ↔ cs = [] := by
  cases cs with
  | nil => simp [lowerAfter]
  | cons c cs => simp [lowerAfter, lowerAt_ne_nil]

/-- A capital sigma leaves a small one. -/
theorem sigma_mem_lowerAfter {before cs : List Char} (h : 'Σ' ∈ cs) :
    'ς' ∈ lowerAfter before cs ∨ 'σ' ∈ lowerAfter before cs := by
  induction cs generalizing before with
  | nil => exact absurd h List.not_mem_nil
  | cons c cs ih =>
    rw [lowerAfter, List.mem_append, List.mem_append]
    rcases List.mem_cons.1 h with rfl | h
    · rw [lowerAt, if_pos rfl]
      split <;> simp
    · exact (ih h).imp .inr .inr

end Text

namespace Layout

theorem isSegment_lower {s : String} (h : IsSegment s) : IsSegment (Text.lower s) := by
  have hslash : '/' ∉ (Text.lower s).toList := by
    rw [Text.lower, String.toList_ofList, Text.mem_lowerAfter (by decide)]
    exact h.2
  refine ⟨fun hempty => h.1 ?_, hslash⟩
  rw [Text.lower, ← String.toList_inj, String.toList_ofList] at hempty
  exact String.toList_inj.1 (Text.lowerAfter_eq_nil_iff.1 hempty)

/-- Paths agree in lower case just if their segments do. -/
theorem lower_intercalate_inj {as bs : List String} (ha : ∀ a ∈ as, IsSegment a)
    (hb : ∀ b ∈ bs, IsSegment b) :
    Text.lower ("/".intercalate as) = Text.lower ("/".intercalate bs) ↔
      as.map Text.lower = bs.map Text.lower := by
  have hlower {cs : List String} (hc : ∀ c ∈ cs, IsSegment c) :
      ∀ c ∈ cs.map Text.lower, IsSegment c := by
    intro c hmem
    obtain ⟨d, hd, rfl⟩ := List.mem_map.1 hmem
    exact isSegment_lower (hc d hd)
  rw [Text.lower_intercalate, Text.lower_intercalate]
  exact ⟨intercalate_inj (hlower ha) (hlower hb), congrArg _⟩

theorem map_lower_concat {as bs : List String} {a b : String} :
    (as ++ [a]).map Text.lower = (bs ++ [b]).map Text.lower ↔
      as.map Text.lower = bs.map Text.lower ∧ Text.lower a = Text.lower b := by
  rw [List.map_append, List.map_append, List.map_singleton, List.map_singleton]
  constructor
  · intro heq
    obtain ⟨hinit, hlast⟩ := List.append_inj' heq rfl
    exact ⟨hinit, List.singleton_inj.1 hlast⟩
  · rintro ⟨hinit, hlast⟩
    rw [hinit, hlast]

section

variable (t : Tree) (x : Export)

def itemsIn (directory : String) : List Placement :=
  ((itemsByDirectory t).get? directory).getD []

/-- The name of an item's file. -/
def fileName (p : Placement) : String :=
  ((itemNames t x (directoryOf p.modulePath) (itemsIn t (directoryOf p.modulePath))).get?
    p.itemId).getD "" ++ ".md"

/-- The segments of the path of a page: the modules above it, and the name of its file. -/
def fileAddress : PageKind → List String
  | .document _ => ["index.md"]
  | .module n => n.path.tail ++ ["index.md"]
  | .item p => p.modulePath.tail ++ [fileName t x p]

end

section

variable {x : Export} {includePrivate : Bool}

/-- No two files show the same. -/
theorem nodup_pages (mode : Mode) :
    ((sheets (Tree.ofExport x includePrivate) x mode).map (·.plan.page)).Nodup := by
  have hmodules : (Tree.ofExport x includePrivate).modules.Nodup :=
    List.Nodup.of_map _ (Tree.nodup_module_paths x includePrivate)
  cases mode with
  | single => exact List.nodup_singleton _
  | module =>
    rw [sheets, List.map_map]
    exact hmodules.map fun m n h => PageKind.module.inj h
  | item =>
    rw [sheets, List.map_append, List.map_map, List.map_flatMap, List.nodup_append]
    refine ⟨(hmodules.filter _).map fun m n h => PageKind.module.inj h, ?_, ?_⟩
    · have hitems : ((directories (Tree.ofExport x includePrivate)).flatMap fun entry =>
          entry.2.mergeSort pageLe).Nodup :=
        ((List.Perm.flatMap_left _ fun entry _ => List.mergeSort_perm _ _).nodup_iff).2
          ((perm_directories.nodup_iff).2 (nodup_primaryMembers x includePrivate))
      have hpages := hitems.map fun p q h => PageKind.item.inj h
      rw [List.map_flatMap] at hpages
      simp only [directorySheets, List.map_map]
      exact hpages
    · intro a ha b hb hab
      obtain ⟨n, -, rfl⟩ := List.mem_map.1 ha
      obtain ⟨entry, -, hb⟩ := List.mem_flatMap.1 hb
      obtain ⟨sheet, hsheet, rfl⟩ := List.mem_map.1 hb
      obtain ⟨p, -, rfl⟩ := List.mem_map.1 hsheet
      cases hab

/-- A page shows the package, a module of the tree or an item of a directory. -/
theorem cases_page {mode : Mode} {page : PageKind}
    (h : page ∈ (sheets (Tree.ofExport x includePrivate) x mode).map (·.plan.page)) :
    mode = .single ∧ page = .document (Tree.ofExport x includePrivate).root ∨
      (∃ n ∈ (Tree.ofExport x includePrivate).modules, page = .module n) ∨
      mode = .item ∧ ∃ entry ∈ directories (Tree.ofExport x includePrivate), ∃ p ∈ entry.2,
        page = .item p := by
  obtain ⟨sheet, hsheet, rfl⟩ := List.mem_map.1 h
  cases mode with
  | single =>
    obtain rfl := List.mem_singleton.1 hsheet
    exact .inl ⟨rfl, rfl⟩
  | module =>
    obtain ⟨n, hn, rfl⟩ := List.mem_map.1 hsheet
    exact .inr (.inl ⟨n, hn, rfl⟩)
  | item =>
    rcases List.mem_append.1 hsheet with hsheet | hsheet
    · obtain ⟨n, hn, rfl⟩ := List.mem_map.1 hsheet
      exact .inr (.inl ⟨n, List.mem_of_mem_filter hn, rfl⟩)
    · obtain ⟨entry, hentry, hsheet⟩ := List.mem_flatMap.1 hsheet
      obtain ⟨p, hp, rfl⟩ := List.mem_map.1 hsheet
      exact .inr (.inr ⟨rfl, entry, hentry, p, List.mem_mergeSort.1 hp, rfl⟩)

theorem mem_modules_of_page {mode : Mode} {n : Node}
    (h : PageKind.module n ∈
      (sheets (Tree.ofExport x includePrivate) x mode).map (·.plan.page)) :
    n ∈ (Tree.ofExport x includePrivate).modules := by
  rcases cases_page h with ⟨-, heq⟩ | ⟨m, hm, heq⟩ | ⟨-, _, -, _, -, heq⟩ <;> cases heq
  exact hm

theorem exists_directory_of_page {mode : Mode} {p : Placement}
    (h : PageKind.item p ∈
      (sheets (Tree.ofExport x includePrivate) x mode).map (·.plan.page)) :
    ∃ entry ∈ directories (Tree.ofExport x includePrivate), p ∈ entry.2 := by
  rcases cases_page h with ⟨-, heq⟩ | ⟨_, -, heq⟩ | ⟨-, entry, hentry, q, hq, heq⟩ <;> cases heq
  exact ⟨entry, hentry, hq⟩

/-- Where one item has a page, all items of the directories do. -/
theorem mem_pages_of_directory {mode : Mode} {p q : Placement}
    (h : PageKind.item p ∈
      (sheets (Tree.ofExport x includePrivate) x mode).map (·.plan.page))
    {entry : String × List Placement}
    (hentry : entry ∈ directories (Tree.ofExport x includePrivate)) (hq : q ∈ entry.2) :
    PageKind.item q ∈
      (sheets (Tree.ofExport x includePrivate) x mode).map (·.plan.page) := by
  rcases cases_page h with ⟨-, heq⟩ | ⟨_, -, heq⟩ | ⟨rfl, -⟩
  · cases heq
  · cases heq
  · have hsheet : itemSheet entry.1 (itemNames (Tree.ofExport x includePrivate) x entry.1 entry.2)
        q ∈ directorySheets (Tree.ofExport x includePrivate) x entry :=
      List.mem_map_of_mem (List.mem_mergeSort.2 hq)
    exact List.mem_map.2
      ⟨_, List.mem_append_right _ (List.mem_flatMap.2 ⟨entry, hentry, hsheet⟩), rfl⟩

end

section

variable {x : Export} {includePrivate : Bool} {entry : String × List Placement}
  (hentry : entry ∈ directories (Tree.ofExport x includePrivate))

include hentry

theorem itemsIn_of_directory : itemsIn (Tree.ofExport x includePrivate) entry.1 = entry.2 := by
  have hmem : entry ∈ (itemsByDirectory (Tree.ofExport x includePrivate)).entries :=
    List.mem_mergeSort.1 hentry
  rw [itemsIn, Table.get?_eq_some_iff.2 hmem, Option.getD_some]

/-- The name of an item's file is given out in the item's directory. -/
theorem fileName_of_directory {p : Placement} (hp : p ∈ entry.2) :
    fileName (Tree.ofExport x includePrivate) x p =
      ((itemNames (Tree.ofExport x includePrivate) x entry.1 entry.2).get? p.itemId).getD "" ++
        ".md" := by
  obtain ⟨n, -, hdirectory, -, hpath⟩ := exists_node_of_directory hentry hp
  rw [fileName, hpath, hdirectory, itemsIn_of_directory hentry]

variable (h : PlainNames (Tree.ofExport x includePrivate) x)

include h

/-- The path of an item's file goes by its segments. -/
theorem PlainNames.path_itemSheet {p : Placement} (hp : p ∈ entry.2) :
    (itemSheet entry.1
      (itemNames (Tree.ofExport x includePrivate) x entry.1 entry.2) p).plan.path =
      "/".intercalate (fileAddress (Tree.ofExport x includePrivate) x (.item p)) := by
  obtain ⟨n, hn, hdirectory, -, hpath⟩ := exists_node_of_directory hentry hp
  rw [fileAddress, fileName_of_directory hentry hp, hpath, ← h.join_directoryOf hn, hdirectory]
  rfl

/-- No file of an item reads like an index. -/
theorem PlainNames.lower_fileName_ne {p : Placement} (hp : p ∈ entry.2) :
    Text.lower (fileName (Tree.ofExport x includePrivate) x p) ≠ Text.lower "index.md" := by
  obtain ⟨name, hname, -, hcases⟩ := h.itemName hentry hp
  rw [fileName_of_directory hentry hp, hname, Option.getD_some]
  have hindex : Text.lower "index.md" = "index.md" := by decide +kernel
  intro heq
  rw [hindex] at heq
  have hsigma : 'Σ' ∉ name.toList := by
    intro hmem
    have hmem : 'Σ' ∈ (name ++ ".md").toList := by simp [hmem]
    have hsmall := @Text.sigma_mem_lowerAfter [] _ hmem
    rw [← String.toList_inj, Text.lower, String.toList_ofList] at heq
    rw [heq] at hsmall
    exact absurd hsmall (by decide)
  have hsuffix : Text.lower ".md" = ".md" := by decide +kernel
  rw [Text.lower_append hsigma (by decide), hsuffix] at heq
  have hlower : Text.lower name = "index" := (String.append_left_inj _).1 heq
  rcases hcases with hreserved | hsign
  · refine hreserved ?_
    have hself : Text.lower "index" = "index" := by decide +kernel
    rw [hlower, ← hself]
    exact index_mem_reservedIn _
  · have hsigns : '.' ∈ (Text.lower name).toList ∨ '-' ∈ (Text.lower name).toList := by
      rw [Text.lower, String.toList_ofList, Text.mem_lowerAfter (by decide),
        Text.mem_lowerAfter (by decide)]
      exact hsign
    rw [hlower] at hsigns
    exact absurd hsigns (by decide)

/-- Without capital sigmas, the files of a directory have names that differ in lower case. -/
theorem PlainNames.lower_fileName_inj
    (hsigma : ∀ p ∈ entry.2, 'Σ' ∉ p.name.toList ∧ 'Σ' ∉ (kindOf x p.itemId).toList)
    {p q : Placement} (hp : p ∈ entry.2) (hq : q ∈ entry.2)
    (heq : Text.lower (fileName (Tree.ofExport x includePrivate) x p) =
      Text.lower (fileName (Tree.ofExport x includePrivate) x q)) : p = q := by
  obtain ⟨a, ha, -, -⟩ := h.itemName hentry hp
  obtain ⟨b, hb, -, -⟩ := h.itemName hentry hq
  have hids := nodup_ids_directory hentry
  have hplain {id : Id} {name : String} (hname : (itemNames (Tree.ofExport x includePrivate) x
      entry.1 entry.2).get? id = some name) : 'Σ' ∉ name.toList := by
    refine forall_names (P := fun s => 'Σ' ∉ s.toList) (fun r hr => ?_) (fun s k hs => ?_) hname
    · obtain ⟨q, hq, rfl⟩ := List.mem_map.1 hr
      obtain ⟨hbase, hkind⟩ := hsigma q hq
      have hprefix := notMem_kindPrefix (c := 'Σ') (by decide) hkind
      simp [hbase, hprefix]
    · simpa [toList_numbered, hs] using notMem_toString (by decide) k
  have hfiles : ∀ r ∈ itemRequests x entry.2, IsFileRequest r := by
    intro r hr
    obtain ⟨word, -, hword⟩ := (h.requests hentry r hr).qualified
    exact ⟨(h.requests hentry r hr).dashless, word, hword⟩
  have hmeets : ¬ MeetsNumber (reservedIn (Tree.ofExport x includePrivate) entry.1)
      (itemRequests x entry.2) := by
    rintro ⟨r, hr, s, -, k, -, -, hmeets⟩
    exact (hfiles r hr).lower_firstName_ne _ k hmeets
  have hnodup := (nodup_lower_namesOf hids).2 hmeets
  rw [fileName_of_directory hentry hp, fileName_of_directory hentry hq, ha, hb, Option.getD_some,
    Option.getD_some, Text.lower_append (hplain ha) (by decide),
    Text.lower_append (hplain hb) (by decide)] at heq
  have hlower : Text.lower a = Text.lower b := (String.append_left_inj _).1 heq
  have hsame := List.inj_on_of_nodup_map hnodup (Table.get?_eq_some_iff.1 ha)
    (Table.get?_eq_some_iff.1 hb) hlower
  exact eq_of_directory hentry hp hq (Prod.mk.inj hsame).1

end

section

variable {x : Export} {includePrivate : Bool} (h : PlainNames (Tree.ofExport x includePrivate) x)
  {mode : Mode} {sheet : Sheet}
  (hsheet : sheet ∈ sheets (Tree.ofExport x includePrivate) x mode)

include h hsheet

/-- The path of a file goes by its segments. -/
theorem PlainNames.path_of_sheet : sheet.plan.path =
    "/".intercalate (fileAddress (Tree.ofExport x includePrivate) x sheet.plan.page) := by
  cases mode with
  | single =>
    obtain rfl := List.mem_singleton.1 hsheet
    rfl
  | module =>
    obtain ⟨n, -, rfl⟩ := List.mem_map.1 hsheet
    rfl
  | item =>
    rcases List.mem_append.1 hsheet with hsheet | hsheet
    · obtain ⟨n, -, rfl⟩ := List.mem_map.1 hsheet
      rfl
    · obtain ⟨entry, hentry, hsheet⟩ := List.mem_flatMap.1 hsheet
      obtain ⟨p, hp, rfl⟩ := List.mem_map.1 hsheet
      exact h.path_itemSheet hentry (List.mem_mergeSort.1 hp)

theorem PlainNames.segments_fileAddress :
    ∀ segment ∈ fileAddress (Tree.ofExport x includePrivate) x sheet.plan.page,
      IsSegment segment := by
  have hindex : IsSegment "index.md" := ⟨by decide, by decide⟩
  have hmodule {n : Node} (hn : n ∈ (Tree.ofExport x includePrivate).modules) :
      ∀ segment ∈ n.path.tail ++ ["index.md"], IsSegment segment := by
    simp only [List.forall_mem_append, List.forall_mem_singleton]
    exact ⟨h.path hn, hindex⟩
  cases mode with
  | single =>
    obtain rfl := List.mem_singleton.1 hsheet
    exact List.forall_mem_singleton.2 hindex
  | module =>
    obtain ⟨n, hn, rfl⟩ := List.mem_map.1 hsheet
    exact hmodule hn
  | item =>
    rcases List.mem_append.1 hsheet with hsheet | hsheet
    · obtain ⟨n, hn, rfl⟩ := List.mem_map.1 hsheet
      exact hmodule (List.mem_of_mem_filter hn)
    · obtain ⟨entry, hentry, hsheet⟩ := List.mem_flatMap.1 hsheet
      obtain ⟨p, hp, rfl⟩ := List.mem_map.1 hsheet
      have hp := List.mem_mergeSort.1 hp
      obtain ⟨n, hn, -, -, hpath⟩ := exists_node_of_directory hentry hp
      obtain ⟨name, hname, hsegment, -⟩ := h.itemName hentry hp
      have hfile : IsSegment (name ++ ".md") := by
        refine ⟨fun hempty => absurd (congrArg String.toList hempty) (by simp), ?_⟩
        simp [hsegment.2]
      simp only [itemSheet, fileAddress, fileName_of_directory hentry hp, hname, hpath,
        List.forall_mem_append, List.forall_mem_singleton]
      exact ⟨h.path hn, hfile⟩

end

section

variable {x : Export} {includePrivate : Bool} (h : PlainNames (Tree.ofExport x includePrivate) x)

include h

/-- The paths of a plan differ in lower case just if different pages have different segments in
lower case. -/
theorem PlainNames.nodup_lower_paths (mode : Mode) :
    ((sheets (Tree.ofExport x includePrivate) x mode).map
      fun sheet => Text.lower sheet.plan.path).Nodup ↔
      ∀ a ∈ (sheets (Tree.ofExport x includePrivate) x mode).map (·.plan.page),
        ∀ b ∈ (sheets (Tree.ofExport x includePrivate) x mode).map (·.plan.page),
          (fileAddress (Tree.ofExport x includePrivate) x a).map Text.lower =
            (fileAddress (Tree.ofExport x includePrivate) x b).map Text.lower → a = b := by
  have hpaths : (sheets (Tree.ofExport x includePrivate) x mode).map
      (fun sheet => Text.lower sheet.plan.path) =
      ((sheets (Tree.ofExport x includePrivate) x mode).map (·.plan.page)).map fun page =>
        Text.lower ("/".intercalate (fileAddress (Tree.ofExport x includePrivate) x page)) := by
    rw [List.map_map]
    exact List.map_congr_left fun sheet hsheet => congrArg Text.lower (h.path_of_sheet hsheet)
  rw [hpaths, List.nodup_map_iff_inj_on (nodup_pages mode)]
  refine forall₂_congr fun a ha => forall₂_congr fun b hb => imp_congr_left ?_
  obtain ⟨s, hs, rfl⟩ := List.mem_map.1 ha
  obtain ⟨u, hu, rfl⟩ := List.mem_map.1 hb
  exact lower_intercalate_inj (h.segments_fileAddress hs) (h.segments_fileAddress hu)

omit h in
/-- Modules agree in the segments of their directories just if they agree in their paths. -/
theorem lower_tail_iff {m n : Node} (hm : m ∈ (Tree.ofExport x includePrivate).modules)
    (hn : n ∈ (Tree.ofExport x includePrivate).modules) :
    m.path.tail.map Text.lower = n.path.tail.map Text.lower ↔
      m.path.map Text.lower = n.path.map Text.lower := by
  have hcons {k : Node} (hk : k ∈ (Tree.ofExport x includePrivate).modules) :
      k.path.map Text.lower = Text.lower x.package.name :: k.path.tail.map Text.lower := by
    rw [← List.map_cons, ← path_eq_cons hk]
  rw [hcons hm, hcons hn, List.cons_inj_right]

omit h in
theorem lower_fileAddress_module {mode : Mode} {m n : Node}
    (hm : PageKind.module m ∈
      (sheets (Tree.ofExport x includePrivate) x mode).map (·.plan.page))
    (hn : PageKind.module n ∈
      (sheets (Tree.ofExport x includePrivate) x mode).map (·.plan.page)) :
    (fileAddress (Tree.ofExport x includePrivate) x (.module m)).map Text.lower =
        (fileAddress (Tree.ofExport x includePrivate) x (.module n)).map Text.lower ↔
      m.path.map Text.lower = n.path.map Text.lower := by
  rw [fileAddress, fileAddress, map_lower_concat,
    lower_tail_iff (mem_modules_of_page hm) (mem_modules_of_page hn)]
  exact and_iff_left rfl

omit h in
theorem lower_fileAddress_item {mode : Mode} {p q : Placement}
    (hp : PageKind.item p ∈ (sheets (Tree.ofExport x includePrivate) x mode).map (·.plan.page))
    (hq : PageKind.item q ∈ (sheets (Tree.ofExport x includePrivate) x mode).map (·.plan.page)) :
    (fileAddress (Tree.ofExport x includePrivate) x (.item p)).map Text.lower =
        (fileAddress (Tree.ofExport x includePrivate) x (.item q)).map Text.lower ↔
      p.modulePath.map Text.lower = q.modulePath.map Text.lower ∧
        Text.lower (fileName (Tree.ofExport x includePrivate) x p) =
          Text.lower (fileName (Tree.ofExport x includePrivate) x q) := by
  obtain ⟨e, he, hp⟩ := exists_directory_of_page hp
  obtain ⟨f, hf, hq⟩ := exists_directory_of_page hq
  obtain ⟨m, hm, -, -, hpath⟩ := exists_node_of_directory he hp
  obtain ⟨n, hn, -, -, hqath⟩ := exists_node_of_directory hf hq
  rw [fileAddress, fileAddress, map_lower_concat, hpath, hqath, lower_tail_iff hm hn]

/-- A module and an item never agree: the file of a module is an index. -/
theorem PlainNames.lower_fileAddress_ne {mode : Mode} {n : Node} {p : Placement}
    (hp : PageKind.item p ∈ (sheets (Tree.ofExport x includePrivate) x mode).map (·.plan.page)) :
    (fileAddress (Tree.ofExport x includePrivate) x (.module n)).map Text.lower ≠
      (fileAddress (Tree.ofExport x includePrivate) x (.item p)).map Text.lower := by
  obtain ⟨entry, hentry, hp⟩ := exists_directory_of_page hp
  rw [fileAddress, fileAddress, ne_eq, map_lower_concat]
  exact fun heq => h.lower_fileName_ne hentry hp heq.2.symm

/-- Two pages have the same segments in lower case just if they are two modules whose paths
agree in lower case, or two items for which the paths of the modules do and the names of the
files. -/
theorem PlainNames.nodup_lower_pages (mode : Mode) {pages : List PageKind}
    (hpages : (sheets (Tree.ofExport x includePrivate) x mode).map (·.plan.page) = pages) :
    ((sheets (Tree.ofExport x includePrivate) x mode).map
      fun sheet => Text.lower sheet.plan.path).Nodup ↔
      (∀ m n, .module m ∈ pages → .module n ∈ pages →
        m.path.map Text.lower = n.path.map Text.lower → m = n) ∧
      (∀ p q, .item p ∈ pages → .item q ∈ pages →
        p.modulePath.map Text.lower = q.modulePath.map Text.lower →
        Text.lower (fileName (Tree.ofExport x includePrivate) x p) =
          Text.lower (fileName (Tree.ofExport x includePrivate) x q) → p = q) := by
  rw [h.nodup_lower_paths mode]
  subst hpages
  constructor
  · refine fun hapart => ⟨fun m n hm hn hpath => ?_, fun p q hp hq hpath hname => ?_⟩
    · exact PageKind.module.inj
        (hapart _ hm _ hn ((lower_fileAddress_module hm hn).2 hpath))
    · exact PageKind.item.inj
        (hapart _ hp _ hq ((lower_fileAddress_item hp hq).2 ⟨hpath, hname⟩))
  · rintro ⟨hmodules, hitems⟩ a ha b hb heq
    rcases cases_page ha with ⟨rfl, -⟩ | ⟨m, -, rfl⟩ | ⟨-, -, -, p, -, rfl⟩
    · rw [List.mem_singleton.1 ha, List.mem_singleton.1 hb]
    · rcases cases_page hb with ⟨rfl, -⟩ | ⟨n, -, rfl⟩ | ⟨-, -, -, q, -, rfl⟩
      · rw [List.mem_singleton.1 ha, List.mem_singleton.1 hb]
      · rw [hmodules m n ha hb ((lower_fileAddress_module ha hb).1 heq)]
      · exact absurd heq (h.lower_fileAddress_ne hb)
    · rcases cases_page hb with ⟨rfl, -⟩ | ⟨n, -, rfl⟩ | ⟨-, -, -, q, -, rfl⟩
      · rw [List.mem_singleton.1 ha, List.mem_singleton.1 hb]
      · exact absurd heq.symm (h.lower_fileAddress_ne ha)
      · obtain ⟨hpath, hname⟩ := (lower_fileAddress_item ha hb).1 heq
        rw [hitems p q ha hb hpath hname]

end

/-- The pages of a plan. -/
def pagesOf (l : Planned) : List PageKind := l.files.map (·.page)

/-- The paths of a layout differ in lower case exactly if no two modules with pages have paths
that agree in lower case, and no two items with pages for which both the paths of the modules
and the names of the files do. Where no two modules agree and no name or kind of an item has a
capital sigma, all paths differ. -/
theorem nodup_lower_paths_iff_of_plan {x : Export} {includePrivate : Bool} {mode : Mode}
    {basePath : String} {l : Planned} {cs : List Collision}
    (h : Layout.plan (Tree.ofExport x includePrivate) x mode basePath = .ok (l, cs))
    (hplain : PlainNames (Tree.ofExport x includePrivate) x) :
    ((l.files.map fun file => Text.lower file.path).Nodup ↔
      (∀ m n, .module m ∈ pagesOf l → .module n ∈ pagesOf l →
        m.path.map Text.lower = n.path.map Text.lower → m = n) ∧
      (∀ p q, .item p ∈ pagesOf l → .item q ∈ pagesOf l →
        p.modulePath.map Text.lower = q.modulePath.map Text.lower →
        Text.lower (fileName (Tree.ofExport x includePrivate) x p) =
          Text.lower (fileName (Tree.ofExport x includePrivate) x q) → p = q)) ∧
    ((∀ m ∈ (Tree.ofExport x includePrivate).modules,
        ∀ n ∈ (Tree.ofExport x includePrivate).modules,
        m.path.map Text.lower = n.path.map Text.lower → m = n) →
      (∀ p, .item p ∈ pagesOf l → 'Σ' ∉ p.name.toList ∧ 'Σ' ∉ (kindOf x p.itemId).toList) →
      (l.files.map fun file => Text.lower file.path).Nodup) := by
  have hfiles : l.files = (sheets (Tree.ofExport x includePrivate) x mode).map (·.plan) := by
    rw [eq_sheets_of_plan h, files_sheets]
    rfl
  have hpages : (sheets (Tree.ofExport x includePrivate) x mode).map (·.plan.page) =
      pagesOf l := by
    rw [pagesOf, hfiles, List.map_map]
    rfl
  have hiff := hplain.nodup_lower_pages mode hpages
  have hpaths : (l.files.map fun file => Text.lower file.path) =
      (sheets (Tree.ofExport x includePrivate) x mode).map
        fun sheet => Text.lower sheet.plan.path := by
    rw [hfiles, List.map_map]
    rfl
  rw [hpaths]
  refine ⟨hiff, fun hmodules hsigma => hiff.2 ⟨fun m n hm hn => ?_, fun p q hp hq hpath => ?_⟩⟩
  · rw [← hpages] at hm hn
    exact hmodules m (mem_modules_of_page hm) n (mem_modules_of_page hn)
  · rw [← hpages] at hp hq
    obtain ⟨e, he, hpe⟩ := exists_directory_of_page hp
    obtain ⟨f, hf, hqf⟩ := exists_directory_of_page hq
    obtain ⟨m, hm, hme, -, hpm⟩ := exists_node_of_directory he hpe
    obtain ⟨n, hn, hnf, -, hqn⟩ := exists_node_of_directory hf hqf
    rw [hpm, hqn] at hpath
    obtain rfl := hmodules m hm n hn hpath
    obtain rfl := List.inj_on_of_nodup_map nodup_directories he hf (hme.symm.trans hnf)
    exact hplain.lower_fileName_inj he
      (fun r hr => hsigma r (hpages ▸ mem_pages_of_directory hp he hr)) hpe hqf

end Layout

/-- A crate of two modules, whose names are one letter. -/
def letterExport : Export := Sample.crate [
  Sample.module "0" "demo" ["1", "2"], Sample.module "1" "A" [], Sample.module "2" "a" []]

/-- The crate of two modules as a text. -/
def letterText : String := Sample.text [
  ("0", Sample.moduleEntry "demo" [1, 2]), ("1", Sample.moduleEntry "A" []),
  ("2", Sample.moduleEntry "a" [])]

set_option maxRecDepth 4000 in
theorem parse_letterText : Export.parse letterText = .ok letterExport :=
  Sample.read_textOf (by decide +kernel) rfl

/-- The tree of the two modules. -/
def letterTree : Tree :=
  ⟨((({} : PlacementMap).add ⟨"0", ["demo"], false⟩).add ⟨"1", ["demo", "A"], false⟩).add
      ⟨"2", ["demo", "a"], false⟩,
    .mk "0" ["demo"] [.mk "1" ["demo", "A"] [] [] [], .mk "2" ["demo", "a"] [] [] []] [] []⟩

theorem tree_letterExport : Tree.ofExport letterExport false = letterTree := by
  have hroot : Tree.candidates letterExport false ["0"] "0" =
      [.module "1" "A" false, .module "2" "a" false] := rfl
  have hfirst : Tree.candidates letterExport false ["1", "0"] "1" = [] := rfl
  have hsecond : Tree.candidates letterExport false ["2", "0"] "2" = [] := rfl
  have hname : letterExport.package.name = "demo" := rfl
  have hid : letterExport.package.rootId = "0" := rfl
  have hids : letterExport.items.ids = ["0", "1", "2"] := rfl
  have hsorted : ([.mk "1" ["demo", "A"] [] [] [], .mk "2" ["demo", "a"] [] [] []] :
      List Node).mergeSort Tree.childLe =
      [.mk "1" ["demo", "A"] [] [] [], .mk "2" ["demo", "a"] [] [] []] :=
    List.mergeSort_of_pairwise (by decide +kernel)
  simp [Tree.ofExport, hname, hid, hids, hroot, hfirst, hsecond, Tree.place, Tree.Growth.node,
    Tree.Growth.hasChild, Node.path, letterTree, hsorted]

theorem paths_letterExport : letterTree.placements.byId.entries.flatMap
    (fun e => e.2.map Placement.path) = [["demo"], ["demo", "A"], ["demo", "a"]] := rfl

theorem plainNames_letterExport :
    Layout.PlainNames (Tree.ofExport letterExport false) letterExport where
  names := by
    intro id p hp
    have hpath := PlacementMap.path_mem_of_recorded hp
    rw [tree_letterExport, paths_letterExport] at hpath
    unfold Placement.name
    generalize p.path = path at hpath
    revert path
    decide
  kinds := Sample.forall_crate (by decide)

namespace Layout

theorem path_of_node_small {n : Node} (hn : n ∈ (Tree.ofExport smallExport false).modules) :
    n.path ∈ [["demo"], ["demo", "m"], ["demo", "m", "f"], ["demo", "g"]] := by
  have hkey : (n.id, n.path) ∈ (Tree.ofExport smallExport false).modules.flatMap Node.keys :=
    List.mem_flatMap.2 ⟨n, hn, List.mem_cons_self⟩
  obtain ⟨p, hp, hpath⟩ :=
    PlacementMap.holds_iff.1 ((Tree.holds_ofExport smallExport false).2 hkey)
  exact hpath ▸ Site.path_of_recorded_small hp

/-- The names of a small crate have no capital letters, so its paths differ in lower case. -/
theorem nodup_lower_paths_small : ∃ l cs,
    Layout.plan (Tree.ofExport smallExport false) smallExport .item "" = .ok (l, cs) ∧
      (l.files.map fun file => Text.lower file.path).Nodup := by
  obtain ⟨l, cs, hplan⟩ := exists_layout_smallExport .item
  refine ⟨l, cs, hplan,
    (nodup_lower_paths_iff_of_plan hplan Site.plainNames_smallExport).2 ?_ fun p hp => ⟨?_, ?_⟩⟩
  · intro m hm n hn hlower
    have hsame : ∀ a ∈ [["demo"], ["demo", "m"], ["demo", "m", "f"], ["demo", "g"]],
        a.map Text.lower = a := by decide +kernel
    rw [hsame _ (path_of_node_small hm), hsame _ (path_of_node_small hn)] at hlower
    exact List.inj_on_of_nodup_map (Tree.nodup_module_paths smallExport false) hm hn hlower
  · have hpath : p.path ∈ [["demo"], ["demo", "m"], ["demo", "m", "f"], ["demo", "g"]] := by
      rw [pagesOf, eq_sheets_of_plan hplan, files_sheets, List.nil_append, List.map_map] at hp
      obtain ⟨entry, hentry, hp⟩ := exists_directory_of_page hp
      obtain ⟨n, hn, -, hmember, -⟩ := exists_node_of_directory hentry hp
      exact Site.path_of_recorded_small (Tree.recorded_members smallExport false n hn p hmember)
    unfold Placement.name
    generalize p.path = path at hpath
    revert path
    decide
  · unfold kindOf
    split
    · next y hy =>
      have hkind := Site.kind_smallExport hy
      generalize y.kind = kind at hkind
      revert kind
      decide
    · decide

/-- Two modules whose names differ in case only have files whose paths do. -/
theorem not_nodup_lower_paths_letter : Export.parse letterText = .ok letterExport ∧
    PlainNames (Tree.ofExport letterExport false) letterExport ∧
    ∃ l cs, Layout.plan (Tree.ofExport letterExport false) letterExport .module "" = .ok (l, cs) ∧
      l.files.map (·.path) = ["index.md", "A/index.md", "a/index.md"] ∧
      ¬ (l.files.map fun file => Text.lower file.path).Nodup := by
  obtain ⟨l, cs, hplan⟩ : ∃ l cs,
      Layout.plan (Tree.ofExport letterExport false) letterExport .module "" = .ok (l, cs) :=
    Sample.exists_layout (by decide) ⟨_, rfl⟩ .module
  have hpaths : l.files.map (·.path) = ["index.md", "A/index.md", "a/index.md"] := by
    rw [eq_sheets_of_plan hplan, tree_letterExport, files_sheets]
    decide +kernel
  refine ⟨parse_letterText, plainNames_letterExport, l, cs, hplan, hpaths, ?_⟩
  have hlower : (l.files.map fun file => Text.lower file.path) =
      (l.files.map (·.path)).map Text.lower := by rw [List.map_map, Function.comp_def]
  rw [hlower, hpaths]
  decide +kernel

end Layout

end CrateBook
