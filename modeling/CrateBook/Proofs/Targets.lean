import CrateBook.Proofs.ExportGate
import CrateBook.Proofs.ListedMembers
import CrateBook.Proofs.Lookups
import CrateBook.Proofs.Sessions

/-!
# How the target of an id is settled

An id of the package's own items leads to its place, or else below an item with a place, if
at most four members stand between, all of them shown. An id of the other index leads to a
package beside this one or to a documentation host, unless its package is this one or it has
no path. All else leads nowhere, and an id of neither index is a miss. The chains of owners
come from the export as they are: they may run in circles or lead to ids without items.
-/
namespace CrateBook

namespace Site

section

variable (s : Site)

/-- So many members, all of them shown, stand from a given one up to an item with a place. -/
inductive ShownBelow : Nat → Id → Prop
  | placed {member owner : Id}
      (hshown : s.source.showsMember s.options.includePrivate member = true)
      (howner : s.source.owners.get? member = some owner)
      (hfile : s.layout.fileFor owner ≠ none) : ShownBelow 1 member
  | member {n : Nat} {member owner : Id}
      (hshown : s.source.showsMember s.options.includePrivate member = true)
      (howner : s.source.owners.get? member = some owner)
      (hbelow : ShownBelow n owner) : ShownBelow (n + 1) member

/-- An id stands in the other index only, for an item of another package with a path. -/
structure Foreign (id : Id) (e : Summary) : Prop where
  unknown : ¬ s.source.Knows id
  summary : s.source.external.get? id = some e
  crate : e.crateId ≠ 0
  path : e.path ≠ []

/-- The item of another package is documented beside this one. -/
def Beside (e : Summary) : Prop :=
  normalizePackageName e.crateName ∈ s.options.workspacePackages.map normalizePackageName

/-- An id is that of an item with a place, or of one that is shown at most four members below
such an item. -/
def Within (id : Id) : Prop :=
  s.source.Knows id ∧ (s.layout.fileFor id ≠ none ∨ ∃ n ≤ 4, s.ShownBelow n id)

/-- The kind of a target follows the order in which an id is looked up. -/
structure Settles (id : Id) (t : Target) : Prop where
  internal : t.kind = "internal" ↔ s.Within id
  sibling : t.kind = "sibling" ↔ ∃ e, s.Foreign id e ∧ s.Beside e
  external : t.kind = "external" ↔ ∃ e, s.Foreign id e ∧ ¬ s.Beside e
  unlinked : t.kind = "none" ↔ ¬ s.Within id ∧ ∀ e, ¬ s.Foreign id e

/-- The look-ups without a way out that a target is made with find something: the page, the
owner and the members of a link to a member, and the segments of a path. -/
structure FindsTarget (id : Id) : Prop where
  members : ∀ chain owner,
    s.ownerChain maxOwners [id] (s.source.owners.get? id) = some (chain, owner) →
    chain.all (s.source.showsMember s.options.includePrivate) = true →
    s.layout.fileFor owner ≠ none ∧ s.source.Knows owner ∧ ∀ m ∈ chain, s.source.Knows m
  segments : ∀ e, s.source.external.get? id = some e → (s.externalTarget e).href? ≠ none →
    e.path ≠ [] ∧ ∀ r, hostMember? e = some r → e.path.dropLast ≠ []

end

section

variable {s : Site} {id : Id}

theorem ShownBelow.pos {n : Nat} (h : s.ShownBelow n id) : 0 < n := by
  cases h with
  | placed => exact Nat.zero_lt_one
  | member => exact Nat.succ_pos _

/-- The owner that a chain goes on with has a place, or the chain goes on above it. -/
theorem exists_owner_of_ownerChain {n : Nat} {chain chain' : List Id} {member owner : Id}
    (h : s.ownerChain n chain (s.source.owners.get? member) = some (chain', owner)) :
    ∃ o, s.source.owners.get? member = some o ∧ (s.layout.fileFor o ≠ none ∨
      ∃ k, n = k + 1 ∧
        s.ownerChain k (o :: chain) (s.source.owners.get? o) = some (chain', owner)) := by
  cases howner : s.source.owners.get? member with
  | none =>
    rw [howner] at h
    cases n <;> cases h
  | some o =>
    refine ⟨o, rfl, ?_⟩
    by_cases ho : s.layout.fileFor o = none
    · rw [howner] at h
      cases n with
      | zero => simp [ownerChain, ho] at h
      | succ k =>
        rw [ownerChain_of_no_file ho] at h
        exact .inr ⟨k, rfl, h⟩
    · exact .inl ho

/-- A chain that was found, with all of its members shown, leads up to a place. -/
theorem shownBelow_of_ownerChain {n : Nat} {chain chain' : List Id} {member owner : Id}
    (h : s.ownerChain n (member :: chain) (s.source.owners.get? member) = some (chain', owner))
    (hshown : ∀ m ∈ chain', s.source.showsMember s.options.includePrivate m = true) :
    ∃ k ≤ n + 1, s.ShownBelow k member := by
  have hself : s.source.showsMember s.options.includePrivate member = true :=
    hshown member ((suffix_of_ownerChain h).subset List.mem_cons_self)
  induction n generalizing member chain with
  | zero =>
    obtain ⟨o, howner, ho⟩ := exists_owner_of_ownerChain h
    rcases ho with ho | ⟨n, hn, -⟩
    · exact ⟨1, Nat.le_refl 1, .placed hself howner ho⟩
    · cases hn
  | succ n ih =>
    obtain ⟨o, howner, ho⟩ := exists_owner_of_ownerChain h
    rcases ho with ho | ⟨j, hj, hrest⟩
    · exact ⟨1, Nat.le_add_left 1 _, .placed hself howner ho⟩
    · obtain rfl := Nat.succ.inj hj
      obtain ⟨k, hk, hbelow⟩ :=
        ih hrest (hshown o ((suffix_of_ownerChain hrest).subset List.mem_cons_self))
      exact ⟨k + 1, Nat.succ_le_succ hk, .member hself howner hbelow⟩

/-- A place that is reached in few steps is found, through the first owner that has one. -/
theorem exists_ownerChain_of_shownBelow {k : Nat} {member : Id} (h : s.ShownBelow k member)
    {n : Nat} (hk : k ≤ n + 1) {chain : List Id}
    (hchain : ∀ m ∈ chain, s.source.showsMember s.options.includePrivate m = true) :
    ∃ chain' owner,
      s.ownerChain n (member :: chain) (s.source.owners.get? member) = some (chain', owner) ∧
        ∀ m ∈ chain', s.source.showsMember s.options.includePrivate m = true := by
  induction h generalizing n chain with
  | placed hshown howner hfile =>
    rw [howner, ownerChain_of_fileFor hfile]
    refine ⟨_, _, rfl, ?_⟩
    exact List.forall_mem_cons.2 ⟨hshown, hchain⟩
  | @member k member owner hshown howner hbelow ih =>
    have hall : ∀ m ∈ member :: chain,
        s.source.showsMember s.options.includePrivate m = true :=
      List.forall_mem_cons.2 ⟨hshown, hchain⟩
    rw [howner]
    by_cases hfile : s.layout.fileFor owner = none
    · have hpos := hbelow.pos
      obtain ⟨n, rfl⟩ : ∃ j, n = j + 1 := ⟨n - 1, by omega⟩
      rw [ownerChain_of_no_file hfile]
      exact ih (by omega) hall
    · rw [ownerChain_of_fileFor hfile]
      exact ⟨_, _, rfl, hall⟩

/-- A member leads to its owner's page exactly if that page is at most four members up, all of
them shown. -/
theorem memberTarget_ne_none_iff :
    s.memberTarget id ≠ none ↔ ∃ n ≤ 4, s.ShownBelow n id := by
  constructor
  · intro htarget
    obtain ⟨t, ht⟩ := Option.ne_none_iff_exists'.1 htarget
    obtain ⟨⟨chain, owner⟩, hchain, ht⟩ := Option.bind_eq_some_iff.1 ht
    dsimp only at ht
    split at ht
    · next hshown => exact shownBelow_of_ownerChain hchain (List.all_eq_true.1 hshown)
    · cases ht
  · rintro ⟨n, hn, hbelow⟩
    obtain ⟨chain, owner, hchain, hshown⟩ :=
      exists_ownerChain_of_shownBelow hbelow (n := maxOwners) hn (List.forall_mem_nil _)
    obtain ⟨plan, hfile⟩ := Option.ne_none_iff_exists'.1 (fileFor_of_ownerChain hchain)
    simpa [memberTarget, hchain, hfile] using hshown

theorem kind_memberTarget {t : Target} (h : s.memberTarget id = some t) :
    t.kind = "internal" := by
  obtain ⟨⟨chain, owner⟩, -, ht⟩ := Option.bind_eq_some_iff.1 h
  dsimp only at ht
  split at ht
  · obtain ⟨plan, -, ht⟩ := Option.bind_eq_some_iff.1 ht
    cases ht
    rfl
  · cases ht

/-- Where an item of the other index leads. -/
theorem kind_externalTarget (e : Summary) :
    ((s.externalTarget e).kind = "sibling" ↔ e.crateId ≠ 0 ∧ e.path ≠ [] ∧ s.Beside e) ∧
      ((s.externalTarget e).kind = "external" ↔
        e.crateId ≠ 0 ∧ e.path ≠ [] ∧ ¬ s.Beside e) ∧
      (s.externalTarget e).kind ≠ "internal" := by
  have hbeside : s.isSibling (normalizePackageName e.crateName) = true ↔ s.Beside e :=
    List.contains_iff_mem
  unfold externalTarget
  cases hpath : e.path with
  | nil => simp [Target.kind]
  | cons first rest =>
    dsimp only
    split
    · next hcrate => simp [Target.kind, hcrate]
    · next hcrate =>
      split
      · next hsibling => simp [Target.kind, Reach.name, hcrate, hbeside.1 hsibling]
      · next hsibling =>
        have hnot : ¬ s.Beside e := fun h => hsibling (hbeside.2 h)
        simp [Target.kind, Reach.name, hcrate, hnot]

/-- An item of the package leads within it or nowhere. -/
theorem kind_resolve_of_get? {y : Item} (hy : s.source.items.get? id = some y)
    (title : String) : ((s.resolve id title).kind = "internal" ↔
        s.layout.fileFor id ≠ none ∨ s.memberTarget id ≠ none) ∧
      (s.resolve id title).kind ≠ "sibling" ∧ (s.resolve id title).kind ≠ "external" := by
  unfold resolve locate Layout.hrefFor
  rw [hy]
  cases hfile : s.layout.fileFor id with
  | some plan => simp [Target.kind, Reach.name]
  | none =>
    cases hmember : s.memberTarget id with
    | none => simp [Target.kind]
    | some t => simp [kind_memberTarget hmember]

theorem kind_eq_none_iff (t : Target) : t.kind = "none" ↔
    t.kind ≠ "internal" ∧ t.kind ≠ "sibling" ∧ t.kind ≠ "external" := by
  cases t with
  | link r _ _ => cases r <;> simp [Target.kind, Reach.name]
  | unlinked _ => simp [Target.kind]

theorem settles_of_kind {t : Target} (hinternal : t.kind = "internal" ↔ s.Within id)
    (hsibling : t.kind = "sibling" ↔ ∃ e, s.Foreign id e ∧ s.Beside e)
    (hexternal : t.kind = "external" ↔ ∃ e, s.Foreign id e ∧ ¬ s.Beside e) :
    s.Settles id t where
  internal := hinternal
  sibling := hsibling
  external := hexternal
  unlinked := by
    rw [kind_eq_none_iff, Ne, hinternal, Ne, hsibling, Ne, hexternal]
    refine and_congr_right fun _ => ⟨fun ⟨hbeside, hnot⟩ e he => ?_, fun hforeign =>
      ⟨fun ⟨e, he, _⟩ => hforeign e he, fun ⟨e, he, _⟩ => hforeign e he⟩⟩
    exact hnot ⟨e, he, fun hb => hbeside ⟨e, he, hb⟩⟩

/-- The target that a site works out is settled as it should be. -/
theorem settles_resolve (id : Id) (title : String) : s.Settles id (s.resolve id title) := by
  cases hitem : s.source.items.get? id with
  | some y =>
    have hknown : s.source.Knows id := ⟨y, hitem⟩
    have hforeign : ∀ e, ¬ s.Foreign id e := fun e he => he.unknown hknown
    obtain ⟨hinternal, hsibling, hexternal⟩ := kind_resolve_of_get? hitem title
    rw [memberTarget_ne_none_iff] at hinternal
    exact settles_of_kind (by simp [hinternal, Within, hknown]) (by simp [hsibling, hforeign])
      (by simp [hexternal, hforeign])
  | none =>
    have hunknown : ¬ s.source.Knows id := by
      rintro ⟨y, hy⟩
      rw [hitem] at hy
      cases hy
    have hwithin : ¬ s.Within id := fun h => hunknown h.1
    cases hext : s.source.external.get? id with
    | none =>
      have hforeign : ∀ e, ¬ s.Foreign id e := fun e he => by
        have hsummary := he.summary
        rw [hext] at hsummary
        cases hsummary
      have hkind : (s.resolve id title).kind = "none" := by
        rw [resolve, locate_eq_missing.2 ⟨hitem, hext⟩]
        rfl
      exact settles_of_kind (by simp [hkind, hwithin]) (by simp [hkind, hforeign])
        (by simp [hkind, hforeign])
    | some e =>
      have hforeign : ∀ e', s.Foreign id e' ↔ e' = e ∧ e.crateId ≠ 0 ∧ e.path ≠ [] := by
        intro e'
        constructor
        · intro he
          obtain rfl := Option.some.inj (hext.symm.trans he.summary)
          exact ⟨rfl, he.crate, he.path⟩
        · rintro ⟨rfl, hcrate, hpath⟩
          exact ⟨hunknown, hext, hcrate, hpath⟩
      have htarget : s.resolve id title = s.externalTarget e := by
        rw [resolve, locate, hitem, hext]
      obtain ⟨hsibling, hexternal, hinternal⟩ := kind_externalTarget (s := s) e
      rw [htarget]
      exact settles_of_kind (by simp [hinternal, hwithin])
        (by simp [hsibling, hforeign, and_assoc]) (by simp [hexternal, hforeign, and_assoc])

/-- A path is long enough for the parts of it that an address is made of. -/
theorem path_of_href? {e : Summary} (h : (s.externalTarget e).href? ≠ none) :
    e.path ≠ [] ∧ ∀ r, hostMember? e = some r → e.path.dropLast ≠ [] := by
  constructor
  · intro hpath
    simp [externalTarget, hpath, Target.href?] at h
  · intro r hr hpath
    unfold hostMember? at hr
    split at hr
    · next hlen =>
      have hdrop := congrArg List.length hpath
      rw [List.length_dropLast, List.length_nil] at hdrop
      omega
    · cases hr

end

end Site

/-- **Targets.** Whatever a session was asked before, it has an answer for every id, with the kind
that the order of the look-ups gives it, no look-up on the way comes to nothing, and the id is
then reported as a miss exactly if neither index holds it. The layout may be any that was planned
for the export, whatever the options of the session. -/
theorem Session.settles_after {text : String} {x : Export} (hx : Export.parse text = .ok x)
    {includePrivate : Bool} {mode : Mode} {basePath : String} {layout : Layout.Planned}
    {collisions : List Collision}
    (hlayout : Layout.plan (Tree.ofExport x includePrivate) x mode basePath =
      .ok (layout, collisions))
    (options : Options) (qs : List Request) (id : Id) (title : String) :
    let s : Site :=
      { options, source := x, tree := Tree.ofExport x includePrivate, layout, collisions }
    let asked := ((start s).after qs).ask (.target (some id) title)
    (∃ t, asked.1 = .ok (.target t) ∧ s.Settles id t) ∧ s.FindsTarget id ∧
      (id ∈ asked.2.report.misses.keys ↔
        x.items.get? id = none ∧ x.external.get? id = none) := by
  intro s asked
  have hplanned : Site.Planned { s with options := { includePrivate, mode, basePath } } :=
    ⟨rfl, Layout.eq_sheets_of_plan hlayout, Site.sound_of_memory_eq rfl⟩
  have hroot : x.Knows x.package.rootId :=
    Option.isSome_iff_exists.1 (Export.package_of_parse hx).2
  have htook : Took s (notesAll (start s) qs) ((start s).after qs) := by
    rw [after_eq_takeAll]
    exact (took_start s).takeAll _
  refine ⟨⟨_, rfl, ?_⟩, ⟨fun chain owner hchain hshown => ?_, fun e _ => Site.path_of_href?⟩, ?_⟩
  · obtain ⟨first, hfirst⟩ := htook.sound.exists_targetOf id title
    rw [hfirst, htook.resolve_eq]
    exact Site.settles_resolve id first
  · have hfile := Site.fileFor_of_ownerChain hchain
    exact ⟨hfile, hplanned.knows_of_fileFor hroot hfile, fun m hm =>
      Export.knows_of_showsMember (List.all_eq_true.1 hshown m hm)⟩
  · have hnext := htook.take (.asked id title)
    refine hnext.mem_misses.trans ?_
    rw [Site.locate_eq_missing, askedIn_append, List.mem_append, mem_askedIn_singleton]
    exact and_iff_right (.inr rfl)

/-- A block that implements the conversion from another type. -/
def castBlock (method : Id) : ImplBody where
  forType := .object [("resolved_path", .object [("id", .int 1)])]
  traitRef := some [("path", .str "From"), ("id", .int 7)]
  items := [method]
  generics := {}
  blanket := .null

/-- A crate with a struct, which has a field and is made from two other types. -/
def castExport : Export :=
  Sample.crate [Sample.module "0" "demo" ["1"], Sample.struct "1" "Meter" ["2"],
      Sample.field "2" "value" "f64", Sample.item "3" "impl" none (.impl (castBlock "4")) .default,
      Sample.function "4" "from" .default,
      Sample.item "5" "impl" none (.impl (castBlock "6")) .default,
      Sample.function "6" "from" .default]
    (((Table.empty.insertNew "2" "1").insertNew "4" "1").insertNew "6" "1")
    (((Table.empty.insertNew "2" "1").insertNew "4" "3").insertNew "6" "5")
    ((Table.empty.insert "7" ⟨"7", 1, "core", ["core", "convert", "From"], "trait"⟩).insert
      "8" ⟨"8", 2, "side_kick", ["side_kick", "Inch"], "struct"⟩)

/-- The entry of a conversion's block. -/
def castEntry (method : Int) : Value :=
  Sample.entry [("visibility", .str "default")] "impl" (.object
    [("trait", .object [("path", .str "From"), ("id", .int 7)]),
      ("for", .object [("resolved_path", .object [("id", .int 1)])]),
      ("items", .list [.int method])])

/-- The document of the crate of conversions, which tells of two items of other packages. -/
def castDocument : List (String × Value) := Sample.members [
    ("0", Sample.moduleEntry "demo" [1]), ("1", Sample.structEntry "Meter" [2]),
    ("2", Sample.publicEntry "value" "struct_field" (.object [("primitive", .str "f64")])),
    ("3", castEntry 4), ("4", Sample.privateEntry "from" "function" (.object [])),
    ("5", castEntry 6), ("6", Sample.privateEntry "from" "function" (.object []))] ++
  [("paths", .object [
    ("7", .object [("crate_id", .int 1), ("kind", .str "trait"),
      ("path", .list [.str "core", .str "convert", .str "From"])]),
    ("8", .object [("crate_id", .int 2), ("kind", .str "struct"),
      ("path", .list [.str "side_kick", .str "Inch"])])])]

def castText : String := Sample.textOf castDocument

set_option maxRecDepth 8000 in
theorem parse_castText : Export.parse castText = .ok castExport :=
  Sample.read_textOf (by decide +kernel) rfl

def castTree : Tree :=
  ⟨(({} : PlacementMap).add ⟨"0", ["demo"], false⟩).add ⟨"1", ["demo", "Meter"], false⟩,
    .mk "0" ["demo"] [] [⟨"1", ["demo", "Meter"], false⟩] []⟩

theorem tree_castExport : Tree.ofExport castExport false = castTree := by
  have hroot : Tree.candidates castExport false ["0"] "0" = [.member "1" "Meter" false] := rfl
  have hname : castExport.package.name = "demo" := rfl
  have hid : castExport.package.rootId = "0" := rfl
  have hnew : (({} : PlacementMap).add ⟨"0", ["demo"], false⟩).holds "1" ["demo", "Meter"] =
      false := by decide
  simp [Tree.ofExport, hname, hid, hroot, Tree.place, Tree.Growth.addMember, Tree.Growth.node,
    castTree, PlacementMap.isNew, hnew]

def castPlan : FilePlan PageKind := ⟨"index.md", .module castTree.root, "demo", "0"⟩

/-- The layout of the crate of conversions, with a page for each module. -/
def castLayout : Layout.Planned :=
  Layout.placeAll (({ package := "demo", basePath := "" } : Layout.Planned).addFile castPlan true)
    castPlan (Table.ofList [("1", "meter")])

theorem plan_castTree : Layout.plan castTree castExport .module "" = .ok (castLayout, []) := by
  have hmodules : castTree.modules = [castTree.root] := rfl
  have hmembers : Layout.primaryMembers castTree castTree.root =
      [⟨"1", ["demo", "Meter"], false⟩] := by decide +kernel
  have hrequest : Layout.anchorRequest "1" (Layout.kindOf castExport "1") "Meter" =
      ⟨"1", "meter", "struct-meter"⟩ := by decide +kernel
  have hprimary : castTree.isPrimaryNode castTree.root = true := by decide +kernel
  have hname : Placement.name ⟨"1", ["demo", "Meter"], false⟩ = "Meter" := rfl
  simp only [Layout.plan, Layout.planModules, hmodules, List.foldlM_cons, List.foldlM_nil,
    Layout.planModulePage, hmembers, List.map_cons, List.map_nil, hname, hrequest, hprimary]
  rw [Layout.allocate_singleton _ (by decide)]
  rfl

/-- The site of the crate of conversions, with a page for each module. -/
def castSite (options : Options) : Site :=
  { options, source := castExport, tree := castTree, layout := castLayout, collisions := [] }

theorem plan_castExport : Site.plan castExport {} = .ok (castSite {}) := by
  have himpls : castExport.checkImpls = .ok () := Id.checkKeys_eq_ok (by decide +kernel)
  simp only [Site.plan, tree_castExport, plan_castTree, himpls]
  rfl

/-- In the crate of conversions, a method leads to its struct's page, a type of the package
beside it to that package, a trait of the standard library to its host, and an id of neither
index nowhere, after which it is a miss. -/
theorem settles_after_cast : Export.parse castText = .ok castExport ∧
    Layout.plan (Tree.ofExport castExport false) castExport .module "" = .ok (castLayout, []) ∧
    ∃ method beside hosted none',
      let asked (id : Id) :=
        ((Session.start (castSite { workspacePackages := ["side-kick"] })).after
          [.target (some "7") "From"]).ask (.target (some id) "")
      (asked "4").1 = .ok (.target method) ∧ method.kind = "internal" ∧
      (asked "8").1 = .ok (.target beside) ∧ beside.kind = "sibling" ∧
      (asked "7").1 = .ok (.target hosted) ∧ hosted.kind = "external" ∧
      (asked "9").1 = .ok (.target none') ∧ none'.kind = "none" ∧
      "9" ∈ (asked "9").2.report.misses.keys ∧ "7" ∉ (asked "7").2.report.misses.keys := by
  have hplan : Layout.plan (Tree.ofExport castExport false) castExport .module "" =
      .ok (castLayout, []) := by
    rw [tree_castExport]
    exact plan_castTree
  have hsettles (id : Id) := Session.settles_after parse_castText hplan
    { workspacePackages := ["side-kick"] } [.target (some "7") "From"] id ""
  rw [tree_castExport] at hsettles
  obtain ⟨⟨method, hmethod, hinternal⟩, -, -⟩ := hsettles "4"
  obtain ⟨⟨beside, hbeside, hsibling⟩, -, -⟩ := hsettles "8"
  obtain ⟨⟨hosted, hhosted, hexternal⟩, -, hhit⟩ := hsettles "7"
  obtain ⟨⟨none', hnone, hunlinked⟩, -, hmiss⟩ := hsettles "9"
  refine ⟨parse_castText, hplan, method, beside, hosted, none', hmethod, ?_, hbeside, ?_, hhosted,
    ?_, hnone, ?_, hmiss.2 ⟨rfl, rfl⟩, fun h => ?_⟩
  · refine hinternal.internal.2 ⟨⟨_, rfl⟩, .inr ⟨1, by decide, ?_⟩⟩
    exact .placed (by decide) rfl (Option.some_ne_none castPlan)
  · refine hsibling.sibling.2 ⟨_, ⟨fun ⟨_, hy⟩ => ?_, rfl, by decide, by decide⟩, ?_⟩
    · cases hy
    · unfold Site.Beside
      decide +kernel
  · refine hexternal.external.2 ⟨_, ⟨fun ⟨_, hy⟩ => ?_, rfl, by decide, by decide⟩, ?_⟩
    · cases hy
    · unfold Site.Beside
      decide +kernel
  · refine hunlinked.unlinked.2 ⟨fun ⟨⟨_, hy⟩, _⟩ => ?_, fun e he => ?_⟩
    · cases hy
    · cases he.summary
  · cases (hhit.1 h).2

end CrateBook
