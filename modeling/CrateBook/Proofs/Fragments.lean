import CrateBook.Proofs.ListedMembers

/-!
# Fragments of internal links

A link to a fragment is good if the page that it leads to defines the fragment as an anchor.
It does if the section is written that the linked id stands for: the section of a placed
item or of a module, the root of a package on one page apart, or the section of an item that
shows the member. In an export that lists no member twice, nothing else makes a link good
but another item or member whose anchor happens to be the same.
-/
namespace CrateBook.Site

/-- The section is written that the id stands for. -/
def WritesAnchor (s : Site) (id : Id) : Prop :=
  s.layout.fileFor id ≠ none ∧ (s.options.mode = .single → id ≠ s.source.package.rootId) ∨
    s.layout.fileFor id = none ∧ s.ShowsListed id

/-- What is promised about the fragments of internal links. -/
structure TagsFragments (s : Site) : Prop where
  /-- A known id leads to a page or to the fragment of a page, and to nothing else within the
  package. -/
  leads : ∀ id, s.source.items.get? id ≠ none → ∀ href,
    (∃ title, s.locate id = .target (.link .internal title href)) ↔
      (∃ plan ∈ s.layout.files, s.layout.fileFor id = some plan ∧
        s.layout.anchorFor id = none ∧ href = s.layout.urlOf plan) ∨
      ∃ plan ∈ s.layout.files, ∃ a, s.LeadsTo id plan a ∧ href = s.layout.urlOf plan ++ "#" ++ a
  /-- An id that is not known leads nowhere within the package. -/
  unknown : ∀ id, s.source.items.get? id = none → ∀ title href,
    s.locate id ≠ .target (.link .internal title href)
  /-- The page of a link has the tag of the fragment, if the section of the id is written. -/
  tagged : ∀ id plan a, s.LeadsTo id plan a → s.WritesAnchor id → ∀ d,
    (s.document plan).result = .ok d → Text.occursIn (Page.anchorTag a) d.body = true
  /-- A page defines the anchors of the modules, items and members that it shows. -/
  defined : ∀ plan ∈ s.layout.files, ∀ d, (s.document plan).result = .ok d → ∀ a,
    a ∈ d.page.anchors ↔ ∃ id, s.Anchored plan.page id a
  /-- If no member is listed twice, a fragment is defined for the sake of the id that leads to
  it, or by chance for another one. -/
  sharp : s.source.ListedAsTree → ∀ id plan a, s.LeadsTo id plan a → ∀ d,
    (s.document plan).result = .ok d →
    (a ∈ d.page.anchors ↔ s.WritesAnchor id ∨ ∃ other ≠ id, s.Anchored plan.page other a)
  /-- The pages are written unless a declaration cannot be. -/
  written : s.Writable → ∀ plan ∈ s.layout.files, ∃ d, (s.document plan).result = .ok d

namespace Planned

variable {s : Site} (h : s.Planned)

include h

theorem anchored_of_writesAnchor (hs : s.source.Indexed) {id : Id} {plan : FilePlan PageKind}
    {a : String} (hleads : s.LeadsTo id plan a) (hwrites : s.WritesAnchor id) :
    s.Anchored plan.page id a := by
  rcases hwrites with ⟨hfile, hroot⟩ | ⟨hplace, hlisted⟩
  · cases hleads with
    | placed hfile ha => exact h.anchored_of_anchorFor hfile ha hroot
    | member hplace => exact absurd hplace hfile
  · exact h.anchored_of_showsListed hs hleads hplace hlisted

/-- The module of the root is on no page a module below the root. -/
theorem ne_root_of_node {n : Node} (hn : n ∈ s.tree.modules.tail)
    (hself : s.tree.isPrimaryNode n = true) : n.id ≠ s.source.package.rootId := by
  intro hid
  have hmodules : s.tree.modules = s.tree.root :: s.tree.modules.tail := by
    rw [Tree.modules, Node.walk_eq_cons, List.tail_cons]
  have hnodup : (s.tree.modules.map Node.path).Nodup := by
    rw [h.tree]
    exact Tree.nodup_module_paths _ _
  rw [hmodules, List.map_cons, List.nodup_cons] at hnodup
  obtain ⟨p, hp, hpath⟩ := (Option.any_eq_true _ _).1 hself
  have hroot : p.path = s.tree.root.path := by
    rw [hid, h.tree] at hp
    rw [h.tree, Tree.path_root]
    exact Tree.path_of_primary?_root _ _ hp
  refine hnodup.1 (List.mem_map.2 ⟨n, hn, ?_⟩)
  rw [← hroot]
  exact (beq_iff_eq.1 hpath).symm

section

variable (hs : s.source.Indexed) (htree : s.source.ListedAsTree)

include hs htree

/-- The root has no anchor on any page, if nothing lists it. -/
theorem ne_root_of_anchored {id : Id} {plan : FilePlan PageKind} {a : String}
    (hplan : plan ∈ s.layout.files) (ha : s.Anchored plan.page id a) :
    id ≠ s.source.package.rootId := by
  have hplaced {p : Placement}
      (hp : p ∈ Layout.placementsOn s.tree s.options.mode plan.page) : s.Placed p.itemId := by
    obtain ⟨n, hn, hpn⟩ := h.exists_node hplan hp
    exact h.placed_of_member hn hpn
  cases ha with
  | module _ hn hself _ => exact h.ne_root_of_node hn hself
  | item hp _ _ =>
    have hroot := (hplaced hp).2 s.tree.root (Node.self_mem_walk _)
    rw [h.tree] at hroot
    exact hroot.symm
  | member hp _ hx hm =>
    exact (showsListed_of_shows hs htree h (hplaced hp) hx hm).ne_root hs htree

/-- If no member is listed twice, an anchor tells that the section of its id is written. -/
theorem writesAnchor_of_anchored {id : Id} {plan : FilePlan PageKind} {a : String}
    (hplan : plan ∈ s.layout.files) (ha : s.Anchored plan.page id a) : s.WritesAnchor id := by
  by_cases hplace : s.layout.fileFor id = none
  · refine .inr ⟨hplace, ?_⟩
    cases ha with
    | module _ _ _ ha => exact absurd hplace (h.fileFor_ne_none_of_anchorFor ha)
    | item _ _ ha => exact absurd hplace (h.fileFor_ne_none_of_anchorFor ha)
    | member hp _ hx hm =>
      obtain ⟨n, hn, hpn⟩ := h.exists_node hplan hp
      exact showsListed_of_shows hs htree h (h.placed_of_member hn hpn) hx hm
  · exact .inl ⟨hplace, fun _ => h.ne_root_of_anchored hs htree hplan ha⟩

end

/-- What a page that was written defines and tags. -/
theorem anchors_of_document {plan : FilePlan PageKind} (hplan : plan ∈ s.layout.files)
    {d : Document} (hd : (s.document plan).result = .ok d) {a : String} :
    (a ∈ d.page.anchors ↔ ∃ id, s.Anchored plan.page id a) ∧
      (a ∈ d.page.anchors → Text.occursIn (Page.anchorTag a) d.body = true) := by
  obtain ⟨hdefined, htag⟩ := anchors_document (fun _ _ => h.isAnchor_anchorFor) hd (a := a)
  exact ⟨hdefined.trans (h.mem_pageAnchors_iff hplan), htag⟩

theorem tagsFragments (hs : s.source.Indexed) : s.TagsFragments where
  leads := by
    intro id hid href
    obtain ⟨x, hx⟩ := Option.ne_none_iff_exists'.1 hid
    obtain ⟨hpage, hfragment⟩ := h.exists_locate hx
    constructor
    · rintro ⟨title, hlocate⟩
      rcases h.leadsTo_of_locate hlocate with ⟨plan, hfile, ha, rfl⟩ | ⟨plan, a, hleads, rfl⟩
      · exact .inl ⟨plan, h.mem_files_of_fileFor hfile, hfile, ha, rfl⟩
      · exact .inr ⟨plan, h.mem_files_of_leadsTo hleads, a, hleads, rfl⟩
    · rintro (⟨plan, -, hfile, ha, rfl⟩ | ⟨plan, -, a, hleads, rfl⟩)
      · exact hpage plan hfile ha
      · exact hfragment plan a hleads
  unknown := by
    intro id hid title href hlocate
    simp only [locate, hid] at hlocate
    split at hlocate
    · next e _ =>
      exact externalTarget_ne_internal e title href (Destination.target.inj hlocate)
    · cases hlocate
  tagged := by
    intro id plan a hleads hwrites d hd
    obtain ⟨hdefined, htag⟩ := h.anchors_of_document (h.mem_files_of_leadsTo hleads) hd (a := a)
    exact htag (hdefined.2 ⟨id, h.anchored_of_writesAnchor hs hleads hwrites⟩)
  defined := fun plan hplan d hd a => (h.anchors_of_document hplan hd).1
  sharp := by
    intro htree id plan a hleads d hd
    have hplan := h.mem_files_of_leadsTo hleads
    rw [(h.anchors_of_document hplan hd).1]
    constructor
    · rintro ⟨other, ha⟩
      by_cases hid : other = id
      · exact .inl (hid ▸ h.writesAnchor_of_anchored hs htree hplan ha)
      · exact .inr ⟨other, hid, ha⟩
    · rintro (hwrites | ⟨other, -, ha⟩)
      · exact ⟨id, h.anchored_of_writesAnchor hs hleads hwrites⟩
      · exact ⟨other, ha⟩
  written := fun hfine plan hplan => (h.leaves_document hplan).ends hfine

end Planned

/-- What the pages of an export have of the fragments that internal links lead to. -/
theorem tagsFragments_of_plan {text : String} {x : Export} {o : Options} {s : Site}
    (hx : Export.parse text = .ok x) (h : Site.plan x o = .ok s) :
    s.source = x ∧ s.options = o ∧ s.TagsFragments := by
  obtain ⟨hsource, hoptions, hplanned⟩ := planned_of_plan h
  refine ⟨hsource, hoptions, hplanned.tagsFragments ?_⟩
  rw [hsource]
  exact Export.indexed_of_parse hx

/-- No fragment of an internal link is without its tag. -/
def FragmentsTagged (s : Site) : Prop := ∀ id plan a, s.LeadsTo id plan a → ∀ d,
  (s.document plan).result = .ok d → Text.occursIn (Page.anchorTag a) d.body = true

theorem placed_smallExport {s : Site} (h : Site.plan smallExport { mode := .single } = .ok s) :
    s.Placed "3" := by
  obtain ⟨hsource, hoptions, hplanned⟩ := planned_of_plan h
  constructor
  · rw [hplanned.tree, hsource, hoptions, placements_smallExport]
    decide
  · intro n hn hid
    rcases Node.eq_root_or_known hplanned.grown n hn with rfl | ⟨y, hy, hmodule⟩
    · rw [hplanned.tree, Tree.id_root, hsource] at hid
      exact absurd hid (by decide)
    · have hmacro : (smallExport.items.get? "3").any (·.payload.isModule) = false := rfl
      rw [← hid, ← hsource, hy, Option.any_some, hmodule] at hmacro
      cases hmacro

/-- On the one page of a small crate, links to its macro lead to a tag. -/
theorem tagsFragments_of_plan_small : ∃ s, Export.parse smallText = .ok smallExport ∧
    Site.plan smallExport { mode := .single } = .ok s ∧ s.TagsFragments ∧
    ∃ plan a d, s.LeadsTo "3" plan a ∧ (s.document plan).result = .ok d ∧
      Text.occursIn (Page.anchorTag a) d.body = true := by
  obtain ⟨s, hs⟩ := exists_plan_smallExport { mode := .single }
  obtain ⟨hsource, hoptions, htags⟩ := tagsFragments_of_plan parse_smallText hs
  obtain ⟨-, -, hplanned⟩ := planned_of_plan hs
  have hplaced := placed_smallExport hs
  have hmode : s.options.mode ≠ .item := by
    rw [hoptions]
    decide
  obtain ⟨plan, a, hleads⟩ := hplanned.exists_leadsTo hmode hplaced
  have hplan := hplanned.mem_files_of_leadsTo hleads
  obtain ⟨d, hd⟩ := htags.written (writable_smallExport hsource) plan hplan
  have hroot : "3" ≠ s.source.package.rootId := by
    rw [hsource]
    decide
  have hwrites : s.WritesAnchor "3" :=
    .inl ⟨hplanned.fileFor_of_placed hplaced, fun _ => hroot⟩
  exact ⟨s, parse_smallText, hs, htags, plan, a, d, hleads, hd,
    htags.tagged "3" plan a hleads hwrites d hd⟩

/-- A crate with nothing in it. -/
def bareExport : Export := Sample.crate [Sample.module "0" "demo" []]

def bareText : String := Sample.text [("0", Sample.moduleEntry "demo" [])]

set_option maxRecDepth 2000 in
theorem parse_bareText : Export.parse bareText = .ok bareExport :=
  Sample.read_textOf (by decide +kernel) rfl

def bareTree : Tree :=
  ⟨({} : PlacementMap).add ⟨"0", ["demo"], false⟩, .mk "0" ["demo"] [] [] []⟩

/-- The one page of the bare crate. -/
def barePlan : FilePlan PageKind := ⟨"index.md", .document bareTree.root, "demo", "0"⟩

def bareSite : Site where
  options := { mode := .single }
  source := bareExport
  tree := bareTree
  layout := Layout.placeAll
    (({ package := "demo", basePath := "" } : Layout.Planned).addFile barePlan false) barePlan
    (Table.ofList [("0", "demo")])
  collisions := []

theorem tree_bareExport : Tree.ofExport bareExport false = bareTree := by
  simp [Tree.ofExport, bareExport, Sample.crate, Sample.module, Sample.item, bareTree,
    Tree.candidates, Items.payload?, Tree.place, Tree.Growth.node]

/-- On one page, the tree of the bare crate makes the layout of its site. -/
theorem plan_of_bareTree {x : Export} (htree : Tree.ofExport x false = bareTree)
    (hname : x.package.name = "demo") (himpls : x.checkImpls = .ok ()) :
    Site.plan x { mode := .single } = .ok { bareSite with source := x } := by
  have hmodules : bareTree.modules = [bareTree.root] := rfl
  have hmembers : Layout.primaryMembers bareTree bareTree.root = [] := rfl
  have hrequests : bareTree.modules.flatMap (Layout.documentRequests bareTree x) =
      [⟨"0", "demo", "mod-demo"⟩] := by
    rw [hmodules, List.flatMap_cons, List.flatMap_nil, Layout.documentRequests, hmembers,
      List.map_nil]
    decide +kernel
  simp only [Site.plan, htree, Layout.plan, Layout.planSingle, hrequests, hname, himpls]
  rw [Layout.allocate_singleton "index.md" (by decide)]
  rfl

theorem plan_bareExport : Site.plan bareExport { mode := .single } = .ok bareSite :=
  plan_of_bareTree tree_bareExport rfl rfl

theorem frontMatter_bareSite : Markdown.frontMatter "demo" none =
    ["---", "title: demo", "sidebar_label: demo", "---", ""] := by
  have hyaml : Yaml.renderTwice "title" "sidebar_label" (.str "demo") =
      "title: demo\nsidebar_label: demo\n" := by
    simp only [Yaml.renderTwice, Yaml.render, Yaml.inline, Yaml.entry, Yaml.entries]
    decide +kernel
  simp only [Markdown.frontMatter, Markdown.frontMatterOf]
  rw [hyaml]
  decide +kernel

theorem document_bareSite : ((bareSite.document barePlan).result.toOption.map fun d =>
    Text.occursIn (Page.anchorTag "demo") d.body) = some false := by
  have hroot : bareTree.root.name = "demo" := rfl
  simp only [document, pageOf, barePlan, packagePage, frontMatter_bareSite]
  decide +kernel

theorem leadsTo_bareSite : bareSite.LeadsTo "0" barePlan "demo" := .placed rfl rfl

/-- On the one page of a bare crate, links to the crate lead to a fragment without a tag. -/
theorem not_fragmentsTagged_bareSite : Export.parse bareText = .ok bareExport ∧
    Site.plan bareExport { mode := .single } = .ok bareSite ∧
    bareSite.locate "0" = .target (.link .internal "demo" "/demo#demo") ∧
    bareSite.layout.files.map bareSite.layout.urlOf = ["/demo"] ∧ ¬ bareSite.FragmentsTagged := by
  refine ⟨parse_bareText, plan_bareExport, by decide +kernel, by decide +kernel, ?_⟩
  intro htagged
  obtain ⟨d, hd, hfound⟩ := Option.map_eq_some_iff.1 document_bareSite
  have hok : (bareSite.document barePlan).result = .ok d := by
    cases hresult : (bareSite.document barePlan).result with
    | error e =>
      rw [hresult] at hd
      cases hd
    | ok d' =>
      rw [hresult] at hd
      exact congrArg Except.ok (Option.some.inj hd)
  rw [htagged "0" barePlan "demo" leadsTo_bareSite d hok] at hfound
  cases hfound

end CrateBook.Site
