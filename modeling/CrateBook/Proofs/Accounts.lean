import CrateBook.Proofs.Outputs
import CrateBook.Proofs.Pages
import CrateBook.Proofs.Tags

/-!
# What the lines of a page account for

The lines of a page fall into parts. A placement that the page shows has one part: the lines of
its item's section if it is the primary placement, and otherwise one line that leads there. All
other lines belong to the modules. Sections come before entries within a group, so the parts
stand in another order than the placements.
-/
namespace CrateBook

open OnPage (Gives Writes Wrote writes_pure gives_lift writes_addLines gives_addLinks
  writes_tagged run_lift_eq_ok)

/-- The line that lists a placement: its name with the address of the item, and the path at which
the item has its section. -/
def entryLine (p home : Placement) (href : String) : String :=
  "- [" ++ p.name ++ "](" ++ href ++ ") (re-export of " ++
    Markdown.code ("::".intercalate home.path) ++ ")"

theorem entryLine_eq (p home : Placement) (href : String) : entryLine p home href =
    "- " ++ Target.markdownLink p.name (some href) ++ " (re-export of " ++
      Markdown.code ("::".intercalate home.path) ++ ")" := by
  have hopen : "- [" = "- " ++ "[" := rfl
  have hclose : ") (re-export of " = ")" ++ " (re-export of " := rfl
  rw [entryLine, hopen, hclose, Target.markdownLink]
  simp only [String.append_assoc]

/-- An entry ends with a bracket, so the text of its page holds it whole. -/
theorem Page.occursIn_entryLine {page : Page} {p home : Placement} {href : String}
    (h : entryLine p home href ∈ page.lines) :
    Text.occursIn (entryLine p home href) page.body = true := by
  have hline := Text.occursIn_intercalate h (Text.occursIn_iff.2 (List.infix_refl _)) "\n"
  have hclose : (entryLine p home href).toList = ("- [" ++ p.name ++ "](" ++ href ++
      ") (re-export of " ++ Markdown.code ("::".intercalate home.path)).toList ++ [')'] := by
    rw [entryLine, String.toList_append]
    rfl
  refine Text.occursIn_append_right ?_ _
  rw [Text.occursIn_iff, hclose] at hline ⊢
  rw [Text.trimEnd, String.toList_ofList]
  exact Text.infix_dropBack (by decide) hline

namespace Site

variable (s : Site)

/-- The lines of modules. A line that starts like an entry is one of the front matter, of the
contents, of the re-exports that lead out of the package, or the docs of a module. -/
inductive ModuleLine : String → Prop
  | other {l : String} : Text.startsWith "- " l = false → ModuleLine l
  | frontMatter {title l : String} : l ∈ Markdown.frontMatter title none → ModuleLine l
  | docs {n : Node} {x : Item} : n ∈ s.tree.modules → s.source.items.get? n.id = some x →
      ModuleLine (Docs.sanitize (Docs.relink x.links s.hrefOf x.docs).1)
  | contents {n : Node} : n ∈ s.tree.modules → ModuleLine (Text.times (n.path.length - 2) "  " ++
      "- " ++ Target.markdownLink n.name (s.moduleLink n))
  | reexport {n : Node} {r : ReExport} {x : Item} {code : String} : n ∈ s.tree.modules →
      r ∈ n.reexports → s.source.items.get? r.itemId = some x →
      (s.declarations.text x).result = .ok code →
      ModuleLine ("- " ++ Target.markdownLink (Markdown.code code) (r.target.bind s.hrefOf))

/-- The parts of a page's lines, each with the placement that it stands for. -/
inductive Part : Option Placement → List String → Prop
  | section_ {p : Placement} {x : Item} {level : Int} {lines : List String} :
      s.tree.placements.isPrimary p = true → s.source.items.get? p.itemId = some x →
      Wrote (s.itemSection level (s.layout.anchorFor p.itemId) x) () lines → Part (some p) lines
  | entry {p home : Placement} {href : String} : s.tree.placements.isPrimary p = false →
      s.tree.placements.primary? p.itemId = some home → s.layout.hrefFor p.itemId = some href →
      Part (some p) [entryLine p home href]
  | line {l : String} : s.ModuleLine l → Part none [l]

/-- Lines account for placements if they fall into one part for each of these, and lines of
modules. -/
def AccountsFor (ps : List Placement) (lines : List String) : Prop :=
  ∃ parts : List (Option Placement × List String), (∀ part ∈ parts, s.Part part.1 part.2) ∧
    lines = parts.flatMap (·.2) ∧ (parts.filterMap (·.1)).Perm ps

/-- A placement is linked if its name leads to its item. -/
def Linked (links : List Link) (p : Placement) : Prop :=
  s.tree.placements.isPrimary p = false →
    ∃ href, s.layout.hrefFor p.itemId = some href ∧ ⟨p.name, href⟩ ∈ links

/-- A step accounts for placements on every page: by the lines and by the links that it adds. -/
structure Accounted {α : Type} (ps : List Placement) (x : OnPage α) : Prop where
  lines : Writes (fun _ lines => s.AccountsFor ps lines) x
  links : ∀ page a page', (x.run page).result = .ok (a, page') →
    ∀ p ∈ ps, s.Linked page'.links p

section

variable {s} {ps qs : List Placement} {lines more : List String}

theorem accountsFor_nil : s.AccountsFor [] [] := ⟨[], by simp, rfl, .nil⟩

theorem accountsFor_part {p : Placement} (h : s.Part (some p) lines) :
    s.AccountsFor [p] lines :=
  ⟨[(some p, lines)], by simpa using h, by simp, .refl _⟩

theorem accountsFor_lines (h : ∀ l ∈ lines, s.ModuleLine l) : s.AccountsFor [] lines := by
  refine ⟨lines.map fun l => (none, [l]), ?_, ?_, ?_⟩
  · intro part hpart
    obtain ⟨l, hl, rfl⟩ := List.mem_map.1 hpart
    exact .line (h l hl)
  · rw [List.flatMap_map]
    exact (List.flatMap_singleton' lines).symm
  · rw [List.filterMap_map]
    exact .of_eq (List.filterMap_eq_nil_iff.2 fun _ _ => rfl)

/-- Lines in a row account for the placements of both. -/
theorem AccountsFor.append (h : s.AccountsFor ps lines) (h' : s.AccountsFor qs more) :
    s.AccountsFor (ps ++ qs) (lines ++ more) := by
  obtain ⟨parts, hparts, rfl, hperm⟩ := h
  obtain ⟨parts', hparts', rfl, hperm'⟩ := h'
  refine ⟨parts ++ parts', List.forall_mem_append.2 ⟨hparts, hparts'⟩, ?_, ?_⟩
  · rw [List.flatMap_append]
  · rw [List.filterMap_append]
    exact hperm.append hperm'

/-- In what order the placements are named does not matter. -/
theorem AccountsFor.perm (h : s.AccountsFor ps lines) (hperm : ps.Perm qs) :
    s.AccountsFor qs lines := by
  obtain ⟨parts, hparts, hlines, hps⟩ := h
  exact ⟨parts, hparts, hlines, hps.trans hperm⟩

/-- Lines that account for a placement fall apart at its part. -/
theorem AccountsFor.split (h : s.AccountsFor ps lines) {p : Placement} (hp : p ∈ ps) :
    ∃ before part after qs rs, lines = before ++ part ++ after ∧ s.Part (some p) part ∧
      s.AccountsFor qs before ∧ s.AccountsFor rs after ∧ (qs ++ p :: rs).Perm ps := by
  obtain ⟨parts, hparts, rfl, hperm⟩ := h
  obtain ⟨⟨q, part⟩, hmem, rfl⟩ := List.mem_filterMap.1 (hperm.mem_iff.2 hp)
  obtain ⟨front, back, rfl⟩ := List.append_of_mem hmem
  obtain ⟨hfront, hrest⟩ := List.forall_mem_append.1 hparts
  obtain ⟨hpart, hback⟩ := List.forall_mem_cons.1 hrest
  refine ⟨front.flatMap (·.2), part, back.flatMap (·.2), front.filterMap (·.1),
    back.filterMap (·.1), ?_, hpart, ⟨front, hfront, rfl, .refl _⟩, ⟨back, hback, rfl, .refl _⟩, ?_⟩
  · rw [List.flatMap_append, List.flatMap_cons, List.append_assoc]
  · rw [List.filterMap_append, List.filterMap_cons] at hperm
    exact hperm

theorem Linked.mono {p : Placement} {links links' : List Link} (h : s.Linked links p)
    (hsub : links ⊆ links') : s.Linked links' p := by
  intro hprim
  obtain ⟨href, hhref, hmem⟩ := h hprim
  exact ⟨href, hhref, hsub hmem⟩

end

/-! ## Lines that start otherwise -/

section

variable {s}

/-- A text that does not start with a hyphen starts no entry. -/
theorem startsWith_append {t : String} (ht : t ≠ "") (h : t.toList.head? ≠ some '-')
    (u : String) : Text.startsWith "- " (t ++ u) = false := by
  have hdash : "- ".toList = ['-', ' '] := rfl
  unfold Text.startsWith
  rw [hdash, String.toList_append]
  cases hl : t.toList with
  | nil => exact absurd (String.toList_eq_nil_iff.1 hl) ht
  | cons c cs =>
    rw [hl, List.head?_cons] at h
    have hc : ('-' == c) = false := by
      rw [beq_eq_false_iff_ne]
      exact fun heq => h (congrArg some heq.symm)
    rw [List.cons_append, List.isPrefixOf_cons_cons, hc, Bool.false_and]

theorem moduleLine_empty : s.ModuleLine "" := .other (by decide)

theorem moduleLine_append {t : String} (ht : t ≠ "") (h : t.toList.head? ≠ some '-')
    (u : String) : s.ModuleLine (t ++ u) := .other (startsWith_append ht h u)

theorem moduleLine_headingLines (level : Int) (text : String) :
    ∀ l ∈ Page.headingLines level text, s.ModuleLine l := by
  have hfirst : s.ModuleLine (Text.times (min level 6).toNat "#" ++ " " ++ text) := by
    rw [Text.times]
    cases (min level 6).toNat with
    | zero =>
      rw [List.replicate_zero, String.join_nil, String.empty_append]
      exact moduleLine_append (by decide) (by decide) _
    | succ k =>
      rw [List.replicate_succ, String.join_cons, String.append_assoc, String.append_assoc]
      exact moduleLine_append (by decide) (by decide) _
  intro l hl
  rcases List.mem_cons.1 hl with rfl | hl
  · exact hfirst
  · rw [List.mem_singleton.1 hl]
    exact moduleLine_empty

theorem moduleLine_table (headers : List String) (rows : List (List String)) :
    s.ModuleLine (Markdown.table headers rows) := by
  unfold Markdown.table
  split
  · exact moduleLine_empty
  · rw [Text.joinLines, String.intercalate_cons_cons, Markdown.row]
    simp only [String.append_assoc]
    exact moduleLine_append (by decide) (by decide) _

end

/-! ## Steps that write the lines of modules -/

section

variable {s} {α β : Type} {ps qs : List Placement}

/-- A sequence accounts for the placements of its steps, and links what they link. -/
theorem Accounted.bind {x : OnPage α} (hx : s.Accounted ps x) {f : α → OnPage β}
    (hf : ∀ a, (∃ page page', (x.run page).result = .ok (a, page')) → s.Accounted qs (f a)) :
    s.Accounted (ps ++ qs) (x >>= f) := by
  constructor
  · intro page b page' hrun
    obtain ⟨⟨a, mid⟩, ha, hb⟩ := Noting.bind_eq_ok.1 hrun
    obtain ⟨hkept, lines, hlines, hps⟩ := hx.lines page a mid ha
    obtain ⟨hkept', more, hmore, hqs⟩ := (hf a ⟨page, mid, ha⟩).lines mid b page' hb
    exact ⟨List.Subset.trans hkept hkept', lines ++ more,
      by rw [hmore, hlines, List.append_assoc], hps.append hqs⟩
  · intro page b page' hrun p hp
    obtain ⟨⟨a, mid⟩, ha, hb⟩ := Noting.bind_eq_ok.1 hrun
    have hf := hf a ⟨page, mid, ha⟩
    rcases List.mem_append.1 hp with hp | hp
    · exact (hx.links page a mid ha p hp).mono (hf.lines mid b page' hb).1
    · exact hf.links mid b page' hb p hp

/-- A step of modules in front. -/
theorem Accounted.after {x : OnPage α} (hx : s.Accounted [] x) {f : α → OnPage β}
    (hf : ∀ a, s.Accounted qs (f a)) : s.Accounted qs (x >>= f) :=
  hx.bind fun a _ => hf a

/-- A step of modules behind. -/
theorem Accounted.andThen {x : OnPage α} (hx : s.Accounted ps x) {f : α → OnPage β}
    (hf : ∀ a, s.Accounted [] (f a)) : s.Accounted ps (x >>= f) :=
  List.append_nil ps ▸ hx.bind fun a _ => hf a

theorem accounted_of_writes {P : α → List String → Prop} {x : OnPage α} (hx : Writes P x)
    (h : ∀ a lines, P a lines → ∀ l ∈ lines, s.ModuleLine l) : s.Accounted [] x :=
  ⟨hx.mono fun a lines hlines => accountsFor_lines (h a lines hlines),
    fun _ _ _ _ _ hp => absurd hp List.not_mem_nil⟩

theorem accounted_of_gives {P : α → Prop} {x : OnPage α} (hx : Gives P x) :
    s.Accounted [] x := by
  refine accounted_of_writes hx ?_
  rintro a lines ⟨rfl, -⟩
  exact List.forall_mem_nil _

theorem accounted_forM {f : α → OnPage Unit} {g : α → List Placement} {as : List α}
    (h : ∀ a ∈ as, s.Accounted (g a) (f a)) : s.Accounted (as.flatMap g) (as.forM f) := by
  induction as with
  | nil => exact accounted_of_gives (writes_pure ⟨rfl, trivial⟩ : Gives (fun _ => True) _)
  | cons a as ih =>
    rw [List.flatMap_cons]
    exact (h a List.mem_cons_self).bind fun _ _ => ih fun b hb => h b (List.mem_cons_of_mem a hb)

theorem accounted_pure (a : α) : s.Accounted [] (pure a : OnPage α) :=
  accounted_of_gives (writes_pure ⟨rfl, trivial⟩ : Gives (fun _ => True) _)

theorem accounted_lift (x : Noting α) : s.Accounted [] (liftM x : OnPage α) :=
  accounted_of_gives (gives_lift x)

theorem accounted_addLinks (links : List Link) : s.Accounted [] (addLinks links) :=
  accounted_of_gives (gives_addLinks links)

theorem accounted_addLines {lines : List String} (h : ∀ l ∈ lines, s.ModuleLine l) :
    s.Accounted [] (addLines lines) := by
  refine accounted_of_writes (writes_addLines lines) ?_
  rintro _ _ rfl
  exact h

/-- A line and the empty line behind it. -/
theorem accounted_addLine {l : String} (h : s.ModuleLine l) :
    s.Accounted [] (addLines [l, ""]) :=
  accounted_addLines (List.forall_mem_cons.2 ⟨h, List.forall_mem_singleton.2 moduleLine_empty⟩)

theorem accounted_frontMatter (title : String) :
    s.Accounted [] (addLines (Markdown.frontMatter title none)) :=
  accounted_addLines fun _ hl => .frontMatter hl

theorem accounted_heading (level : Int) (text : String) (anchor : Option String) :
    s.Accounted [] (heading level text anchor) := by
  refine accounted_of_writes (writes_tagged level text anchor) ?_
  rintro _ _ ⟨tag, htag, rfl⟩
  refine List.forall_mem_append.2 ⟨?_, moduleLine_headingLines level text⟩
  rcases htag with rfl | ⟨a, rfl⟩
  · exact List.forall_mem_nil _
  · rw [Page.anchorTag, String.append_assoc]
    exact List.forall_mem_cons.2 ⟨moduleLine_append (by decide) (by decide) _,
      List.forall_mem_singleton.2 moduleLine_empty⟩

theorem accounted_linkTo (id : Option Id) (name : String) : s.Accounted [] (s.linkTo id name) :=
  accounted_of_gives (s.gives_linkTo id name)

theorem accounted_summary (x : Item) : s.Accounted [] (s.summary x) :=
  accounted_of_gives (s.gives_summary x)

theorem gives_moduleName (n : Node) :
    Gives (fun name => name = Target.markdownLink n.name (s.moduleLink n)) (s.moduleName n) :=
  Writes.after (gives_addLinks _) fun _ _ => writes_pure ⟨rfl, rfl⟩

theorem accounted_crumbs (above path : List String) : s.Accounted [] (s.crumbs above path) := by
  induction path generalizing above with
  | nil => exact accounted_pure _
  | cons segment rest ih =>
    exact (accounted_addLinks _).after fun _ => (ih _).after fun _ => accounted_pure _

theorem accounted_moduleLine (modulePath : List String) :
    s.Accounted [] (s.moduleLine modulePath) :=
  ((accounted_crumbs _ _).after fun _ => accounted_pure _).after fun _ =>
    accounted_addLine (moduleLine_append (by decide) (by decide) _)

theorem accounted_otherPlacements (p : Placement) : s.Accounted [] (s.otherPlacements p) := by
  unfold otherPlacements
  dsimp only
  split
  · exact accounted_addLine (moduleLine_append (by decide) (by decide) _)
  · exact accounted_pure _

theorem accounted_contents {modules : List Node} (h : modules ⊆ s.tree.modules) :
    s.Accounted [] (s.contents modules) := by
  have hline : ∀ n ∈ modules, s.Accounted [] (s.contentsLine n) := by
    intro n hn
    refine accounted_of_writes (P := fun _ lines => lines = [Text.times (n.path.length - 2) "  " ++
      "- " ++ Target.markdownLink n.name (s.moduleLink n)]) ?_ ?_
    · refine Writes.after (gives_moduleName n) fun name hname => ?_
      rw [hname]
      exact writes_addLines _
    · rintro _ _ rfl
      exact List.forall_mem_singleton.2 (.contents (h hn))
  have hlines : s.Accounted [] (modules.forM s.contentsLine) := by
    have hforM := accounted_forM hline
    rwa [List.flatMap_eq_nil_iff.2 fun _ _ => rfl] at hforM
  unfold contents
  split
  · exact accounted_pure _
  · exact (accounted_heading _ _ _).after fun _ => hlines.andThen fun _ =>
      accounted_addLines (List.forall_mem_singleton.2 moduleLine_empty)

theorem accounted_docsBlock {n : Node} (hn : n ∈ s.tree.modules) {x : Item}
    (hx : s.source.items.get? n.id = some x) : s.Accounted [] (s.docsBlock x) := by
  refine (accounted_of_gives (s.gives_docs x)).bind fun text htext => ?_
  obtain ⟨page, page', hrun⟩ := htext
  obtain ⟨-, -, -, -, rfl⟩ := s.gives_docs x page text page' hrun
  split
  · exact accounted_pure _
  · exact accounted_addLine (.docs hn hx)

theorem accounted_withItem {id : Id} {f : Item → OnPage β}
    (hf : ∀ x, s.source.items.get? id = some x → s.Accounted qs (f x)) :
    s.Accounted qs ((liftM (s.item id) : OnPage Item) >>= f) := by
  refine (accounted_lift (s.item id)).bind fun x hx => hf x ?_
  obtain ⟨page, page', hx⟩ := hx
  exact s.item_eq_ok.1 (run_lift_eq_ok.1 hx).1

theorem accounted_moduleIntro {n : Node} (hn : n ∈ s.tree.modules) :
    s.Accounted [] (s.moduleIntro n) := by
  have hdocs : s.Accounted [] (do s.docsBlock (← s.item n.id)) :=
    accounted_withItem fun x hx => accounted_docsBlock hn hx
  unfold moduleIntro
  split
  · dsimp only
    split
    · refine (accounted_linkTo _ _).after fun link => ?_
      rw [String.append_assoc]
      exact (accounted_addLine (moduleLine_append (by decide) (by decide) _)).after fun _ => hdocs
    · exact hdocs
  · exact hdocs

/-- Steps of modules, one for each part of a list. -/
theorem accounted_mapM {f : α → OnPage β} {as : List α} (h : ∀ a ∈ as, s.Accounted [] (f a)) :
    s.Accounted [] (as.mapM f) := by
  induction as with
  | nil => exact accounted_pure _
  | cons a as ih =>
    rw [List.mapM_cons]
    exact (h a List.mem_cons_self).after fun _ =>
      (ih fun b hb => h b (List.mem_cons_of_mem a hb)).after fun _ => accounted_pure _

theorem accounted_overviewTable (rows : List (List String)) :
    s.Accounted [] (addLines (overviewTable rows)) :=
  accounted_addLine (moduleLine_table _ _)

theorem accounted_childModules (level : Int) (n : Node) :
    s.Accounted [] (s.childModules level n) := by
  have hrow (c : Node) : s.Accounted [] (s.childRow c) :=
    (accounted_of_gives (gives_moduleName c)).after fun _ => accounted_withItem fun x _ =>
      (accounted_summary x).after fun _ => accounted_pure _
  unfold childModules
  split
  · exact accounted_pure _
  · exact (accounted_mapM fun c _ => hrow c).after fun _ =>
      (accounted_heading _ _ _).after fun _ => accounted_overviewTable _

theorem accounted_itemRow (p : Placement) : s.Accounted [] (s.itemRow p) :=
  (accounted_linkTo _ _).after fun _ => accounted_withItem fun x _ =>
    (accounted_summary x).after fun _ => accounted_pure _

/-- The re-exports that lead out of the package are lines of the module. -/
theorem accounted_reexports (level : Int) {n : Node} (hn : n ∈ s.tree.modules) :
    s.Accounted [] (s.reexports level n) := by
  have hone : ∀ r ∈ n.reexports, s.Accounted [] (s.reexport r) := by
    intro r hr
    refine accounted_withItem fun x hx => (accounted_lift _).bind fun declared hdeclared =>
      (accounted_lift _).bind fun href hhref => (accounted_addLinks _).after fun _ =>
        accounted_addLines (List.forall_mem_singleton.2 ?_)
    obtain ⟨page, page', hdeclared⟩ := hdeclared
    obtain ⟨front, back, hhref⟩ := hhref
    have hask : (s.ask r.target r.name).result = .ok (r.target.bind s.hrefOf) := by
      cases r.target <;> rfl
    obtain rfl := Except.ok.inj (hask.symm.trans (run_lift_eq_ok.1 hhref).1)
    exact .reexport hn hr hx (Declaration.text_of_render (run_lift_eq_ok.1 hdeclared).1)
  have hall : s.Accounted [] (n.reexports.forM s.reexport) := by
    have hforM := accounted_forM hone
    rwa [List.flatMap_eq_nil_iff.2 fun _ _ => rfl] at hforM
  unfold reexports
  split
  · exact accounted_pure _
  · exact (accounted_heading _ _ _).after fun _ => hall.andThen fun _ =>
      accounted_addLines (List.forall_mem_singleton.2 moduleLine_empty)

end

/-! ## Members in full -/

/-- An item can be listed if it has a primary placement, and its address is the one that links to
it have. -/
def Listable (id : Id) : Prop :=
  ∃ home href, s.tree.placements.primary? id = some home ∧ s.layout.hrefFor id = some href ∧
    s.hrefOf id = some href

section

variable {s} {p : Placement}

/-- The entry of a placement, where its item can be listed. -/
theorem gives_elsewhereEntry (hprim : s.tree.placements.isPrimary p = false)
    (h : s.Listable p.itemId) :
    Gives (fun line => s.Part (some p) [line]) (s.elsewhereEntry p) := by
  obtain ⟨home, href, hhome, hhref, hlink⟩ := h
  refine Writes.after (gives_lift _) fun found hfound => Writes.after (gives_addLinks _)
    fun _ _ => Writes.after (gives_lift _) fun _ _ => writes_pure ⟨rfl, ?_⟩
  have hask : (s.ask (some p.itemId) p.name).result = .ok (s.hrefOf p.itemId) := rfl
  obtain rfl := Except.ok.inj (hask.symm.trans hfound)
  rw [hlink, hhome, ← entryLine_eq]
  exact .entry hprim hhome hhref

theorem linked_elsewhereEntry (h : s.Listable p.itemId) {page page' : Page} {line : String}
    (hrun : ((s.elsewhereEntry p).run page).result = .ok (line, page')) :
    s.Linked page'.links p := by
  obtain ⟨home, href, -, hhref, hlink⟩ := h
  intro _
  refine ⟨href, hhref, ?_⟩
  cases hrun
  simp [hlink]

end

section

variable {s}

/-- A member is written at once if it is the primary placement, and gives its entry otherwise. -/
theorem writes_inlineMember (level : Int) {p : Placement}
    (h : s.tree.placements.isPrimary p = false → s.Listable p.itemId) :
    Writes (fun r lines => s.AccountsFor ([p].filter s.tree.placements.isPrimary) lines ∧
        s.AccountsFor ([p].filter fun q => !s.tree.placements.isPrimary q) r.toList)
      (s.inlineMember level p) := by
  unfold inlineMember
  cases hprim : s.tree.placements.isPrimary p with
  | true =>
    simp only [if_true, List.filter_cons, hprim, Bool.not_true, Bool.false_eq_true, if_false,
      List.filter_nil]
    refine Writes.after (gives_lift _) fun x hx => (s.wrote_itemSection level _ x).bind
      fun _ lines hlines => writes_pure ⟨?_, accountsFor_nil⟩
    rw [List.append_nil]
    exact accountsFor_part (.section_ hprim (s.item_eq_ok.1 hx) hlines)
  | false =>
    have h := h hprim
    simp only [Bool.false_eq_true, if_false, List.filter_cons, hprim, Bool.not_false, if_true,
      List.filter_nil]
    exact Writes.after (gives_elsewhereEntry hprim h) fun line hline =>
      writes_pure ⟨accountsFor_nil, accountsFor_part hline⟩

theorem linked_inlineMember {level : Int} {p : Placement}
    (h : s.tree.placements.isPrimary p = false → s.Listable p.itemId) {page page' : Page}
    {r : Option String} (hrun : ((s.inlineMember level p).run page).result = .ok (r, page')) :
    s.Linked page'.links p := by
  intro hprim
  unfold inlineMember at hrun
  rw [hprim, if_neg Bool.false_ne_true, StateT.run_bind] at hrun
  obtain ⟨⟨line, mid⟩, hline, hrun⟩ := Noting.bind_eq_ok.1 hrun
  cases hrun
  exact linked_elsewhereEntry (h hprim) hline hprim

variable {ps : List Placement}
  (hps : ∀ p ∈ ps, s.tree.placements.isPrimary p = false → s.Listable p.itemId)

include hps

/-- The sections of a group come first; the entries are held back. -/
theorem writes_mapM_inlineMember (level : Int) :
    Writes (fun rs lines => s.AccountsFor (ps.filter s.tree.placements.isPrimary) lines ∧
        s.AccountsFor (ps.filter fun p => !s.tree.placements.isPrimary p) (rs.filterMap id))
      (ps.mapM (s.inlineMember level)) := by
  induction ps with
  | nil => exact writes_pure ⟨accountsFor_nil, accountsFor_nil⟩
  | cons p ps ih =>
    obtain ⟨hp, hps⟩ := List.forall_mem_cons.1 hps
    rw [List.mapM_cons, ← List.singleton_append, List.filter_append, List.filter_append]
    refine (writes_inlineMember level hp).bind fun r lines ⟨hlines, hr⟩ =>
      (ih hps).bind fun rs more ⟨hmore, hrs⟩ => writes_pure ⟨?_, ?_⟩
    · rw [List.append_nil]
      exact hlines.append hmore
    · have hcons : (r :: rs).filterMap id = r.toList ++ rs.filterMap id := by cases r <;> rfl
      rw [hcons]
      exact hr.append hrs

theorem linked_mapM_inlineMember {level : Int} {page page' : Page} {rs : List (Option String)}
    (hrun : ((ps.mapM (s.inlineMember level)).run page).result = .ok (rs, page')) :
    ∀ p ∈ ps, s.Linked page'.links p := by
  induction ps generalizing page page' rs with
  | nil => exact List.forall_mem_nil _
  | cons p ps ih =>
    obtain ⟨hp, hps⟩ := List.forall_mem_cons.1 hps
    rw [List.mapM_cons] at hrun
    obtain ⟨⟨r, mid⟩, hr, hrun⟩ := Noting.bind_eq_ok.1 hrun
    obtain ⟨⟨rs', last⟩, hrs, hrun⟩ := Noting.bind_eq_ok.1 hrun
    cases hrun
    have hkept := (writes_mapM_inlineMember hps level mid rs' page' hrs).1
    exact List.forall_mem_cons.2 ⟨(linked_inlineMember hp hr).mono hkept, ih hps hrs⟩

/-- The items of a group in full: their sections, then the entries of the others. -/
theorem accounted_inlineMembers (level : Int) : s.Accounted ps (s.inlineMembers level ps) := by
  have hrows := writes_mapM_inlineMember hps level
  -- the entries are written where there are any, with an empty line behind them
  have hrest (rs : List (Option String)) {qs : List Placement}
      (hqs : s.AccountsFor qs (rs.filterMap id)) :
      Writes (fun _ lines => s.AccountsFor qs lines)
        (if !(rs.filterMap id).isEmpty then addLines (rs.filterMap id ++ [""]) else pure ()) := by
    split
    · refine (writes_addLines _).mono ?_
      rintro _ _ rfl
      have hblank : s.AccountsFor [] [""] :=
        accountsFor_lines (List.forall_mem_singleton.2 moduleLine_empty)
      exact List.append_nil qs ▸ hqs.append hblank
    · next hempty =>
      have hnil : rs.filterMap id = [] := by simpa using hempty
      exact writes_pure (hnil ▸ hqs)
  constructor
  · refine hrows.bind fun rs lines ⟨hlines, hentries⟩ => (hrest rs hentries).mono ?_
    intro _ more hmore
    exact (hlines.append hmore).perm (List.filter_append_perm _ ps)
  · intro page a page' hrun p hp
    obtain ⟨⟨rs, mid⟩, hrs, hrun⟩ := Noting.bind_eq_ok.1 hrun
    obtain ⟨-, lines, -, -, hentries⟩ := hrows page rs mid hrs
    exact (linked_mapM_inlineMember hps hrs p hp).mono (hrest rs hentries mid a page' hrun).1

end

/-! ## Pages -/

section

variable {s} {α : Type} {n : Node} (hn : n ∈ s.tree.modules)

theorem Accounted.perm {ps qs : List Placement} {x : OnPage α} (hx : s.Accounted ps x)
    (h : ps.Perm qs) : s.Accounted qs x :=
  ⟨hx.lines.mono fun _ _ hlines => hlines.perm h,
    fun page a page' hrun p hp => hx.links page a page' hrun p (h.mem_iff.2 hp)⟩

section

variable {inFull : Bool} (hlist : inFull = true → ∀ p ∈ n.members,
  s.tree.placements.isPrimary p = false → s.Listable p.itemId)

include hlist

theorem accounted_memberGroupOf (level : Int) (title : String) :
    s.Accounted (if inFull then membersUnder title (s.kindedMembers n) else [])
      (s.memberGroupOf level inFull (s.kindedMembers n) title) := by
  have hsub := s.membersUnder_subset n title
  unfold memberGroupOf
  generalize membersUnder title (s.kindedMembers n) = ps at hsub
  cases inFull with
  | true =>
    simp only [if_true]
    split
    · next hempty =>
      have hnil : ps = [] := by simpa using hempty
      rw [hnil]
      exact accounted_pure _
    · exact (accounted_heading _ _ _).after fun _ =>
        accounted_inlineMembers (fun p hp => hlist rfl p (hsub hp)) _
  | false =>
    simp only [Bool.false_eq_true, if_false]
    split
    · exact accounted_pure _
    · exact (accounted_heading _ _ _).after fun _ =>
        (accounted_mapM fun p _ => accounted_itemRow p).after fun _ => accounted_overviewTable _

include hn

/-- A module that shows its members in full accounts for them, in the order of their groups. -/
theorem accounted_moduleContents (level : Int) :
    s.Accounted (if inFull then n.members else []) (s.moduleContents level inFull n) := by
  have hgroups : s.Accounted (if inFull then n.members else [])
      (groupOrder.forM (s.memberGroupOf level inFull (s.kindedMembers n))) := by
    have hforM := accounted_forM fun title (_ : title ∈ groupOrder) =>
      accounted_memberGroupOf hlist level title
    refine hforM.perm ?_
    cases inFull with
    | true => exact s.perm_membersUnder n
    | false => exact .of_eq (List.flatMap_eq_nil_iff.2 fun _ _ => rfl)
  generalize (if inFull then n.members else []) = ps at hgroups ⊢
  have hkinds : s.Accounted [] (n.members.mapM fun p => (do s.withKind p : OnPage _)) :=
    accounted_mapM fun p _ => accounted_lift (s.withKind p)
  refine hkinds.bind fun members hmembers => ?_
  obtain ⟨page, page', hmembers⟩ := hmembers
  obtain rfl := mapM_withKind_eq_ok hmembers
  exact hgroups.andThen fun _ => accounted_reexports level hn

end

include hn

theorem accounted_modulePage (title : String) (hlist : s.options.mode = .module →
      ∀ p ∈ n.members, s.tree.placements.isPrimary p = false → s.Listable p.itemId) :
    s.Accounted (if s.options.mode == .module then n.members else []) (s.modulePage title n) := by
  have hcontents := accounted_moduleContents hn (fun hmode => hlist (beq_iff_eq.1 hmode)) 2
  have hrest : s.Accounted (if s.options.mode == .module then n.members else []) (do
      heading 1 ((if n.path.length == 1 then "Crate" else "Module") ++ " " ++ n.name) none
      s.moduleIntro n
      s.childModules 2 n
      s.moduleContents 2 (s.options.mode == .module) n) :=
    (accounted_heading _ _ _).after fun _ => (accounted_moduleIntro hn).after fun _ =>
      (accounted_childModules 2 n).after fun _ => hcontents
  generalize (if s.options.mode == .module then n.members else []) = ps at hrest ⊢
  refine (accounted_frontMatter title).after fun _ => ?_
  dsimp only
  split
  · exact (accounted_moduleLine _).after fun _ => hrest
  · exact hrest

theorem accounted_contentsInFull (level : Int)
    (hlist : ∀ p ∈ n.members, s.tree.placements.isPrimary p = false → s.Listable p.itemId) :
    s.Accounted n.members (s.moduleContents level true n) := by
  have hcontents : s.Accounted (if true then n.members else []) (s.moduleContents level true n) :=
    accounted_moduleContents hn (fun _ => hlist) level
  exact hcontents

theorem accounted_moduleSection
    (hlist : ∀ p ∈ n.members, s.tree.placements.isPrimary p = false → s.Listable p.itemId) :
    s.Accounted n.members (s.moduleSection n) :=
  (accounted_heading _ _ _).after fun _ => (accounted_moduleIntro hn).after fun _ =>
    accounted_contentsInFull hn 3 hlist

omit hn

/-- The page of the package accounts for the members of all modules. -/
theorem accounted_packagePage (title : String) (hlist : ∀ n ∈ s.tree.modules, ∀ p ∈ n.members,
      s.tree.placements.isPrimary p = false → s.Listable p.itemId) :
    s.Accounted (s.tree.modules.flatMap Node.members) (s.packagePage title s.tree.root) := by
  have hmodules : s.tree.modules = s.tree.root :: s.tree.modules.tail := by
    rw [Tree.modules, Node.walk_eq_cons, List.tail_cons]
  have hroot : s.tree.root ∈ s.tree.modules := Node.self_mem_walk _
  have htail : s.tree.modules.tail ⊆ s.tree.modules := fun _ => List.mem_of_mem_tail
  have hsections : s.Accounted (s.tree.modules.tail.flatMap Node.members)
      (s.tree.modules.tail.forM s.moduleSection) :=
    accounted_forM fun n hn => accounted_moduleSection (htail hn) (hlist n (htail hn))
  rw [hmodules, List.flatMap_cons]
  exact (accounted_frontMatter title).after fun _ => (accounted_heading _ _ _).after fun _ =>
    (accounted_moduleIntro hroot).after fun _ => (accounted_contents htail).after fun _ =>
      (accounted_contentsInFull hroot 2 (hlist _ hroot)).bind fun _ _ => hsections

/-- The page of an item accounts for its primary placement. -/
theorem accounted_itemPage (title : String) {p : Placement}
    (hprim : s.tree.placements.isPrimary p = true) (hanchor : s.layout.anchorFor p.itemId = none) :
    s.Accounted [p] (s.itemPage title p) := by
  refine accounted_withItem fun x hx => (accounted_frontMatter title).after fun _ =>
    (accounted_moduleLine _).after fun _ => Accounted.andThen ⟨?_, ?_⟩ fun _ =>
      accounted_otherPlacements p
  · refine (s.wrote_itemSection 1 none x).mono fun _ lines hlines => ?_
    exact accountsFor_part (.section_ hprim hx (hanchor ▸ hlines))
  · intro page a page' _ q hq hother
    obtain rfl := List.mem_singleton.1 hq
    rw [hprim] at hother
    cases hother

end

end Site

end CrateBook
