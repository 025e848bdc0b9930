import CrateBook.Page.Section
import CrateBook.Proofs.Marks

/-!
# Lines that steps write

A step adds lines behind those that stand on the page, and leaves the links of the page. A
judgement tells what holds of its result and of these lines, for every run to an end. The lines of
steps in a row stand in a row, so the lines of a section follow from those of its parts.
-/
namespace CrateBook

namespace Page

/-- The lines of a heading, its anchor apart. -/
def headingLines (level : Int) (text : String) : List String :=
  [Text.times (min level 6).toNat "#" ++ " " ++ text, ""]

/-- A table under its heading, if it has rows. -/
def tableLines (level : Int) (title : String) (headers : List String)
    (rows : List (List String)) : List String :=
  if rows.isEmpty then [] else headingLines level title ++ [Markdown.table headers rows, ""]

/-- The text is made of the tags of anchors, if of anything. -/
def IsTags (t : String) : Prop := ∃ anchors : List String, t = String.join (anchors.map anchorTag)

/-- The lines are one paragraph, or none. -/
def IsParagraph (lines : List String) : Prop := lines = [] ∨ ∃ text, lines = [text, ""]

theorem isTags_tagFor (p : Page) (anchor : Option String) : IsTags (p.tagFor anchor) := by
  unfold tagFor
  split
  · exact ⟨[anchor.getD ""], by simp [String.join]⟩
  · exact ⟨[], rfl⟩

theorem IsTags.append {t u : String} (ht : IsTags t) (hu : IsTags u) : IsTags (t ++ u) := by
  obtain ⟨as, rfl⟩ := ht
  obtain ⟨bs, rfl⟩ := hu
  exact ⟨as ++ bs, by rw [List.map_append, String.join_append]⟩

/-- Tags in a row are tags. -/
theorem IsTags.join {ts : List String} (h : ∀ t ∈ ts, IsTags t) : IsTags (String.join ts) := by
  induction ts with
  | nil => exact ⟨[], rfl⟩
  | cons t ts ih =>
    rw [String.join_cons]
    obtain ⟨ht, hts⟩ := List.forall_mem_cons.1 h
    exact ht.append (ih hts)

end Page

namespace OnPage

open Page (IsParagraph IsTags headingLines)

variable {α β : Type}

/-- Whenever a step runs to its end, the page keeps its links and gets lines of which something
holds. -/
def Writes (P : α → List String → Prop) (x : OnPage α) : Prop :=
  ∀ p a q, (x.run p).result = .ok (a, q) →
    p.links ⊆ q.links ∧ ∃ lines, q.lines = p.lines ++ lines ∧ P a lines

/-- The step writes these lines on some page. -/
def Wrote (x : OnPage α) (a : α) (lines : List String) : Prop :=
  ∃ p q, (x.run p).result = .ok (a, q) ∧ q.lines = p.lines ++ lines

/-- Whenever a step runs to its end, it adds no lines, and something holds of its result. -/
abbrev Gives (P : α → Prop) (x : OnPage α) : Prop := Writes (fun a lines => lines = [] ∧ P a) x

variable {P P' : α → List String → Prop} {Q : β → List String → Prop}

/-- What is known of the lines of a step may be weakened. -/
theorem Writes.mono {x : OnPage α} (hx : Writes P x) (h : ∀ a lines, P a lines → P' a lines) :
    Writes P' x := by
  intro p a q hrun
  obtain ⟨hlinks, lines, hlines, ha⟩ := hx p a q hrun
  exact ⟨hlinks, lines, hlines, h a lines ha⟩

/-- The lines of a step are such as it writes on some page. -/
theorem Writes.wrote {x : OnPage α} (hx : Writes P x) : Writes (Wrote x) x := by
  intro p a q hrun
  obtain ⟨hlinks, lines, hlines, -⟩ := hx p a q hrun
  exact ⟨hlinks, lines, hlines, p, q, hrun, hlines⟩

theorem writes_pure {a : α} (h : P a []) : Writes P (pure a : OnPage α) := by
  intro p b q hrun
  cases hrun
  exact ⟨List.Subset.refl _, [], (List.append_nil _).symm, h⟩

/-- The lines of two steps in a row. -/
theorem Writes.bind {x : OnPage α} (hx : Writes P x) {f : α → OnPage β}
    (hf : ∀ a lines, P a lines → Writes (fun b more => Q b (lines ++ more)) (f a)) :
    Writes Q (x >>= f) := by
  intro p b q hrun
  obtain ⟨⟨a, r⟩, ha, hb⟩ := Noting.bind_eq_ok.1 hrun
  obtain ⟨hkept, lines, hlines, hP⟩ := hx p a r ha
  obtain ⟨hkept', more, hmore, hQ⟩ := hf a lines hP r b q hb
  exact ⟨List.Subset.trans hkept hkept', lines ++ more,
    by rw [hmore, hlines, List.append_assoc], hQ⟩

/-- A step without lines in front. -/
theorem Writes.after {G : α → Prop} {x : OnPage α} (hx : Gives G x) {f : α → OnPage β}
    (hf : ∀ a, G a → Writes Q (f a)) : Writes Q (x >>= f) := by
  refine hx.bind fun a lines ⟨hlines, ha⟩ => ?_
  subst hlines
  exact hf a ha

theorem gives_lift (x : Noting α) : Gives (fun a => x.result = .ok a) (liftM x : OnPage α) := by
  intro p a q hrun
  obtain ⟨ha, rfl⟩ := run_lift_eq_ok.1 hrun
  exact ⟨List.Subset.refl _, [], (List.append_nil _).symm, rfl, ha⟩

theorem writes_addLines (lines : List String) :
    Writes (fun _ added => added = lines) (Site.addLines lines) := by
  intro p a q hrun
  cases hrun
  exact ⟨List.Subset.refl _, lines, rfl, rfl⟩

theorem gives_addLinks (links : List Link) : Gives (fun _ => True) (Site.addLinks links) := by
  intro p a q hrun
  cases hrun
  exact ⟨List.subset_append_left _ _, [], (List.append_nil _).symm, rfl, trivial⟩

theorem gives_defineAnchor (anchor : String) : Gives IsTags (Site.defineAnchor anchor) := by
  intro p tag q hrun
  cases hrun
  exact ⟨by simp, [], by simp, rfl, p.isTags_tagFor _⟩

/-- A heading, behind the tag of its anchor if the page gets one. -/
theorem writes_tagged (level : Int) (text : String) (anchor : Option String) :
    Writes (fun _ lines => ∃ tag, (tag = [] ∨ ∃ a, tag = [Page.anchorTag a, ""]) ∧
      lines = tag ++ headingLines level text) (Site.heading level text anchor) := by
  intro p a q hrun
  cases hrun
  refine ⟨by simp, ?_⟩
  unfold Page.heading Page.tagFor
  dsimp only
  split
  · refine ⟨[Page.anchorTag (anchor.getD ""), ""] ++ headingLines level text, ?_, _,
      .inr ⟨_, rfl⟩, rfl⟩
    simp [headingLines]
  · exact ⟨headingLines level text, by simp [headingLines], [], .inl rfl, rfl⟩

theorem writes_heading (level : Int) (text : String) (anchor : Option String) :
    Writes (fun _ lines => ∃ tag, IsParagraph tag ∧ lines = tag ++ headingLines level text)
      (Site.heading level text anchor) := by
  refine (writes_tagged level text anchor).mono ?_
  rintro _ lines ⟨tag, htag, hlines⟩
  refine ⟨tag, htag.imp_right ?_, hlines⟩
  rintro ⟨a, rfl⟩
  exact ⟨_, rfl⟩

theorem writes_heading_none (level : Int) (text : String) :
    Writes (fun _ lines => lines = headingLines level text) (Site.heading level text none) := by
  intro p a q hrun
  cases hrun
  exact ⟨List.Subset.refl _, headingLines level text, rfl, rfl⟩

/-- Steps without lines, one for each part of a list. -/
theorem gives_mapM {R : α → β → Prop} {f : α → OnPage β} (h : ∀ a, Gives (R a) (f a))
    (as : List α) : Gives (fun bs => List.Forall₂ R as bs) (as.mapM f) := by
  induction as with
  | nil => exact writes_pure ⟨rfl, .nil⟩
  | cons a as ih =>
    rw [List.mapM_cons]
    exact Writes.after (h a) fun b hb => Writes.after ih fun bs hbs =>
      writes_pure ⟨rfl, .cons hb hbs⟩

/-- The lines of steps, one for each part of a list. -/
theorem writes_forM {R : α → List String → Prop} {f : α → OnPage Unit}
    (h : ∀ a, Writes (fun _ lines => R a lines) (f a)) (as : List α) :
    Writes (fun _ lines => ∃ parts, List.Forall₂ R as parts ∧ lines = parts.flatten)
      (as.forM f) := by
  induction as with
  | nil => exact writes_pure ⟨[], .nil, rfl⟩
  | cons a as ih =>
    refine (h a).bind fun _ part hpart => ih.mono fun _ lines ⟨parts, hparts, hlines⟩ => ?_
    exact ⟨part :: parts, .cons hpart hparts, by rw [List.flatten_cons, hlines]⟩

end OnPage

namespace Site

open OnPage (Gives Writes Wrote writes_pure gives_lift writes_addLines gives_addLinks
  gives_defineAnchor writes_heading writes_heading_none gives_mapM writes_forM)

open Page (IsParagraph IsTags headingLines)

variable (s : Site)

section

variable (x : Item)

theorem writes_deprecation : Writes (fun _ lines => IsParagraph lines) (deprecation x) := by
  unfold deprecation
  split
  · exact writes_pure (.inl rfl)
  · exact (writes_addLines _).mono fun _ _ h => .inr ⟨_, h⟩

/-- The code of a declaration. -/
theorem gives_declaration :
    Gives (fun code => (s.declarations.text x).result = .ok code) (s.declaration x) :=
  Writes.after (gives_lift _) fun _ hr => Writes.after (gives_addLinks _) fun _ _ =>
    writes_pure ⟨rfl, Declaration.text_of_render hr⟩

theorem writes_declarationBlock :
    Writes (fun _ lines => ∃ code, (s.declarations.text x).result = .ok code ∧
      lines = [Markdown.codeBlock "rust" code, ""]) (s.declarationBlock x) :=
  Writes.after (s.gives_declaration x) fun code hcode =>
    (writes_addLines _).mono fun _ _ h => ⟨code, hcode, h⟩

theorem gives_docs :
    Gives (fun text => text = Docs.sanitize (Docs.relink x.links s.hrefOf x.docs).1)
      (s.docs x) := by
  refine Writes.after (gives_lift _) fun r hr => Writes.after (gives_addLinks _) fun _ _ =>
    writes_pure ⟨rfl, ?_⟩
  cases hr
  rfl

theorem writes_docsBlock : Writes (fun _ lines => IsParagraph lines) (s.docsBlock x) := by
  refine Writes.after (s.gives_docs x) fun text _ => ?_
  split
  · exact writes_pure (.inl rfl)
  · exact (writes_addLines _).mono fun _ _ h => .inr ⟨_, h⟩

theorem gives_summary : Gives (fun _ => True) (s.summary x) := by
  refine Writes.after (gives_lift _) fun r _ => ?_
  dsimp only
  split
  · exact writes_pure ⟨rfl, trivial⟩
  · exact Writes.after (gives_addLinks _) fun _ _ => writes_pure ⟨rfl, trivial⟩

/-- How sections open: with a heading, the declaration and the docs of an item. -/
def Opens (level : Int) (title code : String) (lines : List String) : Prop :=
  (s.declarations.text x).result = .ok code ∧ ∃ tag note docs, IsParagraph tag ∧
    IsParagraph note ∧ IsParagraph docs ∧ lines = tag ++ headingLines level title ++ note ++
      [Markdown.codeBlock "rust" code, ""] ++ docs

variable {s x} in
theorem exists_opens {level : Int} {title : String} {head note block docs : List String}
    (hhead : ∃ tag, IsParagraph tag ∧ head = tag ++ headingLines level title)
    (hnote : IsParagraph note)
    (hblock : ∃ code, (s.declarations.text x).result = .ok code ∧
      block = [Markdown.codeBlock "rust" code, ""]) (hdocs : IsParagraph docs) :
    ∃ code, s.Opens x level title code (head ++ (note ++ (block ++ docs))) := by
  obtain ⟨tag, htag, rfl⟩ := hhead
  obtain ⟨code, hcode, rfl⟩ := hblock
  exact ⟨code, hcode, tag, note, docs, htag, hnote, hdocs, by simp only [List.append_assoc]⟩

theorem writes_memberSection (owner scope : Option String) (level : Int) :
    Writes (fun _ lines => ∃ code, s.Opens x level (Markdown.code x.displayName) code lines)
      (s.memberSection owner level scope x) :=
  Writes.after (gives_lift _) fun _ _ => (writes_heading _ _ _).bind fun _ _ hhead =>
    (writes_deprecation x).bind fun _ _ hnote => (s.writes_declarationBlock x).bind
      fun _ _ hblock => (s.writes_docsBlock x).mono fun _ _ hdocs =>
        exists_opens hhead hnote hblock hdocs

end

/-! ## Tables and groups of sections -/

/-- A field that has a row in the table of its struct, with its type. -/
def tableField? (id : Option Id) : Option (Item × Value) :=
  match s.source.find? id with
  | some y =>
    match y.payload with
    | .structField t =>
      if s.source.showsMember s.options.includePrivate y.id then some (y, t) else none
    | _ => none
  | none => none

variable {s} in
theorem tableField?_eq_some {f : Option Id} {z : Item × Value} : s.tableField? f = some z ↔
    s.source.find? f = some z.1 ∧
      s.source.showsMember s.options.includePrivate z.1.id = true ∧
      z.1.payload = .structField z.2 := by
  unfold tableField?
  constructor
  · intro h
    split at h
    · next y hfind =>
      split at h
      · next t ht =>
        split at h
        · next hshown =>
          cases h
          exact ⟨hfind, hshown, ht⟩
        · cases h
      · cases h
    · cases h
  · rintro ⟨hfind, hshown, ht⟩
    simp [hfind, hshown, ht]

/-- How a table tells of a field. -/
def FieldRow (f : Item × Value) (row : List String) : Prop :=
  ∃ tag segments summary, IsTags tag ∧ (s.types.type f.2).result = .ok segments ∧
    row = [tag ++ Markdown.code f.1.displayName, Segment.writeAll .markdown segments, summary]

/-- How a table tells of a variant. -/
def VariantRow (v : Item × VariantBody) (row : List String) : Prop :=
  ∃ tag code summary, IsTags tag ∧ (s.declarations.variantText v.1 v.2).result = .ok code ∧
    row = [tag ++ Markdown.code code, summary]

/-- The sections of items under a heading; nothing if there are no items. -/
def GroupLines (level : Int) (title : String) (xs : List Item) (lines : List String) : Prop :=
  ∃ sections, List.Forall₂ (fun x part =>
      ∃ code, s.Opens x (level + 1) (Markdown.code x.displayName) code part) xs sections ∧
    lines = (if xs.isEmpty then [] else headingLines level title) ++ sections.flatten

theorem gives_fieldRow (owner : Option String) (id : Option Id) :
    Gives (fun r => Option.Rel s.FieldRow (s.tableField? id) (r.map (·.1)))
      (s.fieldRow owner id) := by
  unfold fieldRow tableField?
  cases s.source.find? id with
  | none => exact writes_pure ⟨rfl, .none⟩
  | some y =>
    dsimp only
    cases y.payload
    case structField t =>
      dsimp only
      split
      · refine Writes.after (gives_lift _) fun _ _ => Writes.after (gives_defineAnchor _)
          fun tag htag => Writes.after (gives_lift _) fun r hr =>
            Writes.after (s.gives_summary y) fun summary _ => writes_pure ⟨rfl, .some ?_⟩
        obtain ⟨segments, hsegments, rfl⟩ := Noting.withLinks_eq_ok.1 hr
        exact ⟨tag, segments, summary, htag, hsegments, rfl⟩
      · exact writes_pure ⟨rfl, .none⟩
    all_goals exact writes_pure ⟨rfl, .none⟩

theorem writes_fields (owner : Option String) (level : Int) (b : StructBody) :
    Writes (fun _ lines => ∃ rows,
      List.Forall₂ s.FieldRow (b.fields.filterMap s.tableField?) rows ∧
        lines = Page.tableLines level "Fields" ["Name", "Type", "Description"] rows)
      (s.fields owner level b) := by
  refine Writes.after (gives_mapM (s.gives_fieldRow owner) b.fields) fun results hresults => ?_
  have hrows : List.Forall₂ s.FieldRow (b.fields.filterMap s.tableField?)
      ((results.filterMap id).map (·.1)) := by
    have hfilter : (results.filterMap id).map (·.1) = results.filterMap (Option.map (·.1)) := by
      rw [List.map_filterMap]
      rfl
    rw [hfilter]
    exact List.rel_filterMap (fun _ _ h => h) hresults
  generalize results.filterMap id = rows at hrows ⊢
  cases rows with
  | nil => exact writes_pure ⟨_, hrows, rfl⟩
  | cons row rows =>
    refine (writes_heading_none _ _).bind fun _ _ hhead => (writes_addLines _).bind
      fun _ _ htable => writes_pure ⟨_, hrows, ?_⟩
    rw [hhead, htable, List.append_nil]
    rfl

theorem gives_variantFieldTag (a : String) (id : Option Id) :
    Gives IsTags (s.variantFieldTag a id) := by
  have hnone : Gives IsTags (pure "" : OnPage String) := writes_pure ⟨rfl, [], rfl⟩
  unfold variantFieldTag
  split
  · exact hnone
  · split
    · exact hnone
    · exact Writes.after (gives_lift _) fun _ _ => gives_defineAnchor _

/-- The row of a variant has the code that the declaration has a line for. -/
theorem gives_variantRow (owner : Option String) (id : Id) :
    Gives (fun r => Option.Rel s.VariantRow (s.declarations.variant? id) r)
      (s.variantRow owner id) := by
  have hsource : s.declarations.source = s.source := rfl
  unfold variantRow Declaration.variant?
  rw [hsource]
  cases s.source.items.get? id with
  | none => exact writes_pure ⟨rfl, .none⟩
  | some x =>
    dsimp only
    cases hpayload : x.payload
    case variant b =>
      have hrest (tag : String) (tags : List String) (htag : IsTags tag)
          (htags : ∀ t ∈ tags, IsTags t) :
          Gives (fun r => Option.Rel s.VariantRow (some (x, b)) r) (do
            let code ← s.declaration x
            let summary ← s.summary x
            return some [tag ++ String.join tags ++ Markdown.code code, summary]) := by
        refine Writes.after (s.gives_declaration x) fun code hcode =>
          Writes.after (s.gives_summary x) fun summary _ => writes_pure ⟨rfl, .some ?_⟩
        rw [Declaration.text, hpayload] at hcode
        exact ⟨_, code, summary, htag.append (.join htags), hcode, rfl⟩
      refine Writes.after (gives_lift _) fun _ _ => Writes.after (gives_defineAnchor _)
        fun tag htag => ?_
      dsimp only
      split
      · refine Writes.after (gives_mapM (fun f => s.gives_variantFieldTag _ f) _)
          fun tags htags => hrest tag tags htag ?_
        exact ((List.forall₂_and_left tags _).1 (htags.flip.imp fun _ _ h => ⟨h, trivial⟩)).1
      · exact hrest tag [] htag (List.forall_mem_nil _)
    all_goals exact writes_pure ⟨rfl, .none⟩

theorem writes_variants (owner : Option String) (level : Int) (b : EnumBody) :
    Writes (fun _ lines => ∃ rows,
      List.Forall₂ s.VariantRow (s.declarations.variants b) rows ∧
        lines = Page.tableLines level "Variants" ["Variant", "Description"] rows)
      (s.variants owner level b) := by
  refine Writes.after (gives_mapM (s.gives_variantRow owner) b.variants) fun results hresults => ?_
  have hrows : List.Forall₂ s.VariantRow (s.declarations.variants b) (results.filterMap id) :=
    List.rel_filterMap (fun _ _ h => h) hresults
  generalize results.filterMap id = rows at hrows ⊢
  cases rows with
  | nil => exact writes_pure ⟨_, hrows, rfl⟩
  | cons row rows =>
    refine (writes_heading_none _ _).bind fun _ _ hhead => (writes_addLines _).mono
      fun _ _ htable => ⟨_, hrows, ?_⟩
    rw [hhead, htable]
    rfl

theorem writes_memberGroup (owner : Option String) (level : Int) (title : String)
    (xs : List Item) : Writes (fun _ lines => s.GroupLines level title xs lines)
      (s.memberGroup owner level title xs) := by
  unfold memberGroup
  split
  · next hsome =>
    have hne : xs.isEmpty = false := by simpa using hsome
    refine (writes_heading_none _ _).bind fun _ _ hhead =>
      (writes_forM (fun x => s.writes_memberSection x owner none (level + 1)) xs).mono ?_
    rintro _ lines ⟨sections, hsections, rfl⟩
    exact ⟨sections, hsections, by rw [hne, if_neg Bool.false_ne_true, hhead]⟩
  · next hnone =>
    have hnil : xs = [] := by simpa using hnone
    subst hnil
    exact writes_pure ⟨[], .nil, rfl⟩

theorem writes_traitItems (owner : Option String) (level : Int) (b : TraitBody) :
    Writes (fun _ lines => ∃ groups, List.Forall₂ (fun title part =>
        s.GroupLines level title (s.traitGroup b title) part) traitHeadings groups ∧
      lines = groups.flatten) (s.traitItems owner level b) :=
  writes_forM (fun title => s.writes_memberGroup owner level title (s.traitGroup b title)) _

theorem writes_implementors (level : Int) (b : TraitBody) :
    Writes (fun _ lines => lines = [] ∨ ∃ names : List String,
      lines = headingLines level "Implementors" ++ (names.map ("- " ++ ·) ++ [""]))
      (s.implementors level b) := by
  refine Writes.after (gives_mapM (R := fun _ _ => True)
    (fun id => (gives_lift (s.implementor id)).mono fun _ _ h => ⟨h.1, trivial⟩) _)
    fun found _ => ?_
  dsimp only
  split
  · refine (writes_heading_none _ _).bind fun _ _ hhead => (writes_addLines _).bind
      fun _ _ hlines => writes_pure (.inr ?_)
    rw [hhead, hlines, List.append_nil]
    exact ⟨_, rfl⟩
  · exact writes_pure (.inl rfl)

theorem gives_linkTo (i : Option Id) (name : String) :
    Gives (fun _ => True) (s.linkTo i name) :=
  Writes.after (gives_lift _) fun _ _ => Writes.after (gives_addLinks _) fun _ _ =>
    writes_pure ⟨rfl, trivial⟩

theorem writes_traitImplSection (owner : Option String) (level : Int) (t : TraitImpl) :
    Writes (fun _ _ => True) (s.traitImplSection owner level t) := by
  unfold traitImplSection
  split
  · exact writes_pure trivial
  · next y _ =>
    refine (writes_heading_none _ _).bind fun _ _ _ => (s.writes_declarationBlock y).bind
      fun _ _ _ => (s.writes_docsBlock y).bind fun _ _ _ => ?_
    refine (writes_forM (fun z => s.writes_memberSection z owner _ _) _).bind fun _ _ _ => ?_
    split
    · exact (writes_addLines _).mono fun _ _ _ => trivial
    · exact writes_pure trivial

theorem writes_implementations (owner : Option String) (level : Int) (x : Item) :
    Writes (fun _ _ => True) (s.implementations owner level x) := by
  have hmarker (t : TraitImpl) : Gives (fun _ => True) (s.marker t) :=
    Writes.after (s.gives_linkTo _ _) fun _ _ => writes_pure ⟨rfl, trivial⟩
  have hsections (ts : List TraitImpl) :
      Writes (fun _ _ => True) (ts.forM (s.traitImplSection owner level)) :=
    (writes_forM (R := fun _ _ => True) (s.writes_traitImplSection owner level) ts).mono
      fun _ _ _ => trivial
  refine Writes.after (gives_lift _) fun _ _ =>
    (s.writes_memberGroup owner level "Methods" _).bind fun _ _ _ => ?_
  dsimp only
  split
  · refine (writes_heading_none _ _).bind fun _ _ _ =>
      (gives_mapM (R := fun _ _ => True) hmarker _).bind fun markers _ _ => ?_
    split
    · exact (writes_addLines _).bind fun _ _ _ => (hsections _).mono fun _ _ _ => trivial
    · exact hsections _
  · exact writes_pure trivial

theorem wrote_sectionParts (anchor : Option String) (level : Int) (x : Item) :
    Writes (Wrote (s.sectionParts anchor level x)) (s.sectionParts anchor level x) := by
  refine Writes.wrote (P := fun _ _ => True) ?_
  unfold sectionParts
  cases x.payload
  case struct b => exact (s.writes_fields anchor level b).mono fun _ _ _ => trivial
  case enum b =>
    exact (s.writes_variants anchor level b).bind fun _ _ _ => writes_pure trivial
  case trait b =>
    exact (s.writes_traitItems anchor level b).bind fun _ _ _ =>
      (s.writes_implementors level b).mono fun _ _ _ => trivial
  all_goals exact writes_pure trivial

/-- The section of an item adds its lines behind those of the page. -/
theorem wrote_itemSection (level : Int) (anchor : Option String) (x : Item) :
    Writes (Wrote (s.itemSection level anchor x)) (s.itemSection level anchor x) := by
  refine Writes.wrote (P := fun _ _ => True) ?_
  refine Writes.after (gives_lift _) fun _ _ => (writes_heading _ _ _).bind fun _ _ _ =>
    (writes_deprecation x).bind fun _ _ _ => (s.writes_declarationBlock x).bind fun _ _ _ =>
      (s.writes_docsBlock x).bind fun _ _ _ => (s.wrote_sectionParts anchor _ x).bind
        fun links _ _ => ?_
  split
  · exact (s.writes_implementations anchor _ x).bind fun _ _ _ =>
      (gives_addLinks links).mono fun _ _ _ => trivial
  · exact (gives_addLinks links).mono fun _ _ _ => trivial

end Site

end CrateBook
