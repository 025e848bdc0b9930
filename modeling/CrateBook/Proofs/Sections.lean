import CrateBook.Page.Document
import CrateBook.Proofs.UnmarkedSteps

/-!
# The marks of sections

What the section of an item leaves: first the mark of the section, then those of the members
that it shows, in the order in which they are written. A site is writable if nothing stops
its pages: the export's declarations can be written, and its root module is known.
-/
namespace CrateBook

open Noting (Leaves)

open OnPage (Marks marks_pure marks_modify marks_lift marks_mapM marks_forM unmarked_mapM)

namespace Site

variable (s : Site)

/-- Every page of the site can be written. -/
structure Writable : Prop where
  declares : ∀ id x, s.source.items.get? id = some x →
    ∃ code, (s.declarations.render x).result = .ok code
  root : ∃ x, s.source.items.get? s.source.package.rootId = some x

def memberMark (owner scope : Option String) (x : Item) : Note :=
  .member x.id (memberAnchor owner x x.displayName scope)

/-- The marks of a field: none for one that is not shown. -/
def fieldMarks (owner : Option String) (id : Option Id) : List Note :=
  match s.source.find? id with
  | none => []
  | some x =>
    match x.payload with
    | .structField _ =>
      if s.source.showsMember s.options.includePrivate x.id then [memberMark owner none x] else []
    | _ => []

/-- The marks of a variant's field: none for one without a name. -/
def variantFieldMarks (variantAnchor : String) (id : Option Id) : List Note :=
  match s.source.find? id with
  | none => []
  | some x =>
    match x.name with
    | none => []
    | some name => [.member x.id (memberAnchor (some variantAnchor) x name none)]

def variantMarks (owner : Option String) (id : Id) : List Note :=
  match s.source.items.get? id with
  | none => []
  | some x =>
    match x.payload with
    | .variant b =>
      memberMark owner none x ::
        (if b.shape == "struct" then
          b.fields.flatMap (s.variantFieldMarks (memberAnchor owner x x.displayName none))
        else [])
    | _ => []

/-- The marks of a trait's items. -/
def traitMarks (owner : Option String) (b : TraitBody) : List Note :=
  traitHeadings.flatMap fun title => (s.traitGroup b title).map (memberMark owner none)

/-- The marks of the members of a trait's implementation. -/
def traitImplMarks (owner : Option String) (t : TraitImpl) : List Note :=
  match s.source.items.get? t.implId with
  | none => []
  | some _ => (t.members.filterMap s.source.items.get?).map
      (memberMark owner (some (Layout.implScope t.name)))

/-- The marks of the members of a type's implementation blocks. -/
def implMarks (owner : Option String) (x : Item) : List Note :=
  let group := s.implsOf x.id
  let shown := group.inherentMembers.filter (s.source.showsMember s.options.includePrivate)
  (shown.filterMap s.source.items.get?).map (memberMark owner none) ++
    (group.traitImpls.filter fun t => !t.isMarker).flatMap (s.traitImplMarks owner)

/-- The marks of what belongs to an item of its kind. -/
def partMarks (anchor : Option String) (x : Item) : List Note :=
  match x.payload with
  | .struct b => b.fields.flatMap (s.fieldMarks anchor)
  | .enum b => b.variants.flatMap (s.variantMarks anchor)
  | .trait b => s.traitMarks anchor b
  | _ => []

def memberMarks (anchor : Option String) (x : Item) : List Note :=
  s.partMarks anchor x ++ if implKinds.contains x.kind then s.implMarks anchor x else []

section

variable {s}

/-- On a site where declarations can be written, that of every known item is. -/
theorem Writable.text (h : s.Writable) {id : Id} {x : Item}
    (hx : s.source.items.get? id = some x) :
    ∃ code, (s.declarations.text x).result = .ok code := by
  obtain ⟨r, hr⟩ := h.declares id x hx
  exact ⟨r.code, Declaration.text_of_render hr⟩

/-- The type of a field can be written if its declaration can. -/
theorem Writable.fieldType (h : s.Writable) {id : Id} {x : Item}
    (hx : s.source.items.get? id = some x) {t : Value} (ht : x.payload = .structField t) :
    ∃ segments, (s.types.type t).result = .ok segments := by
  obtain ⟨code, hcode⟩ := h.text hx
  rw [Declaration.text, ht] at hcode
  obtain ⟨type, htype, -⟩ := Noting.bind_eq_ok.1 hcode
  rw [ht] at htype
  obtain ⟨segments, hsegments, -⟩ := Noting.bind_eq_ok.1 htype
  exact ⟨segments, hsegments⟩

/-- So can the type that a block is for. -/
theorem Writable.implType (h : s.Writable) {id : Id} {b : ImplBody}
    (hb : s.source.items.payload? id = some (.impl b)) :
    ∃ segments, (s.types.type b.forType).result = .ok segments := by
  obtain ⟨x, hx, hpay⟩ := Option.map_eq_some_iff.1 hb
  obtain ⟨code, hcode⟩ := h.text hx
  have htext : ((s.declarations.implText b)).result = .ok code := by
    rw [Declaration.text, hpay] at hcode
    exact hcode
  unfold Declaration.implText at htext
  obtain ⟨params, -, htext⟩ := Noting.bind_eq_ok.1 htext
  -- the type stands behind the trait, whether there is one or not
  have htype : ∃ type, (s.declarations.type b.forType).result = .ok type := by
    dsimp only at htext
    cases htrait : b.traitRef with
    | none =>
      rw [htrait] at htext
      obtain ⟨part, -, htext⟩ := Noting.bind_eq_ok.1 htext
      obtain ⟨type, htype, -⟩ := Noting.bind_eq_ok.1 htext
      exact ⟨type, htype⟩
    | some ms =>
      rw [htrait] at htext
      obtain ⟨path, -, htext⟩ := Noting.bind_eq_ok.1 htext
      obtain ⟨part, -, htext⟩ := Noting.bind_eq_ok.1 htext
      obtain ⟨type, htype, -⟩ := Noting.bind_eq_ok.1 htext
      exact ⟨type, htype⟩
  obtain ⟨type, htype⟩ := htype
  obtain ⟨segments, hsegments, -⟩ := Noting.bind_eq_ok.1 htype
  exact ⟨segments, hsegments⟩

end

section

variable {fine : Prop}

theorem marks_addLines (lines : List String) : Marks fine [] (addLines lines) :=
  marks_modify _

theorem marks_addLinks (links : List Link) : Marks fine [] (addLinks links) := marks_modify _

theorem marks_heading (level : Int) (text : String) (anchor : Option String) :
    Marks fine [] (heading level text anchor) := marks_modify _

theorem marks_defineAnchor (anchor : String) : Marks fine [] (defineAnchor anchor) :=
  fun _ => Noting.leaves_pure _

theorem marks_deprecation (x : Item) : Marks fine [] (deprecation x) := by
  unfold deprecation
  split
  · exact marks_pure _
  · exact marks_addLines _

theorem leaves_linkedDocs (x : Item) : Leaves fine [] (s.linkedDocs x) := by
  have hnotes : Noting.Quiet (Noting.noteAll (Docs.relink x.links s.hrefOf x.docs).2) :=
    Docs.unmarked_relink _ _ _
  exact (hnotes.leaves fun _ => ⟨(), rfl⟩).after fun _ _ => Noting.leaves_pure _

theorem marks_docs (x : Item) : Marks fine [] (s.docs x) :=
  (marks_lift (s.leaves_linkedDocs x)).after fun _ =>
    (marks_addLinks _).after fun _ => marks_pure _

theorem marks_docsBlock (x : Item) : Marks fine [] (s.docsBlock x) := by
  refine (s.marks_docs x).after fun text => ?_
  split
  · exact marks_pure _
  · exact marks_addLines _

theorem marks_summary (x : Item) : Marks fine [] (s.summary x) := by
  refine (marks_lift (s.leaves_linkedDocs x)).after fun r => ?_
  dsimp only
  split
  · exact marks_pure _
  · exact (marks_addLinks _).after fun _ => marks_pure _

theorem leaves_ask (id : Option Id) (title : String) : Leaves fine [] (s.ask id title) := by
  unfold ask
  split
  · exact Noting.leaves_pure _
  · exact (Noting.leaves_note rfl).after fun _ _ => Noting.leaves_pure _

theorem marks_linkTo (id : Option Id) (name : String) : Marks fine [] (s.linkTo id name) :=
  (marks_lift (s.leaves_ask id name)).after fun _ =>
    (marks_addLinks _).after fun _ => marks_pure _

end

section

variable {s} {id : Id} {x : Item} (hx : s.source.items.get? id = some x)

include hx

theorem leaves_render : Leaves s.Writable [] (s.declarations.render x) :=
  (s.declarations.quiet_render x).leaves fun h => h.declares id x hx

theorem marks_declaration : Marks s.Writable [] (s.declaration x) :=
  (marks_lift (leaves_render hx)).after fun _ =>
    (marks_addLinks _).after fun _ => marks_pure _

theorem marks_declarationBlock : Marks s.Writable [] (s.declarationBlock x) :=
  (marks_declaration hx).after fun _ => marks_addLines _

/-- The section of a member leaves the member's mark. -/
theorem marks_memberSection (owner scope : Option String) (level : Int) :
    Marks s.Writable [memberMark owner scope x] (s.memberSection owner level scope x) :=
  (marks_lift (Noting.leaves_mark rfl)).andThen fun _ =>
    (marks_heading _ _ _).after fun _ => (marks_deprecation x).after fun _ =>
      (marks_declarationBlock hx).after fun _ => s.marks_docsBlock x

end

theorem get?_of_find? {id : Option Id} {x : Item} (h : s.source.find? id = some x) :
    ∃ i, s.source.items.get? i = some x := by
  obtain ⟨i, -, hi⟩ := Option.bind_eq_some_iff.1 h
  exact ⟨i, hi⟩

theorem marks_fieldRow (owner : Option String) (id : Option Id) :
    Marks s.Writable (s.fieldMarks owner id) (s.fieldRow owner id) := by
  unfold fieldRow fieldMarks
  cases hfind : s.source.find? id with
  | none => exact marks_pure _
  | some x =>
    obtain ⟨i, hi⟩ := s.get?_of_find? hfind
    dsimp only
    cases hpay : x.payload
    case structField t =>
      have htype : Leaves s.Writable [] (s.types.type t).withLinks :=
        ((TypeText.quiet_type t).leaves fun h => h.fieldType hi hpay).withLinks
      dsimp only
      split
      · exact (marks_lift (Noting.leaves_mark rfl)).andThen fun _ =>
          (marks_defineAnchor _).after fun _ => (marks_lift htype).after fun _ =>
            (s.marks_summary x).after fun _ => marks_pure _
      · exact marks_pure _
    all_goals exact marks_pure _

theorem marks_fields (owner : Option String) (level : Int) (b : StructBody) :
    Marks s.Writable (b.fields.flatMap (s.fieldMarks owner)) (s.fields owner level b) := by
  refine (marks_mapM fun id _ => s.marks_fieldRow owner id).andThen fun rows => ?_
  dsimp only
  split
  · exact (marks_heading _ _ _).after fun _ => (marks_addLines _).after fun _ => marks_pure _
  · exact marks_pure _

theorem marks_variantFieldTag (variantAnchor : String) (id : Option Id) :
    Marks s.Writable (s.variantFieldMarks variantAnchor id)
      (s.variantFieldTag variantAnchor id) := by
  unfold variantFieldTag variantFieldMarks
  cases s.source.find? id with
  | none => exact marks_pure _
  | some x =>
    dsimp only
    cases x.name with
    | none => exact marks_pure _
    | some name =>
      exact (marks_lift (Noting.leaves_mark rfl)).andThen fun _ => marks_defineAnchor _

theorem marks_variantRow (owner : Option String) (id : Id) :
    Marks s.Writable (s.variantMarks owner id) (s.variantRow owner id) := by
  unfold variantRow variantMarks
  cases hget : s.source.items.get? id with
  | none => exact marks_pure _
  | some x =>
    dsimp only
    cases x.payload
    case variant b =>
      have hrest (tag : String) (tags : List String) : Marks s.Writable [] (do
          let code ← s.declaration x
          let summary ← s.summary x
          return some [tag ++ String.join tags ++ Markdown.code code, summary]) :=
        (marks_declaration hget).after fun _ => (s.marks_summary x).after fun _ => marks_pure _
      by_cases hshape : (b.shape == "struct") = true
      · simp only [hshape, if_true]
        exact (marks_lift (Noting.leaves_mark rfl)).bind fun _ _ =>
          (marks_defineAnchor _).after fun tag =>
            (marks_mapM fun f _ => s.marks_variantFieldTag _ f).andThen fun tags =>
              hrest tag tags
      · simp only [hshape]
        exact (marks_lift (Noting.leaves_mark rfl)).bind fun _ _ =>
          (marks_defineAnchor _).after fun tag => (marks_pure _).after fun tags =>
            hrest tag tags
    all_goals exact marks_pure _

theorem marks_variants (owner : Option String) (level : Int) (b : EnumBody) :
    Marks s.Writable (b.variants.flatMap (s.variantMarks owner)) (s.variants owner level b) := by
  refine (marks_mapM fun id _ => s.marks_variantRow owner id).andThen fun rows => ?_
  dsimp only
  split
  · exact (marks_heading _ _ _).after fun _ => marks_addLines _
  · exact marks_pure _

/-- Sections of known members leave the marks of these. -/
theorem marks_memberSections (owner scope : Option String) (level : Int) {xs : List Item}
    (h : ∀ x ∈ xs, ∃ id, s.source.items.get? id = some x) :
    Marks s.Writable (xs.map (memberMark owner scope))
      (xs.forM (s.memberSection owner level scope)) := by
  have hsection : ∀ x ∈ xs, Marks s.Writable [memberMark owner scope x]
      (s.memberSection owner level scope x) := by
    intro x hx
    obtain ⟨id, hid⟩ := h x hx
    exact marks_memberSection hid owner scope level
  have hforM := marks_forM hsection
  rwa [← List.map_eq_flatMap] at hforM

theorem marks_memberGroup (owner : Option String) (level : Int) (title : String)
    {xs : List Item} (h : ∀ x ∈ xs, ∃ id, s.source.items.get? id = some x) :
    Marks s.Writable (xs.map (memberMark owner none)) (s.memberGroup owner level title xs) := by
  unfold memberGroup
  split
  · exact (marks_heading _ _ _).after fun _ => s.marks_memberSections owner none _ h
  · next hempty =>
    have hnil : xs = [] := by simpa using hempty
    subst hnil
    exact marks_pure _

theorem exists_get?_of_filterMap {ids : List Id} :
    ∀ x ∈ ids.filterMap s.source.items.get?, ∃ id, s.source.items.get? id = some x := by
  intro x hx
  obtain ⟨id, -, hid⟩ := List.mem_filterMap.1 hx
  exact ⟨id, hid⟩

theorem marks_traitItems (owner : Option String) (level : Int) (b : TraitBody) :
    Marks s.Writable (s.traitMarks owner b) (s.traitItems owner level b) :=
  marks_forM fun title _ => s.marks_memberGroup owner level title fun x hx =>
    s.exists_get?_of_filterMap x (List.mem_filter.1 hx).1

theorem marks_implementors (level : Int) (b : TraitBody) :
    Marks s.Writable [] (s.implementors level b) := by
  have hone (id : Id) : Marks s.Writable [] (do s.implementor id : OnPage _) := by
    refine marks_lift ?_
    unfold implementor
    split
    · next b hb =>
      split
      · exact Noting.leaves_pure _
      · have htype : Leaves s.Writable [] (s.types.type b.forType).withLinks :=
          ((TypeText.quiet_type _).leaves fun h => h.implType hb).withLinks
        exact htype.after fun _ _ => Noting.leaves_pure _
    · exact Noting.leaves_pure _
  refine (unmarked_mapM fun id _ => hone id).after fun found => ?_
  dsimp only
  split
  · exact (marks_heading _ _ _).after fun _ => (marks_addLines _).after fun _ => marks_pure _
  · exact marks_pure _

theorem marks_sectionParts (anchor : Option String) (level : Int) (x : Item) :
    Marks s.Writable (s.partMarks anchor x) (s.sectionParts anchor level x) := by
  unfold sectionParts partMarks
  cases x.payload
  case struct b => exact s.marks_fields anchor level b
  case enum b => exact (s.marks_variants anchor level b).andThen fun _ => marks_pure _
  case trait b =>
    exact (s.marks_traitItems anchor level b).andThen fun _ => s.marks_implementors level b
  all_goals exact marks_pure _

theorem marks_traitImplSection (owner : Option String) (level : Int) (t : TraitImpl) :
    Marks s.Writable (s.traitImplMarks owner t) (s.traitImplSection owner level t) := by
  unfold traitImplSection traitImplMarks
  cases hget : s.source.items.get? t.implId with
  | none => exact marks_pure _
  | some x =>
    refine (marks_heading _ _ _).after fun _ => (marks_declarationBlock hget).after fun _ =>
      (s.marks_docsBlock x).after fun _ => ?_
    refine (s.marks_memberSections owner _ _ s.exists_get?_of_filterMap).andThen fun _ => ?_
    split
    · exact marks_addLines _
    · exact marks_pure _

theorem marks_implementations (owner : Option String) (level : Int) (x : Item) :
    Marks s.Writable (s.implMarks owner x) (s.implementations owner level x) := by
  have hmarker (t : TraitImpl) : Marks s.Writable [] (s.marker t) :=
    (s.marks_linkTo _ _).after fun _ => marks_pure _
  have hsections : Marks s.Writable
      (((s.implsOf x.id).traitImpls.filter fun t => !t.isMarker).flatMap (s.traitImplMarks owner))
      (((s.implsOf x.id).traitImpls.filter fun t => !t.isMarker).forM
        (s.traitImplSection owner level)) :=
    marks_forM fun t _ => s.marks_traitImplSection owner level t
  refine (marks_lift ((Noting.quiet_note rfl).leaves fun _ => ⟨(), rfl⟩)).after fun _ =>
    (s.marks_memberGroup owner level "Methods" s.exists_get?_of_filterMap).bind fun _ _ => ?_
  dsimp only
  split
  · refine (marks_heading _ _ _).after fun _ => (unmarked_mapM fun t _ => hmarker t).after
      fun markers => ?_
    split
    · exact (marks_addLines _).after fun _ => hsections
    · exact hsections
  · next hempty =>
    have hnil : (s.implsOf x.id).traitImpls = [] := by simpa using hempty
    rw [hnil]
    exact marks_pure _

/-- The section of an item leaves its own mark and then those of its members. -/
theorem marks_itemSection {id : Id} {x : Item} (hx : s.source.items.get? id = some x)
    (level : Int) (anchor : Option String) :
    Marks s.Writable (.section_ x.id anchor :: s.memberMarks anchor x)
      (s.itemSection level anchor x) := by
  refine (marks_lift (Noting.leaves_mark rfl)).bind fun _ _ =>
    (marks_heading _ _ _).after fun _ => (marks_deprecation x).after fun _ =>
      (marks_declarationBlock hx).after fun _ => (s.marks_docsBlock x).after fun _ =>
        (s.marks_sectionParts anchor _ x).bind fun links _ => ?_
  split
  · exact (s.marks_implementations anchor _ x).andThen fun _ => marks_addLinks _
  · exact marks_addLinks _

end Site

end CrateBook
