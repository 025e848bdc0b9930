import CrateBook.Proofs.IndexOrder
import CrateBook.Proofs.Outputs
import CrateBook.Proofs.Pages

/-!
# Members in declarations, tables and sections

A declaration tells of the members of a struct, an enum or a trait, and so do the tables and the
sections below it. Each side goes through the lists of the item by itself: the declaration leaves
out fields that are not included, and the table those that are not shown, which may be shown for
the sake of the item that lists them. For the fields of a struct this makes no difference, as long
as no variant lists them too.
-/
namespace CrateBook

open OnPage (Writes writes_pure gives_lift gives_addLinks writes_heading)

open Page (headingLines)

/-- Parts that are written one by one and then wrapped. -/
theorem exists_map_of_forall₂ {α β γ : Type} {R : α → β → Prop} {g : β → γ} {as : List α}
    {cs : List γ} (h : List.Forall₂ (fun a c => ∃ b, R a b ∧ c = g b) as cs) :
    ∃ bs, List.Forall₂ R as bs ∧ cs = bs.map g := by
  induction h with
  | nil => exact ⟨[], .nil, rfl⟩
  | cons h _ ih =>
    obtain ⟨b, hb, rfl⟩ := h
    obtain ⟨bs, hbs, rfl⟩ := ih
    exact ⟨b :: bs, .cons hb hbs, rfl⟩

namespace Export

/-- The structs of an export list nothing but fields, of what the export knows. -/
def ListsFields (x : Export) : Prop := ∀ id y b, x.items.get? id = some y →
  y.payload = .struct b → ∀ m z, some m ∈ b.fields → x.items.get? m = some z →
    ∃ t, z.payload = .structField t

end Export

namespace Declaration

variable (d : Declaration)

/-- The members of a trait in the order of its declaration. -/
def orderedMembers (b : TraitBody) : List (Item × TraitMember) :=
  [0, 1, 2].flatMap fun r => (d.traitMembers b).filter (·.2.rank == r)

/-- The heading under which a member has its section. -/
def TraitMember.heading : TraitMember → String
  | type _ => "Associated Types"
  | const _ => "Associated Constants"
  | method b => if b.hasBody then "Provided Methods" else "Required Methods"

/-- A text with each of its lines indented. -/
def indented (text : String) : String := Text.joinLines ((Text.lines text).map (indent ++ ·))

section

variable {d} {x : Item} {code : String}

theorem tupleField?_eq_some {f : Option Id} {z : Item × Value} : d.tupleField? f = some z ↔
    d.source.find? f = some z.1 ∧ z.1.isIncluded d.includePrivate = true ∧
      z.1.payload = .structField z.2 := by
  unfold tupleField? visible?
  constructor
  · intro h
    split at h
    · next y hy =>
      obtain ⟨hfind, hincluded⟩ := Option.filter_eq_some_iff.1 hy
      split at h
      · next t ht =>
        cases h
        exact ⟨hfind, hincluded, ht⟩
      · cases h
    · cases h
  · rintro ⟨hfind, hincluded, ht⟩
    rw [hfind, Option.filter_some_pos hincluded]
    simp [ht]

/-- A line for each field, and perhaps one for the fields that are not shown. -/
theorem structText_plain {b : StructBody} (hshape : b.shape = "plain")
    (h : (d.structText x b).result = .ok code) : ∃ head clause lines hidden,
      List.Forall₂ (fun y line => (d.fieldLine y).result = .ok line) (d.namedFields b) lines ∧
      (hidden = [] ∨ hidden = [indent ++ privateFields]) ∧
      code = withBody head clause (lines ++ hidden) := by
  unfold structText at h
  obtain ⟨params, -, h⟩ := Noting.bind_eq_ok.1 h
  obtain ⟨clause, -, h⟩ := Noting.bind_eq_ok.1 h
  simp only [hshape] at h
  obtain ⟨lines, hlines, h⟩ := Noting.bind_eq_ok.1 h
  cases h
  refine ⟨_, clause, lines, _, (Noting.mapM_eq_ok hlines).1, ?_, rfl⟩
  split
  · exact .inl rfl
  · exact .inr rfl

/-- A type for each field, and perhaps a comment for the fields that are not shown. -/
theorem structText_tuple {b : StructBody} (hshape : b.shape = "tuple")
    (h : (d.structText x b).result = .ok code) : ∃ head clause types hidden,
      List.Forall₂ (fun f type => (d.tupleFieldText f).result = .ok type) (d.tupleFields b)
        types ∧
      (hidden = [] ∨ hidden = [privateFields]) ∧
      code = head ++ "(" ++ ", ".intercalate (types ++ hidden) ++ ")" ++ clause ++ ";" := by
  unfold structText at h
  obtain ⟨params, -, h⟩ := Noting.bind_eq_ok.1 h
  obtain ⟨clause, -, h⟩ := Noting.bind_eq_ok.1 h
  simp only [hshape] at h
  obtain ⟨types, htypes, h⟩ := Noting.bind_eq_ok.1 h
  cases h
  refine ⟨_, clause, types, _, (Noting.mapM_eq_ok htypes).1, ?_, rfl⟩
  split
  · exact .inl rfl
  · exact .inr rfl

/-- A line for each variant, and perhaps a comment. -/
theorem enumText_eq_ok {b : EnumBody} (h : (d.enumText x b).result = .ok code) :
    ∃ head clause texts omitted,
      List.Forall₂ (fun v text => (d.variantText v.1 v.2).result = .ok text) (d.variants b)
        texts ∧
      (omitted = [] ∨ omitted = [indent ++ "// some variants omitted"]) ∧
      code = withBody head clause (texts.map (fun text => indent ++ text ++ ",") ++ omitted) := by
  unfold enumText at h
  obtain ⟨params, -, h⟩ := Noting.bind_eq_ok.1 h
  obtain ⟨clause, -, h⟩ := Noting.bind_eq_ok.1 h
  obtain ⟨lines, hlines, h⟩ := Noting.bind_eq_ok.1 h
  cases h
  have hall := (Noting.mapM_eq_ok hlines).1.imp fun v line hline => by
    obtain ⟨text, htext, hline⟩ := Noting.bind_eq_ok.1 hline
    exact (⟨text, htext, (Except.ok.inj hline).symm⟩ :
      ∃ text, (d.variantText v.1 v.2).result = .ok text ∧ line = indent ++ text ++ ",")
  obtain ⟨texts, htexts, rfl⟩ := exists_map_of_forall₂ hall
  refine ⟨_, clause, texts, _, htexts, ?_, rfl⟩
  split
  · exact .inr rfl
  · exact .inl rfl

/-- Members and their texts, one rank after the other. -/
theorem forall₂_filter_rank {ms : List (Item × TraitMember)} {ranked : List (Nat × String)}
    (h : List.Forall₂ (fun m r => (d.rankedText m).result = .ok r) ms ranked) (rank : Nat) :
    List.Forall₂ (fun m text => (d.traitMemberText m).result = .ok text)
      (ms.filter (·.2.rank == rank)) ((ranked.filter (·.1 == rank)).map (·.2)) := by
  induction h with
  | nil => exact .nil
  | cons h _ ih =>
    obtain ⟨text, htext, hrank⟩ := Noting.bind_eq_ok.1 h
    cases hrank
    rw [List.filter_cons, List.filter_cons]
    split
    · exact .cons htext ih
    · exact ih

/-- The texts of the members, indented. -/
theorem traitText_eq_ok {b : TraitBody} (h : (d.traitText x b).result = .ok code) :
    ∃ head clause texts,
      List.Forall₂ (fun m text => (d.traitMemberText m).result = .ok text) (d.orderedMembers b)
        texts ∧
      code = withBody head clause (texts.map indented) := by
  unfold traitText at h
  obtain ⟨params, -, h⟩ := Noting.bind_eq_ok.1 h
  obtain ⟨bounded, -, h⟩ := Noting.bind_eq_ok.1 h
  obtain ⟨clause, -, h⟩ := Noting.bind_eq_ok.1 h
  obtain ⟨ranked, hranked, h⟩ := Noting.bind_eq_ok.1 h
  cases h
  have hrank := forall₂_filter_rank (Noting.mapM_eq_ok hranked).1
  refine ⟨_, clause, _, ?_, rfl⟩
  exact List.rel_append (hrank 0) (List.rel_append (hrank 1) (List.rel_append (hrank 2) .nil))

end

end Declaration

/-! ## The members on both sides -/

namespace Site

variable (s : Site)

/-- How a declaration prints a field with its name. -/
def PrintsField (f : Item × Value) (text : String) : Prop :=
  ∃ segments, (s.types.type f.2).result = .ok segments ∧ text =
    f.1.visibility.keyword ++ f.1.displayName ++ ": " ++ Segment.writeAll .plain segments

/-- How a declaration prints a field of a tuple. -/
def PrintsType (f : Item × Value) (text : String) : Prop :=
  ∃ segments, (s.types.type f.2).result = .ok segments ∧
    text = f.1.visibility.keyword ++ Segment.writeAll .plain segments

/-- Each field of a struct has a line in the declaration and a row in the table. -/
def TellsFields (level : Int) (b : StructBody) (code : String) (lines : List String) : Prop :=
  ∃ head clause texts hidden rows,
    List.Forall₂ s.PrintsField (s.declarations.tupleFields b) texts ∧
    (hidden = [] ∨ hidden = [Declaration.indent ++ Declaration.privateFields]) ∧
    code = Declaration.withBody head clause
      (texts.map (fun text => Declaration.indent ++ text ++ ",") ++ hidden) ∧
    List.Forall₂ s.FieldRow (s.declarations.tupleFields b) rows ∧
    lines = Page.tableLines level "Fields" ["Name", "Type", "Description"] rows

/-- Each field of a tuple has its type in the declaration and a row in the table. -/
def TellsTypes (level : Int) (b : StructBody) (code : String) (lines : List String) : Prop :=
  ∃ head clause types hidden rows,
    List.Forall₂ s.PrintsType (s.declarations.tupleFields b) types ∧
    (hidden = [] ∨ hidden = [Declaration.privateFields]) ∧
    code = head ++ "(" ++ ", ".intercalate (types ++ hidden) ++ ")" ++ clause ++ ";" ∧
    List.Forall₂ s.FieldRow (s.declarations.tupleFields b) rows ∧ types.length = rows.length ∧
    lines = Page.tableLines level "Fields" ["Name", "Type", "Description"] rows

/-- Each variant has a line in the declaration and a row in the table. -/
def TellsVariants (level : Int) (b : EnumBody) (code : String) (lines : List String) : Prop :=
  ∃ head clause texts omitted rows,
    List.Forall₂ (fun v text => (s.declarations.variantText v.1 v.2).result = .ok text)
      (s.declarations.variants b) texts ∧
    (omitted = [] ∨ omitted = [Declaration.indent ++ "// some variants omitted"]) ∧
    code = Declaration.withBody head clause
      (texts.map (fun text => Declaration.indent ++ text ++ ",") ++ omitted) ∧
    List.Forall₂ s.VariantRow (s.declarations.variants b) rows ∧
    lines = Page.tableLines level "Variants" ["Variant", "Description"] rows

/-- Each associated item has a text in the declaration and a section. Those that are printed with
a body stand among the provided methods. -/
def TellsItems (level : Int) (b : TraitBody) (code : String) (lines : List String) : Prop :=
  ∃ head clause texts groups rest,
    List.Forall₂ (fun m text => (s.declarations.traitMemberText m).result = .ok text ∧
      (Text.endsWith " \x7b ... \x7d" text = true ↔ m.1 ∈ s.traitGroup b "Provided Methods"))
      (s.declarations.orderedMembers b) texts ∧
    code = Declaration.withBody head clause (texts.map Declaration.indented) ∧
    ((s.declarations.orderedMembers b).map (·.1)).Perm
      (traitHeadings.flatMap (s.traitGroup b)) ∧
    List.Forall₂ (fun title part => s.GroupLines level title (s.traitGroup b title) part)
      traitHeadings groups ∧
    lines = groups.flatten ++ rest ∧
    (rest = [] ∨ ∃ names : List String,
      rest = headingLines level "Implementors" ++ (names.map ("- " ++ ·) ++ [""]))

/-- What the declaration of an item and the lines below it say of its members. -/
structure TellsMembers (level : Int) (x : Item) (code : String) (lines : List String) : Prop where
  fields : ∀ b, x.payload = .struct b → b.shape = "plain" → s.TellsFields level b code lines
  types : ∀ b, x.payload = .struct b → b.shape = "tuple" → s.TellsTypes level b code lines
  variants : ∀ b, x.payload = .enum b → s.TellsVariants level b code lines
  items : ∀ b, x.payload = .trait b → s.TellsItems level b code lines

section

variable {s} {x : Item} {id : Id} {text : String}

/-- A field that only its struct lists is shown if it is included. -/
theorem showsMember_field (hparse : Export.parse text = .ok s.source)
    (honce : s.source.ListedOnce) (hx : s.source.items.get? id = some x) {b : StructBody}
    (hb : x.payload = .struct b) {m : Id} (hm : some m ∈ b.fields) {y : Item}
    (hy : s.source.items.get? m = some y) {t : Value} (ht : y.payload = .structField t) :
    s.source.showsMember s.options.includePrivate y.id =
      y.isIncluded s.options.includePrivate := by
  obtain rfl := Items.id_of_get? hx
  obtain rfl := Items.id_of_get? hy
  have hindexed := Export.indexed_of_parse hparse
  have hcontainer : s.source.containers.get? y.id = some x.id :=
    ((hindexed.recorded_iff honce).2
      ⟨x, Items.mem_toList.2 hx, rfl, Export.lists_field hb hm⟩).2
  have hfield : y.kind = "struct_field" := Export.kind_of_parse hparse hy (by rw [ht]; rfl)
  have hstruct : x.kind = "struct" := Export.kind_of_parse hparse hx (by rw [hb]; rfl)
  -- fields follow variants, and what lists this one is a struct
  have hfollows : y.followsContainer (some x) = false := by
    simp [Item.followsContainer, hfield, hstruct]
  rw [Export.showsMember, hy, Export.container?, hcontainer, Export.find?, Option.bind_some, hx]
  simp [hfollows]

/-- Fields have rows if they are in the declaration. -/
theorem tableField?_eq (hparse : Export.parse text = .ok s.source)
    (honce : s.source.ListedOnce) (hx : s.source.items.get? id = some x) {b : StructBody}
    (hb : x.payload = .struct b) {f : Option Id} (hf : f ∈ b.fields) :
    s.tableField? f = s.declarations.tupleField? f := by
  refine Option.ext fun z => ?_
  rw [tableField?_eq_some, Declaration.tupleField?_eq_some]
  refine and_congr_right fun hfind => and_congr_left fun hfield => ?_
  obtain ⟨m, rfl, hm⟩ := Option.bind_eq_some_iff.1 hfind
  rw [showsMember_field hparse honce hx hb hf hm hfield]
  exact Iff.rfl

/-- The fields of a struct are all that its declaration shows. -/
theorem namedFields_eq (hlists : s.source.ListsFields) (hx : s.source.items.get? id = some x)
    {b : StructBody} (hb : x.payload = .struct b) :
    s.declarations.namedFields b = (s.declarations.tupleFields b).map (·.1) := by
  rw [Declaration.namedFields, Declaration.tupleFields, List.map_filterMap]
  refine List.filterMap_congr fun f hf => Option.ext fun y => ?_
  rw [Declaration.visible?, Option.filter_eq_some_iff, Option.map_eq_some_iff]
  constructor
  · rintro ⟨hfind, hincluded⟩
    obtain ⟨m, rfl, hm⟩ := Option.bind_eq_some_iff.1 hfind
    obtain ⟨t, ht⟩ := hlists id x b hx hb m y hf hm
    exact ⟨(y, t), Declaration.tupleField?_eq_some.2 ⟨hfind, hincluded, ht⟩, rfl⟩
  · rintro ⟨z, hz, rfl⟩
    obtain ⟨hfind, hincluded, -⟩ := Declaration.tupleField?_eq_some.1 hz
    exact ⟨hfind, hincluded⟩

theorem forall_tupleFields {b : StructBody} :
    ∀ z ∈ s.declarations.tupleFields b, z.1.payload = .structField z.2 := by
  intro z hz
  obtain ⟨f, -, hf⟩ := List.mem_filterMap.1 hz
  exact (Declaration.tupleField?_eq_some.1 hf).2.2

/-- The types of fields are printed plainly where the table has links in them. -/
theorem forall₂_printsField {ys : List (Item × Value)} {lines : List String}
    (hys : ∀ z ∈ ys, z.1.payload = .structField z.2)
    (h : List.Forall₂ (fun z line => (s.declarations.fieldLine z.1).result = .ok line) ys lines) :
    ∃ texts, List.Forall₂ s.PrintsField ys texts ∧
      lines = texts.map fun text => Declaration.indent ++ text ++ "," := by
  refine exists_map_of_forall₂ (((List.forall₂_and_left ys lines).2 ⟨hys, h⟩).imp ?_)
  rintro z line ⟨hfield, hline⟩
  obtain ⟨text, htext, hline⟩ := Noting.bind_eq_ok.1 hline
  cases hline
  obtain ⟨type, htype, htext⟩ := Noting.bind_eq_ok.1 htext
  cases htext
  rw [hfield] at htype
  obtain ⟨segments, hsegments, htype⟩ := Noting.bind_eq_ok.1 htype
  cases htype
  exact ⟨_, ⟨segments, hsegments, rfl⟩, rfl⟩

theorem forall₂_printsType {ys : List (Item × Value)} {types : List String}
    (h : List.Forall₂ (fun z type => (s.declarations.tupleFieldText z).result = .ok type) ys
      types) : List.Forall₂ s.PrintsType ys types := by
  refine h.imp fun z type htype => ?_
  obtain ⟨text, htext, htype⟩ := Noting.bind_eq_ok.1 htype
  cases htype
  obtain ⟨segments, hsegments, htext⟩ := Noting.bind_eq_ok.1 htext
  cases htext
  exact ⟨segments, hsegments, rfl⟩

/-! ### Traits -/

theorem traitHeading?_mem {y : Item} {title : String} (h : traitHeading? y = some title) :
    title ∈ traitHeadings := by
  unfold traitHeading? at h
  split at h
  · cases h
    simp [traitHeadings]
  · cases h
    simp [traitHeadings]
  · cases h
    split <;> simp [traitHeadings]
  · cases h

/-- The members that the declaration of a trait shows have headings. -/
theorem traitMember?_eq_some {id : Id} {m : Item × Declaration.TraitMember}
    (h : s.declarations.traitMember? id = some m) :
    s.source.items.get? id = some m.1 ∧ traitHeading? m.1 = some m.2.heading := by
  unfold Declaration.traitMember? at h
  split at h
  · next y hy =>
    split at h
    · next b hb =>
      cases h
      exact ⟨hy, by rw [traitHeading?, hb]; rfl⟩
    · next b hb =>
      cases h
      exact ⟨hy, by rw [traitHeading?, hb]; rfl⟩
    · next b hb =>
      cases h
      exact ⟨hy, by rw [traitHeading?, hb]; rfl⟩
    · cases h
  · cases h

theorem exists_traitMember? {id : Id} {y : Item} (hy : s.source.items.get? id = some y)
    (h : (traitHeading? y).isSome = true) :
    ∃ m, s.declarations.traitMember? id = some (y, m) := by
  have hget : s.declarations.source.items.get? id = some y := hy
  unfold traitHeading? at h
  split at h
  · next b hb => exact ⟨.type b, by simp only [Declaration.traitMember?, hget, hb]⟩
  · next b hb => exact ⟨.const b, by simp only [Declaration.traitMember?, hget, hb]⟩
  · next b hb => exact ⟨.method b, by simp only [Declaration.traitMember?, hget, hb]⟩
  · cases h

theorem map_traitMembers (b : TraitBody) : (s.declarations.traitMembers b).map (·.1) =
    (b.items.filterMap s.source.items.get?).filter fun y => (traitHeading? y).isSome := by
  rw [Declaration.traitMembers, List.map_filterMap, List.filter_filterMap]
  refine List.filterMap_congr fun id _ => Option.ext fun y => ?_
  rw [Option.map_eq_some_iff, Option.filter_eq_some_iff]
  constructor
  · rintro ⟨m, hm, rfl⟩
    obtain ⟨hget, hheading⟩ := traitMember?_eq_some hm
    exact ⟨hget, by rw [hheading]; rfl⟩
  · rintro ⟨hget, hheading⟩
    obtain ⟨m, hm⟩ := exists_traitMember? hget hheading
    exact ⟨(y, m), hm, rfl⟩

theorem perm_traitMembers (b : TraitBody) :
    (s.declarations.orderedMembers b).Perm (s.declarations.traitMembers b) := by
  refine perm_flatMap_filter (by decide) fun m _ => ?_
  cases m.2 <;> simp [Declaration.TraitMember.rank]

/-- Declaration and sections have the items of a trait in orders of their own. -/
theorem perm_orderedMembers (b : TraitBody) :
    ((s.declarations.orderedMembers b).map (·.1)).Perm
      (traitHeadings.flatMap (s.traitGroup b)) := by
  -- one side groups the items with a heading by rank, the other one by heading
  refine ((perm_traitMembers b).map _).trans ?_
  rw [map_traitMembers]
  set ys := (b.items.filterMap s.source.items.get?).filter fun y => (traitHeading? y).isSome
    with hys
  have hgroups : traitHeadings.flatMap (s.traitGroup b) = (traitHeadings.map some).flatMap
      fun k => ys.filter fun y => traitHeading? y == k := by
    rw [List.flatMap_map]
    refine List.flatMap_congr fun title _ => ?_
    rw [hys, List.filter_filter, traitGroup]
    refine List.filter_congr fun y _ => ?_
    cases traitHeading? y <;> simp
  rw [hgroups]
  refine (perm_flatMap_filter (by decide) fun y hy => ?_).symm
  obtain ⟨title, htitle⟩ := Option.isSome_iff_exists.1 (List.mem_filter.1 hy).2
  exact htitle ▸ List.mem_map_of_mem (traitHeading?_mem htitle)

/-- Only a method with a body is printed with one. -/
theorem endsWith_traitMemberText {m : Item × Declaration.TraitMember} {text : String}
    (h : (s.declarations.traitMemberText m).result = .ok text) :
    Text.endsWith " \x7b ... \x7d" text = true ↔ m.2.heading = "Provided Methods" := by
  have hends (front : String) : Text.endsWith " \x7b ... \x7d" (front ++ ";") = false := by
    simp [Text.endsWith, List.isSuffixOf, List.isPrefixOf]
  have hbody (front : String) :
      Text.endsWith " \x7b ... \x7d" (front ++ " \x7b ... \x7d") = true := by
    simp [Text.endsWith, List.isSuffixOf]
  obtain ⟨y, member⟩ := m
  cases member with
  | type b =>
    obtain ⟨params, -, h⟩ := Noting.bind_eq_ok.1 h
    obtain ⟨bounded, -, h⟩ := Noting.bind_eq_ok.1 h
    have hfront : ∃ front, text = front ++ ";" := by
      split at h
      · obtain ⟨type, -, h⟩ := Noting.bind_eq_ok.1 h
        exact ⟨_, (Except.ok.inj h).symm⟩
      · obtain ⟨type, -, h⟩ := Noting.bind_eq_ok.1 h
        exact ⟨_, (Except.ok.inj h).symm⟩
    obtain ⟨front, rfl⟩ := hfront
    simp [hends, Declaration.TraitMember.heading]
  | const b =>
    obtain ⟨type, -, h⟩ := Noting.bind_eq_ok.1 h
    cases h
    simp [hends, Declaration.TraitMember.heading]
  | method b =>
    obtain ⟨front, -, h⟩ := Noting.bind_eq_ok.1 h
    cases h
    cases hhas : b.hasBody <;> simp [hends, hbody, hhas, Declaration.TraitMember.heading]

/-- The members of a trait with their texts. -/
theorem forall₂_traitMembers {b : TraitBody} {texts : List String}
    (h : List.Forall₂ (fun m text => (s.declarations.traitMemberText m).result = .ok text)
      (s.declarations.orderedMembers b) texts) :
    List.Forall₂ (fun m text => (s.declarations.traitMemberText m).result = .ok text ∧
      (Text.endsWith " \x7b ... \x7d" text = true ↔ m.1 ∈ s.traitGroup b "Provided Methods"))
      (s.declarations.orderedMembers b) texts := by
  have hheading : ∀ m ∈ s.declarations.orderedMembers b,
      m.2.heading = "Provided Methods" ↔ m.1 ∈ s.traitGroup b "Provided Methods" := by
    intro m hm
    obtain ⟨id, hid, hmember⟩ := List.mem_filterMap.1 ((perm_traitMembers b).mem_iff.1 hm)
    obtain ⟨hget, hhead⟩ := traitMember?_eq_some hmember
    simp [traitGroup, hhead, List.mem_filterMap.2 ⟨id, hid, hget⟩]
  refine ((List.forall₂_and_left _ texts).2 ⟨hheading, h⟩).imp ?_
  rintro m text ⟨hiff, htext⟩
  exact ⟨htext, (endsWith_traitMemberText htext).trans hiff⟩

/-! ### Sections -/

variable (hparse : Export.parse text = .ok s.source) (honce : s.source.ListedOnce)
  (hlists : s.source.ListsFields) (hx : s.source.items.get? id = some x)

include hparse honce hlists hx

/-- What stands below the declaration of an item tells of the same members. -/
theorem writes_sectionParts {code : String} (hcode : (s.declarations.text x).result = .ok code)
    (anchor : Option String) (level : Int) :
    Writes (fun _ lines => s.TellsMembers level x code lines) (s.sectionParts anchor level x) := by
  unfold sectionParts
  rw [Declaration.text] at hcode
  cases hpayload : x.payload
  case struct b =>
    rw [hpayload] at hcode
    have hrows : b.fields.filterMap s.tableField? = s.declarations.tupleFields b :=
      List.filterMap_congr fun f hf => tableField?_eq hparse honce hx hpayload hf
    refine (s.writes_fields anchor level b).mono ?_
    rintro links lines ⟨rows, htable, hlines⟩
    rw [hrows] at htable
    refine ⟨fun b' hb' hshape => ?_, fun b' hb' hshape => ?_, by simp [hpayload],
      by simp [hpayload]⟩
    all_goals
      obtain rfl := Payload.struct.inj (hpayload.symm.trans hb')
    · obtain ⟨head, clause, printed, hidden, hprinted, hhidden, hcode⟩ :=
        Declaration.structText_plain hshape hcode
      rw [namedFields_eq hlists hx hpayload, List.forall₂_map_left_iff] at hprinted
      obtain ⟨texts, htexts, rfl⟩ := forall₂_printsField forall_tupleFields hprinted
      exact ⟨head, clause, texts, hidden, rows, htexts, hhidden, hcode, htable, hlines⟩
    · obtain ⟨head, clause, types, hidden, htypes, hhidden, hcode⟩ :=
        Declaration.structText_tuple hshape hcode
      exact ⟨head, clause, types, hidden, rows, forall₂_printsType htypes, hhidden, hcode, htable,
        htypes.length_eq.symm.trans htable.length_eq, hlines⟩
  case enum b =>
    rw [hpayload] at hcode
    obtain ⟨head, clause, texts, omitted, htexts, homitted, hcode⟩ :=
      Declaration.enumText_eq_ok hcode
    refine (s.writes_variants anchor level b).bind fun _ lines hvariants => ?_
    obtain ⟨rows, htable, hlines⟩ := hvariants
    refine writes_pure ⟨by simp [hpayload], by simp [hpayload], fun b' hb' => ?_,
      by simp [hpayload]⟩
    obtain rfl := Payload.enum.inj (hpayload.symm.trans hb')
    rw [List.append_nil]
    exact ⟨head, clause, texts, omitted, rows, htexts, homitted, hcode, htable, hlines⟩
  case trait b =>
    rw [hpayload] at hcode
    obtain ⟨head, clause, texts, htexts, hcode⟩ := Declaration.traitText_eq_ok hcode
    refine (s.writes_traitItems anchor level b).bind fun _ lines hitems => ?_
    obtain ⟨groups, hgroups, hlines⟩ := hitems
    refine (s.writes_implementors level b).mono fun _ rest hrest =>
      ⟨by simp [hpayload], by simp [hpayload], by simp [hpayload], fun b' hb' => ?_⟩
    obtain rfl := Payload.trait.inj (hpayload.symm.trans hb')
    exact ⟨head, clause, texts, groups, rest, forall₂_traitMembers htexts, hcode,
      perm_orderedMembers b, hgroups, by rw [hlines], hrest⟩
  all_goals
    exact writes_pure ⟨by simp [hpayload], by simp [hpayload], by simp [hpayload],
      by simp [hpayload]⟩

/-- The section of an item opens with its declaration, and what follows tells of the members that
the declaration shows. Where types follow the schema, the section is written to its end. -/
theorem tellsMembers_itemSection (level : Int) (anchor : Option String) :
    (∀ p q, ((s.itemSection level anchor x).run p).result = .ok ((), q) →
      ∃ code opening lines rest, q.lines = p.lines ++ opening ++ lines ++ rest ∧
        s.Opens x level (kindLabel x.kind ++ " " ++ x.displayName) code opening ∧
        s.TellsMembers (level + 1) x code lines ∧
        (if implKinds.contains x.kind then
          OnPage.Wrote (s.implementations anchor (level + 1) x) () rest
        else rest = [])) ∧
    (s.source.FollowsSchema →
      ∀ p, ∃ q, ((s.itemSection level anchor x).run p).result = .ok ((), q)) := by
  constructor
  · have hwrites : Writes (fun _ written => ∃ code opening lines rest,
        written = opening ++ lines ++ rest ∧
          s.Opens x level (kindLabel x.kind ++ " " ++ x.displayName) code opening ∧
          s.TellsMembers (level + 1) x code lines ∧
          (if implKinds.contains x.kind then
            OnPage.Wrote (s.implementations anchor (level + 1) x) () rest
          else rest = [])) (s.itemSection level anchor x) := by
      refine Writes.after (gives_lift _) fun _ _ => (writes_heading _ _ _).bind
        fun _ head hhead => (writes_deprecation x).bind fun _ note hnote =>
          (s.writes_declarationBlock x).bind fun _ block hblock => (s.writes_docsBlock x).bind
            fun _ docs hdocs => ?_
      obtain ⟨code, hopens⟩ := exists_opens hhead hnote hblock hdocs
      refine (writes_sectionParts hparse honce hlists hx hopens.1 anchor _).bind
        fun links lines hlines => ?_
      have hassoc (rest : List String) : head ++ (note ++ (block ++ (docs ++ (lines ++ rest)))) =
          head ++ (note ++ (block ++ docs)) ++ lines ++ rest := by
        simp only [List.append_assoc]
      split
      · refine (s.writes_implementations anchor _ x).wrote.bind fun _ rest hrest =>
          (gives_addLinks links).mono fun _ more ⟨hmore, _⟩ => ?_
        subst hmore
        rw [List.append_nil, hassoc]
        exact ⟨code, _, lines, rest, rfl, hopens, hlines, hrest⟩
      · refine (gives_addLinks links).mono fun _ more ⟨hmore, _⟩ => ?_
        subst hmore
        rw [hassoc]
        exact ⟨code, _, lines, [], rfl, hopens, hlines, rfl⟩
    intro p q hrun
    obtain ⟨-, written, hlines, code, opening, lines, rest, rfl, h⟩ := hwrites p () q hrun
    exact ⟨code, opening, lines, rest, by rw [hlines]; simp only [List.append_assoc], h⟩
  · intro hschema p
    have hroot := Option.isSome_iff_exists.1 (Export.package_of_parse hparse).2
    have hwritable := writable_of_followsSchema hschema hroot
    obtain ⟨⟨_, q⟩, hq⟩ := (marks_itemSection s hx level anchor p).ends hwritable
    exact ⟨q, hq⟩

end

/-- The crate with a private field, of which private items are shown. -/
def vaultSite : Site where
  options := { includePrivate := true }
  source := Export.fieldExport
  tree := Tree.ofExport Export.fieldExport true
  layout := { package := "demo", basePath := "" }
  collisions := []

def vaultStruct : Item := Sample.struct "1" "Vault" ["2"]

theorem listsFields_fieldExport : Export.fieldExport.ListsFields := by
  have hfields : ∀ id y, Export.fieldExport.items.get? id = some y → ∀ b,
      y.payload = .struct b → b.fields = [some "2"] :=
    Sample.forall_crate (List.forall_mem_cons.2 ⟨by rintro b ⟨⟩, List.forall_mem_cons.2
      ⟨by rintro b ⟨⟩; rfl, List.forall_mem_singleton.2 (by rintro b ⟨⟩)⟩⟩)
  intro id y b hy hb m z hm hz
  rw [hfields id y hy b hb, List.mem_singleton] at hm
  cases hm
  cases hz
  exact ⟨_, rfl⟩

/-- The section of a struct with a private field tells it, as private items are shown. -/
theorem tellsMembers_itemSection_vault :
    Export.parse Export.fieldText = .ok vaultSite.source ∧ vaultSite.source.ListedOnce ∧
    vaultSite.source.ListsFields ∧ vaultSite.source.items.get? "1" = some vaultStruct ∧
    vaultSite.source.FollowsSchema ∧
    (∀ p q, ((vaultSite.itemSection 2 none vaultStruct).run p).result = .ok ((), q) →
      ∃ code opening lines rest, q.lines = p.lines ++ opening ++ lines ++ rest ∧
        vaultSite.Opens vaultStruct 2 "Struct Vault" code opening ∧
        vaultSite.TellsMembers 3 vaultStruct code lines ∧
        OnPage.Wrote (vaultSite.implementations none 3 vaultStruct) () rest) ∧
    ∀ p, ∃ q, ((vaultSite.itemSection 2 none vaultStruct).run p).result = .ok ((), q) := by
  have hschema : Export.fieldExport.FollowsSchema := Sample.forall_crate (by decide)
  have hvault : vaultSite.source.items.get? "1" = some vaultStruct := rfl
  obtain ⟨htells, hends⟩ := tellsMembers_itemSection Export.parse_fieldText
    Export.listedOnce_fieldExport listsFields_fieldExport hvault 2 none
  refine ⟨Export.parse_fieldText, Export.listedOnce_fieldExport, listsFields_fieldExport, hvault,
    hschema, fun p q hrun => ?_, hends hschema⟩
  obtain ⟨code, opening, lines, rest, hlines, hopens, hmembers, hrest⟩ := htells p q hrun
  exact ⟨code, opening, lines, rest, hlines, hopens, hmembers, hrest⟩

end Site

end CrateBook
