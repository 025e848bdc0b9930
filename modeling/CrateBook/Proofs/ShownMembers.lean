import CrateBook.Proofs.Memories
import CrateBook.Proofs.Sections
import CrateBook.Proofs.Tables

/-!
# The members that a section shows

The section of an item shows the fields of a struct, the variants of an enum with the named
fields of those that look like structs, the associated items of a trait, and the members of
the blocks that are for a type and no noise. This module says so without regard to the order
of writing, and proves that the marks of a section tell of just these members.
-/
namespace CrateBook

namespace Export

variable {x : Export} {noise : List String} {typeId : Id}

/-- An implementation block under its id. -/
def HasBlock (x : Export) (i : Id) (b : ImplBody) : Prop :=
  ∃ y, x.items.get? i = some y ∧ y.payload = .impl b

/-- The block is for the type, and no noise. -/
def ShowsBlock (x : Export) (noise : List String) (typeId : Id) (b : ImplBody) : Prop :=
  b.target? = some typeId ∧ x.isNoise noise b = false

theorem mem_impls {i : Id} {b : ImplBody} : (i, b) ∈ x.impls ↔ x.HasBlock i b := by
  unfold impls HasBlock
  rw [List.mem_filterMap]
  constructor
  · rintro ⟨y, hy, hmatch⟩
    split at hmatch
    · next hpay =>
      obtain ⟨rfl, rfl⟩ := Prod.mk.inj (Option.some.inj hmatch)
      exact ⟨y, Items.mem_toList.1 hy, hpay⟩
    · cases hmatch
  · rintro ⟨y, hy, hpay⟩
    obtain rfl := Items.id_of_get? hy
    exact ⟨y, Items.mem_toList.2 hy, by rw [hpay]⟩

theorem mem_implsFor {i : Id × ImplBody} :
    i ∈ x.implsFor typeId ↔ x.HasBlock i.1 i.2 ∧ i.2.target? = some typeId := by
  rw [implsFor, sortById, List.mem_mergeSort, List.mem_filter, beq_iff_eq, ← mem_impls]

section

variable (x noise)

/-- Blocks are put into their groups one by one. -/
theorem inherentMembers_foldl (is : List (Id × ImplBody)) (g : ImplGroup) :
    (is.foldl (x.sortImpl noise) g).inherentMembers = g.inherentMembers ++
      (is.filter fun i => !x.isNoise noise i.2 && i.2.traitRef.isNone).flatMap
        fun i => x.implMembers i.2 := by
  induction is generalizing g with
  | nil => simp
  | cons i is ih =>
    rw [List.foldl_cons, ih, sortImpl]
    cases hnoise : x.isNoise noise i.2 <;> cases htrait : i.2.traitRef <;>
      simp [hnoise, htrait]

theorem traits_foldl (is : List (Id × ImplBody)) (g : ImplGroup) :
    (is.foldl (x.sortImpl noise) g).traits =
      (is.filter fun i => !x.isNoise noise i.2 && i.2.traitRef.isSome).foldl
        (fun t i => t.push (i.2.traitId.getD i.1) (x.traitImpl i.1 i.2)) g.traits := by
  induction is generalizing g with
  | nil => rfl
  | cons i is ih =>
    rw [List.foldl_cons, ih, sortImpl]
    cases hnoise : x.isNoise noise i.2 <;> cases htrait : i.2.traitRef <;>
      simp [hnoise, htrait]

end

/-- Inherent members are those of the blocks without a trait. -/
theorem mem_inherentMembers {m : Id} : m ∈ (x.classify noise typeId).inherentMembers ↔
    ∃ i b, x.HasBlock i b ∧ x.ShowsBlock noise typeId b ∧ b.traitRef = none ∧
      m ∈ x.implMembers b := by
  rw [classify, inherentMembers_foldl, List.nil_append, List.mem_flatMap]
  simp only [List.mem_filter, mem_implsFor, Bool.and_eq_true, Bool.not_eq_true',
    Option.isNone_iff_eq_none, ShowsBlock]
  constructor
  · rintro ⟨⟨i, b⟩, ⟨⟨hblock, htarget⟩, hnoise, htrait⟩, hm⟩
    exact ⟨i, b, hblock, ⟨htarget, hnoise⟩, htrait, hm⟩
  · rintro ⟨i, b, hblock, ⟨htarget, hnoise⟩, htrait, hm⟩
    exact ⟨(i, b), ⟨⟨hblock, htarget⟩, hnoise, htrait⟩, hm⟩

/-- The listed implementations are the blocks with a trait, whatever keys they were kept by. -/
theorem traitImpls_perm : (x.classify noise typeId).traitImpls.Perm
    (((x.implsFor typeId).filter fun i => !x.isNoise noise i.2 && i.2.traitRef.isSome).map
      fun i => x.traitImpl i.1 i.2) := by
  have hvalues (table : Table Id (List TraitImpl)) :
      table.values.flatten = table.entries.flatMap Prod.snd := by
    rw [Table.values, List.flatMap_def]
  refine (List.mergeSort_perm _ _).trans ?_
  rw [hvalues, classify, traits_foldl]
  exact Table.perm_foldl_push _

/-- Trait implementations are the blocks with a trait. -/
theorem mem_traitImpls {t : TraitImpl} : t ∈ (x.classify noise typeId).traitImpls ↔
    ∃ i b, x.HasBlock i b ∧ x.ShowsBlock noise typeId b ∧ b.traitRef ≠ none ∧
      t = x.traitImpl i b := by
  rw [traitImpls_perm.mem_iff, List.mem_map]
  simp only [List.mem_filter, mem_implsFor, Bool.and_eq_true, Bool.not_eq_true',
    Option.isSome_iff_ne_none, ShowsBlock]
  constructor
  · rintro ⟨⟨i, b⟩, ⟨⟨hblock, htarget⟩, hnoise, htrait⟩, rfl⟩
    exact ⟨i, b, hblock, ⟨htarget, hnoise⟩, htrait, rfl⟩
  · rintro ⟨i, b, hblock, ⟨htarget, hnoise⟩, htrait, rfl⟩
    exact ⟨(i, b), ⟨⟨hblock, htarget⟩, hnoise, htrait⟩, rfl⟩

theorem mem_implMembers {b : ImplBody} {m : Id} : m ∈ x.implMembers b ↔
    m ∈ b.items ∧ ∃ y, x.items.get? m = some y ∧ y.payload.isAssociated = true := by
  rw [implMembers, List.mem_filter, Items.payload?]
  cases x.items.get? m <;> simp

/-- A block that shows a member says more than that its type has the trait. -/
theorem isMarker_of_mem {i m : Id} {b : ImplBody} (hm : m ∈ x.implMembers b) :
    (x.traitImpl i b).isMarker = false := by
  have hne : (x.implMembers b).isEmpty = false := by
    cases hmembers : x.implMembers b with
    | nil => exact absurd (hmembers ▸ hm) List.not_mem_nil
    | cons => rfl
  simp [TraitImpl.isMarker, traitImpl, hne]

end Export

namespace Site

/-- The members that the section of an item shows, with their anchors. -/
inductive Shows (s : Site) (x : Item) (anchor : Option String) : Id → String → Prop
  | field {b : StructBody} {m : Id} {y : Item} {t : Value} (hx : x.payload = .struct b)
      (hm : some m ∈ b.fields) (hy : s.source.items.get? m = some y)
      (hpayload : y.payload = .structField t)
      (hshown : s.source.showsMember s.options.includePrivate m = true) :
      Shows s x anchor m (memberAnchor anchor y y.displayName none)
  | variant {b : EnumBody} {v : Id} {y : Item} {body : VariantBody} (hx : x.payload = .enum b)
      (hv : v ∈ b.variants) (hy : s.source.items.get? v = some y)
      (hpayload : y.payload = .variant body) :
      Shows s x anchor v (memberAnchor anchor y y.displayName none)
  | variantField {b : EnumBody} {v m : Id} {y z : Item} {body : VariantBody} {name : String}
      (hx : x.payload = .enum b) (hv : v ∈ b.variants) (hy : s.source.items.get? v = some y)
      (hpayload : y.payload = .variant body) (hshape : body.shape = "struct")
      (hm : some m ∈ body.fields) (hz : s.source.items.get? m = some z)
      (hname : z.name = some name) :
      Shows s x anchor m
        (memberAnchor (some (memberAnchor anchor y y.displayName none)) z name none)
  | traitItem {b : TraitBody} {m : Id} {y : Item} (hx : x.payload = .trait b)
      (hm : m ∈ b.items) (hy : s.source.items.get? m = some y)
      (hpayload : y.payload.isAssociated = true) :
      Shows s x anchor m (memberAnchor anchor y y.displayName none)
  | inherent {i m : Id} {b : ImplBody} {y : Item} (hkind : implKinds.contains x.kind = true)
      (hblock : s.source.HasBlock i b)
      (hshows : s.source.ShowsBlock s.options.noiseTraits x.id b) (htrait : b.traitRef = none)
      (hm : m ∈ b.items) (hy : s.source.items.get? m = some y)
      (hpayload : y.payload.isAssociated = true)
      (hshown : s.source.showsMember s.options.includePrivate m = true) :
      Shows s x anchor m (memberAnchor anchor y y.displayName none)
  | implemented {i m : Id} {b : ImplBody} {y : Item} (hkind : implKinds.contains x.kind = true)
      (hblock : s.source.HasBlock i b)
      (hshows : s.source.ShowsBlock s.options.noiseTraits x.id b) (htrait : b.traitRef ≠ none)
      (hm : m ∈ b.items) (hy : s.source.items.get? m = some y)
      (hpayload : y.payload.isAssociated = true) :
      Shows s x anchor m (memberAnchor anchor y y.displayName
        (some (Layout.implScope (s.source.traitName b))))

section

variable {s : Site} {owner : Option String} {m : Id} {f : String}

theorem mem_map_memberMark {scope : Option String} {xs : List Item} :
    .member m f ∈ xs.map (memberMark owner scope) ↔
      ∃ y ∈ xs, y.id = m ∧ memberAnchor owner y y.displayName scope = f := by
  simp [memberMark]

/-- A member that is looked up under an id that may be missing. -/
theorem find?_eq_some {id : Option Id} {y : Item} :
    s.source.find? id = some y ↔ id = some y.id ∧ s.source.items.get? y.id = some y := by
  unfold Export.find?
  cases id with
  | none => simp
  | some i =>
    rw [Option.bind_some, Option.some.injEq]
    constructor
    · intro hy
      obtain rfl := Items.id_of_get? hy
      exact ⟨rfl, hy⟩
    · rintro ⟨rfl, hy⟩
      exact hy

theorem mem_fieldMarks {id : Option Id} : .member m f ∈ s.fieldMarks owner id ↔
    ∃ y t, id = some m ∧ s.source.items.get? m = some y ∧ y.payload = .structField t ∧
      s.source.showsMember s.options.includePrivate m = true ∧
      memberAnchor owner y y.displayName none = f := by
  unfold fieldMarks
  constructor
  · intro h
    split at h
    · cases h
    · next y hfind =>
      obtain ⟨hid, hy⟩ := find?_eq_some.1 hfind
      split at h
      · next t hpayload =>
        split at h
        · next hshown =>
          obtain ⟨rfl, rfl⟩ := Note.member.inj (List.mem_singleton.1 h)
          exact ⟨y, t, hid, hy, hpayload, hshown, rfl⟩
        · cases h
      · cases h
  · rintro ⟨y, t, rfl, hy, hpayload, hshown, rfl⟩
    obtain rfl := Items.id_of_get? hy
    rw [find?_eq_some.2 ⟨rfl, hy⟩]
    simp [hpayload, hshown, memberMark]

theorem mem_variantFieldMarks {a : String} {id : Option Id} :
    .member m f ∈ s.variantFieldMarks a id ↔
      ∃ z name, id = some m ∧ s.source.items.get? m = some z ∧ z.name = some name ∧
        memberAnchor (some a) z name none = f := by
  unfold variantFieldMarks
  constructor
  · intro h
    split at h
    · cases h
    · next z hfind =>
      obtain ⟨hid, hz⟩ := find?_eq_some.1 hfind
      split at h
      · cases h
      · next name hname =>
        obtain ⟨rfl, rfl⟩ := Note.member.inj (List.mem_singleton.1 h)
        exact ⟨z, name, hid, hz, hname, rfl⟩
  · rintro ⟨z, name, rfl, hz, hname, rfl⟩
    obtain rfl := Items.id_of_get? hz
    rw [find?_eq_some.2 ⟨rfl, hz⟩]
    simp [hname]

theorem mem_variantMarks {v : Id} : .member m f ∈ s.variantMarks owner v ↔
    ∃ y body, s.source.items.get? v = some y ∧ y.payload = .variant body ∧
      (v = m ∧ memberAnchor owner y y.displayName none = f ∨
        body.shape = "struct" ∧ ∃ z name, some m ∈ body.fields ∧
          s.source.items.get? m = some z ∧ z.name = some name ∧
          memberAnchor (some (memberAnchor owner y y.displayName none)) z name none = f) := by
  unfold variantMarks
  constructor
  · intro h
    split at h
    · cases h
    · next y hy =>
      split at h
      · next body hpayload =>
        refine ⟨y, body, hy, hpayload, ?_⟩
        rcases List.mem_cons.1 h with h | h
        · obtain ⟨rfl, rfl⟩ := Note.member.inj h
          exact .inl ⟨(Items.id_of_get? hy).symm, rfl⟩
        · split at h
          · next hshape =>
            obtain ⟨id, hid, h⟩ := List.mem_flatMap.1 h
            obtain ⟨z, name, rfl, hz, hname, hanchor⟩ := mem_variantFieldMarks.1 h
            exact .inr ⟨by simpa using hshape, z, name, hid, hz, hname, hanchor⟩
          · cases h
      · cases h
  · rintro ⟨y, body, hy, hpayload, ⟨rfl, rfl⟩ | ⟨hshape, z, name, hm, hz, hname, rfl⟩⟩
    · obtain rfl := Items.id_of_get? hy
      simp [hy, hpayload, memberMark]
    · simp only [hy, hpayload, hshape, beq_self_eq_true, if_true]
      refine List.mem_cons_of_mem _ (List.mem_flatMap.2 ⟨some m, hm, ?_⟩)
      exact mem_variantFieldMarks.2 ⟨z, name, rfl, hz, hname, rfl⟩

/-- The headings of a trait have room for all of its associated items. -/
theorem mem_traitMarks {b : TraitBody} : .member m f ∈ s.traitMarks owner b ↔
    ∃ y, m ∈ b.items ∧ s.source.items.get? m = some y ∧ y.payload.isAssociated = true ∧
      memberAnchor owner y y.displayName none = f := by
  have hheading (y : Item) :
      y.payload.isAssociated = true ↔ ∃ title ∈ traitHeadings, traitHeading? y = some title := by
    unfold traitHeading? Payload.isAssociated
    cases y.payload
    case function body => cases hbody : body.hasBody <;> simp [traitHeadings, hbody]
    all_goals simp [traitHeadings]
  simp only [traitMarks, List.mem_flatMap, mem_map_memberMark, traitGroup, List.mem_filter,
    List.mem_filterMap, beq_iff_eq]
  constructor
  · rintro ⟨title, htitle, y, ⟨⟨i, hi, hy⟩, hhead⟩, rfl, rfl⟩
    obtain rfl := Items.id_of_get? hy
    exact ⟨y, hi, hy, (hheading y).2 ⟨title, htitle, hhead⟩, rfl⟩
  · rintro ⟨y, hm, hy, hpayload, rfl⟩
    obtain ⟨title, htitle, hhead⟩ := (hheading y).1 hpayload
    exact ⟨title, htitle, y, ⟨⟨m, hm, hy⟩, hhead⟩, Items.id_of_get? hy, rfl⟩

theorem mem_implMarks (h : s.Sound) {x : Item} : .member m f ∈ s.implMarks owner x ↔
    ∃ i b y, s.source.HasBlock i b ∧ s.source.ShowsBlock s.options.noiseTraits x.id b ∧
      m ∈ b.items ∧ s.source.items.get? m = some y ∧ y.payload.isAssociated = true ∧
      (b.traitRef = none ∧ s.source.showsMember s.options.includePrivate m = true ∧
          memberAnchor owner y y.displayName none = f ∨
        b.traitRef ≠ none ∧ memberAnchor owner y y.displayName
          (some (Layout.implScope (s.source.traitName b))) = f) := by
  unfold implMarks
  rw [h.implsOf_eq, List.mem_append, mem_map_memberMark, List.mem_flatMap]
  constructor
  · rintro (⟨y, hy, rfl, hanchor⟩ | ⟨t, ht, hmark⟩)
    · obtain ⟨j, hj, hy⟩ := List.mem_filterMap.1 hy
      obtain ⟨hmember, hshown⟩ := List.mem_filter.1 hj
      obtain rfl := Items.id_of_get? hy
      obtain ⟨i, b, hblock, hshows, htrait, hm⟩ := Export.mem_inherentMembers.1 hmember
      obtain ⟨hitems, z, hz, hpayload⟩ := Export.mem_implMembers.1 hm
      obtain rfl := Option.some.inj (hy.symm.trans hz)
      exact ⟨i, b, y, hblock, hshows, hitems, hy, hpayload, .inl ⟨htrait, hshown, hanchor⟩⟩
    · obtain ⟨i, b, hblock, hshows, htrait, rfl⟩ :=
        Export.mem_traitImpls.1 (List.mem_filter.1 ht).1
      unfold traitImplMarks at hmark
      split at hmark
      · cases hmark
      · obtain ⟨y, hy, rfl, hanchor⟩ := mem_map_memberMark.1 hmark
        obtain ⟨j, hj, hy⟩ := List.mem_filterMap.1 hy
        obtain rfl := Items.id_of_get? hy
        obtain ⟨hitems, z, hz, hpayload⟩ := Export.mem_implMembers.1 hj
        obtain rfl := Option.some.inj (hy.symm.trans hz)
        exact ⟨i, b, y, hblock, hshows, hitems, hy, hpayload, .inr ⟨htrait, hanchor⟩⟩
  · rintro ⟨i, b, y, hblock, hshows, hitems, hy, hpayload, hcases⟩
    have hm : m ∈ s.source.implMembers b := Export.mem_implMembers.2 ⟨hitems, y, hy, hpayload⟩
    rcases hcases with ⟨htrait, hshown, hanchor⟩ | ⟨htrait, hanchor⟩
    · refine .inl ⟨y, List.mem_filterMap.2 ⟨m, ?_, hy⟩, Items.id_of_get? hy, hanchor⟩
      exact List.mem_filter.2
        ⟨Export.mem_inherentMembers.2 ⟨i, b, hblock, hshows, htrait, hm⟩, hshown⟩
    · have ht := Export.mem_traitImpls.2 ⟨i, b, hblock, hshows, htrait, rfl⟩
      have hmarker : (!(s.source.traitImpl i b).isMarker) = true := by
        rw [Export.isMarker_of_mem hm]
        rfl
      refine .inr ⟨_, List.mem_filter.2 ⟨ht, hmarker⟩, ?_⟩
      obtain ⟨z, hz, -⟩ := hblock
      have hget : s.source.items.get? (s.source.traitImpl i b).implId = some z := hz
      unfold traitImplMarks
      rw [hget]
      exact mem_map_memberMark.2
        ⟨y, List.mem_filterMap.2 ⟨m, hm, hy⟩, Items.id_of_get? hy, hanchor⟩

/-- The marks of a section tell of the members that it shows. -/
theorem mem_memberMarks (hsound : s.Sound) {x : Item} :
    .member m f ∈ s.memberMarks owner x ↔ s.Shows x owner m f := by
  have hparts : .member m f ∈ s.memberMarks owner x ↔ .member m f ∈ s.partMarks owner x ∨
      implKinds.contains x.kind = true ∧ .member m f ∈ s.implMarks owner x := by
    rw [memberMarks, List.mem_append]
    split <;> simp_all
  rw [hparts]
  constructor
  · rintro (h | ⟨hkind, h⟩)
    · unfold partMarks at h
      split at h
      · next b hx =>
        obtain ⟨id, hid, h⟩ := List.mem_flatMap.1 h
        obtain ⟨y, t, rfl, hy, hpayload, hshown, rfl⟩ := mem_fieldMarks.1 h
        exact .field hx hid hy hpayload hshown
      · next b hx =>
        obtain ⟨v, hv, h⟩ := List.mem_flatMap.1 h
        obtain ⟨y, body, hy, hpayload, hcases⟩ := mem_variantMarks.1 h
        rcases hcases with ⟨rfl, rfl⟩ | ⟨hshape, z, name, hm, hz, hname, rfl⟩
        · exact .variant hx hv hy hpayload
        · exact .variantField hx hv hy hpayload hshape hm hz hname
      · next b hx =>
        obtain ⟨y, hm, hy, hpayload, rfl⟩ := mem_traitMarks.1 h
        exact .traitItem hx hm hy hpayload
      · cases h
    · obtain ⟨i, b, y, hblock, hshows, hm, hy, hpayload, hcases⟩ := (mem_implMarks hsound).1 h
      rcases hcases with ⟨htrait, hshown, rfl⟩ | ⟨htrait, rfl⟩
      · exact .inherent hkind hblock hshows htrait hm hy hpayload hshown
      · exact .implemented hkind hblock hshows htrait hm hy hpayload
  · intro h
    cases h with
    | field hx hm hy hpayload hshown =>
      refine .inl ?_
      rw [partMarks, hx]
      exact List.mem_flatMap.2 ⟨_, hm, mem_fieldMarks.2 ⟨_, _, rfl, hy, hpayload, hshown, rfl⟩⟩
    | variant hx hv hy hpayload =>
      refine .inl ?_
      rw [partMarks, hx]
      exact List.mem_flatMap.2 ⟨_, hv, mem_variantMarks.2 ⟨_, _, hy, hpayload, .inl ⟨rfl, rfl⟩⟩⟩
    | variantField hx hv hy hpayload hshape hm hz hname =>
      refine .inl ?_
      rw [partMarks, hx]
      exact List.mem_flatMap.2 ⟨_, hv, mem_variantMarks.2
        ⟨_, _, hy, hpayload, .inr ⟨hshape, _, _, hm, hz, hname, rfl⟩⟩⟩
    | traitItem hx hm hy hpayload =>
      refine .inl ?_
      rw [partMarks, hx]
      exact mem_traitMarks.2 ⟨_, hm, hy, hpayload, rfl⟩
    | inherent hkind hblock hshows htrait hm hy hpayload hshown =>
      exact .inr ⟨hkind, (mem_implMarks hsound).2
        ⟨_, _, _, hblock, hshows, hm, hy, hpayload, .inl ⟨htrait, hshown, rfl⟩⟩⟩
    | implemented hkind hblock hshows htrait hm hy hpayload =>
      exact .inr ⟨hkind, (mem_implMarks hsound).2
        ⟨_, _, _, hblock, hshows, hm, hy, hpayload, .inr ⟨htrait, rfl⟩⟩⟩

end

end Site

end CrateBook
