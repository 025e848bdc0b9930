import CrateBook.Proofs.Sections
import CrateBook.Proofs.Typeset

/-!
# Declarations that can be written

If the types, bounds and generics of an export follow the schema, the declaration of each of its
items is written to its end, whatever the items are that it leads to: items that are missing,
and items of other kinds than their lister's, are passed over.
-/
namespace CrateBook

open Noting (Succeeds succeeds_pure succeeds_read succeeds_mapM)

def Generics.follows (g : Generics) : Bool :=
  Form.param.fitsAll g.params && Form.predicate.fitsAll g.wherePredicates

/-- The types, bounds and generics of a payload follow the schema. -/
def Payload.follows : Payload → Bool
  | struct b => b.generics.follows
  | structField t => Form.type.fits t
  | enum b => b.generics.follows
  | function b =>
    Form.type.fitsAll (b.inputs.map Prod.snd) && Form.type.fits b.output && b.generics.follows
  | trait b => Form.bound.fitsAll b.bounds && b.generics.follows
  | typeAlias b => Form.type.fits b.type && b.generics.follows
  | constant b => Form.type.fits b.type
  | static b => Form.type.fits b.type
  | impl b =>
    Form.type.fits b.forType && b.traitRef.all (fun ms => Form.path.fits (.object ms)) &&
      b.generics.follows
  | assocConst b => Form.type.fits b.type
  | assocType b => Form.bound.fitsAll b.bounds && Form.type.fits b.type && b.generics.follows
  | _ => true

/-- The types, bounds and generics of all items follow the schema. -/
def Export.FollowsSchema (x : Export) : Prop :=
  ∀ id y, x.items.get? id = some y → y.payload.follows = true

namespace Declaration

variable (d : Declaration)

theorem succeeds_type {v : Value} (h : Form.type.fits v = true) : Succeeds (d.type v) :=
  (TypeText.succeeds_type h).map _

theorem succeeds_params {g : Generics} (h : g.follows = true) : Succeeds (d.params g) := by
  simp only [Generics.follows, Bool.and_eq_true, Form.fitsAll_iff] at h
  exact (TypeText.succeeds_genericParams h.1).map _

theorem succeeds_whereClause {g : Generics} (h : g.follows = true) :
    Succeeds (d.whereClause g) := by
  simp only [Generics.follows, Bool.and_eq_true, Form.fitsAll_iff] at h
  unfold whereClause
  refine (TypeText.succeeds_wherePredicates _ h.2).bind fun preds => ?_
  split <;> exact succeeds_pure _

theorem succeeds_boundsText {bs : List Value} (h : Form.bound.fitsAll bs = true) :
    Succeeds (d.boundsText bs) := by
  unfold boundsText
  split
  · exact succeeds_pure _
  · have hlist : Form.bounds.fits (.list bs) = true := by
      rw [Form.fits, Bool.and_eq_true]
      exact ⟨rfl, h⟩
    exact ((TypeText.succeeds_bounds hlist).map _).map _

theorem succeeds_fieldText {x : Item} (h : x.payload.follows = true) :
    Succeeds (d.fieldText x) := by
  unfold fieldText
  refine (d.succeeds_type ?_).map _
  split
  · next t ht => simpa [ht, Payload.follows] using h
  · rfl

theorem succeeds_receiver {v : Value} (h : Form.type.fits v = true) :
    ∃ r, receiver? v = .ok r := by
  unfold receiver?
  split
  · exact ⟨_, rfl⟩
  split
  · next ms =>
    split
    · next ref href =>
      have hreference : Form.reference.fits ref = true := Form.fits_of_lookup h href
      obtain ⟨w, hw, -⟩ := Form.exists_field "type" rfl hreference rfl
      refine Checked.exists_bind hw ?_
      split
      · obtain ⟨s, hs⟩ := Form.exists_referenceText hreference
        exact Checked.exists_bind hs ⟨_, rfl⟩
      · exact ⟨_, rfl⟩
    · exact ⟨_, rfl⟩
  · exact ⟨_, rfl⟩

theorem succeeds_argument {i : String × Value} (h : Form.type.fits i.2 = true) :
    Succeeds (d.argument i) := by
  unfold argument
  dsimp only
  split
  · obtain ⟨r, hr⟩ := succeeds_receiver h
    refine succeeds_read hr ?_
    split
    · exact succeeds_pure _
    · exact (d.succeeds_type h).map _
  · exact (d.succeeds_type h).map _

theorem succeeds_functionText (x : Item) {b : FunctionBody}
    (h : (Payload.function b).follows = true) : Succeeds (d.functionText x b) := by
  simp only [Payload.follows, Bool.and_eq_true, Form.fitsAll_iff, List.forall_mem_map] at h
  obtain ⟨⟨hinputs, hout⟩, hgenerics⟩ := h
  unfold functionText
  refine (d.succeeds_params hgenerics).bind fun params => ?_
  refine (succeeds_mapM fun i hi => d.succeeds_argument (hinputs i hi)).bind fun inputs => ?_
  dsimp only
  split
  · exact Succeeds.bind (succeeds_pure _) fun _ => (d.succeeds_whereClause hgenerics).map _
  · exact (d.succeeds_type hout).bind fun _ => (d.succeeds_whereClause hgenerics).map _

theorem succeeds_assocTypeText (x : Item) {b : AssocTypeBody}
    (h : (Payload.assocType b).follows = true) : Succeeds (d.assocTypeText x b) := by
  simp only [Payload.follows, Bool.and_eq_true] at h
  obtain ⟨⟨hbounds, htype⟩, hgenerics⟩ := h
  unfold assocTypeText
  refine (d.succeeds_params hgenerics).bind fun params => ?_
  refine (d.succeeds_boundsText hbounds).bind fun bounded => ?_
  split
  · exact Succeeds.bind (succeeds_pure _) fun _ => succeeds_pure _
  · exact (d.succeeds_type htype).bind fun _ => succeeds_pure _

theorem succeeds_implText {b : ImplBody} (h : (Payload.impl b).follows = true) :
    Succeeds (d.implText b) := by
  simp only [Payload.follows, Bool.and_eq_true] at h
  obtain ⟨⟨htype, htrait⟩, hgenerics⟩ := h
  unfold implText
  refine (d.succeeds_params hgenerics).bind fun params => ?_
  have hlast (part : String) : Succeeds (do
      let type ← d.type b.forType
      return (if b.isUnsafe then "unsafe impl" else "impl") ++ params ++ " " ++ part ++ type ++
        (← d.whereClause b.generics) : Noting String) :=
    (d.succeeds_type htype).bind fun _ => (d.succeeds_whereClause hgenerics).map _
  dsimp only
  split
  · next ms hms =>
    have hpath : Form.path.fits (.object ms) = true := by simpa [hms] using htrait
    exact Succeeds.bind ((TypeText.succeeds_path hpath).map _) fun _ => hlast _
  · exact hlast _

section

variable {d} (hd : d.source.FollowsSchema)

include hd

theorem find?_follows {id : Option Id} {y : Item} (h : d.source.find? id = some y) :
    y.payload.follows = true := by
  obtain ⟨i, -, hy⟩ := Option.bind_eq_some_iff.1 h
  exact hd i y hy

theorem visible?_follows {id : Option Id} {y : Item} (h : d.visible? id = some y) :
    y.payload.follows = true :=
  find?_follows hd (Option.filter_eq_some_iff.1 h).1

theorem succeeds_structText (x : Item) {b : StructBody}
    (h : (Payload.struct b).follows = true) : Succeeds (d.structText x b) := by
  have htuple : ∀ f ∈ d.tupleFields b, Succeeds (d.tupleFieldText f) := by
    intro f hf
    obtain ⟨id, -, hfield⟩ := List.mem_filterMap.1 hf
    unfold tupleField? at hfield
    split at hfield
    · next y hy =>
      split at hfield
      · next t ht =>
        cases hfield
        have hfollows := visible?_follows hd hy
        rw [ht] at hfollows
        exact (d.succeeds_type hfollows).map _
      · cases hfield
    · cases hfield
  have hnamed : ∀ y ∈ d.namedFields b, Succeeds (d.fieldLine y) := by
    intro y hy
    obtain ⟨id, -, hy⟩ := List.mem_filterMap.1 hy
    exact (d.succeeds_fieldText (visible?_follows hd hy)).map _
  unfold structText
  refine (d.succeeds_params h).bind fun params => (d.succeeds_whereClause h).bind fun clause => ?_
  split
  · exact (succeeds_mapM htuple).map _
  · split
    · exact (succeeds_mapM hnamed).map _
    · exact succeeds_pure _

theorem succeeds_variantText (x : Item) (b : VariantBody) : Succeeds (d.variantText x b) := by
  have htype {y : Item} {id : Option Id} (hy : d.source.find? id = some y) {t : Value}
      (ht : y.payload = .structField t) : Succeeds (d.type t) := by
    have hfollows := find?_follows hd hy
    rw [ht] at hfollows
    exact d.succeeds_type hfollows
  have hpositional : ∀ y ∈ b.fields.map d.source.find?, Succeeds (d.positionalField y) := by
    intro y hy
    obtain ⟨id, -, hid⟩ := List.mem_map.1 hy
    unfold positionalField
    split
    · split
      · next ht => exact htype hid ht
      · exact succeeds_pure _
    · exact succeeds_pure _
  have hnamed : ∀ y ∈ b.fields.map d.source.find?, Succeeds (d.variantField y) := by
    intro y hy
    obtain ⟨id, -, hid⟩ := List.mem_map.1 hy
    unfold variantField
    split
    · split
      · next ht => exact (htype hid ht).map _
      · exact succeeds_pure _
    · exact succeeds_pure _
  unfold variantText
  dsimp only
  split
  · exact (succeeds_mapM hpositional).map _
  · split
    · refine (succeeds_mapM hnamed).bind fun shown => ?_
      split <;> exact succeeds_pure _
    · split <;> exact succeeds_pure _

theorem succeeds_enumText (x : Item) {b : EnumBody} (h : (Payload.enum b).follows = true) :
    Succeeds (d.enumText x b) := by
  have hlines : ∀ v ∈ d.variants b, Succeeds (d.variantLine v) := fun v _ =>
    (succeeds_variantText hd v.1 v.2).map _
  exact (d.succeeds_params h).bind fun _ => (d.succeeds_whereClause h).bind fun _ =>
    (succeeds_mapM hlines).map _

theorem succeeds_traitText (x : Item) {b : TraitBody} (h : (Payload.trait b).follows = true) :
    Succeeds (d.traitText x b) := by
  simp only [Payload.follows, Bool.and_eq_true] at h
  have hmembers : ∀ m ∈ d.traitMembers b, Succeeds (d.rankedText m) := by
    intro m hm
    obtain ⟨id, -, hmember⟩ := List.mem_filterMap.1 hm
    unfold traitMember? at hmember
    refine Noting.Succeeds.map ?_ _
    split at hmember
    · next y hy =>
      have hfollows := hd id y hy
      split at hmember
      · next b' hb =>
        cases hmember
        exact d.succeeds_assocTypeText y (hb ▸ hfollows)
      · next b' hb =>
        cases hmember
        exact (d.succeeds_type (hb ▸ hfollows :)).map _
      · next b' hb =>
        cases hmember
        exact (d.succeeds_functionText y (hb ▸ hfollows)).map _
      · cases hmember
    · cases hmember
  exact (d.succeeds_params h.2).bind fun _ => (d.succeeds_boundsText h.1).bind fun _ =>
    (d.succeeds_whereClause h.2).bind fun _ => (succeeds_mapM hmembers).map _

/-- The declaration of an item is written, of whatever kind the item is. -/
theorem succeeds_text {x : Item} (h : x.payload.follows = true) : Succeeds (d.text x) := by
  unfold text
  split
  case h_2 b hb => exact succeeds_structText hd x (hb ▸ h)
  case h_3 => exact d.succeeds_fieldText h
  case h_4 b hb => exact succeeds_enumText hd x (hb ▸ h)
  case h_5 => exact succeeds_variantText hd x _
  case h_6 b hb => exact d.succeeds_functionText x (hb ▸ h)
  case h_7 b hb => exact succeeds_traitText hd x (hb ▸ h)
  case h_8 b hb =>
    rw [hb, Payload.follows, Bool.and_eq_true] at h
    exact (d.succeeds_params h.2).bind fun _ => (d.succeeds_whereClause h.2).bind fun _ =>
      (d.succeeds_type h.1).map _
  case h_9 b hb => exact (d.succeeds_type (v := b.type) (hb ▸ h :)).map _
  case h_10 b hb => exact (d.succeeds_type (v := b.type) (hb ▸ h :)).map _
  case h_11 b hb => exact d.succeeds_implText (hb ▸ h)
  case h_16 b hb => exact (d.succeeds_type (v := b.type) (hb ▸ h :)).map _
  case h_17 b hb => exact d.succeeds_assocTypeText x (hb ▸ h)
  case h_18 => exact Succeeds.bind ⟨(), rfl⟩ fun _ => succeeds_pure _
  all_goals exact succeeds_pure _

theorem succeeds_render {x : Item} (h : x.payload.follows = true) : Succeeds (d.render x) := by
  obtain ⟨text, htext⟩ := succeeds_text hd h
  exact ⟨_, Noting.bind_eq_ok.2 ⟨_, Noting.withLinks_eq_ok.2 ⟨text, htext, rfl⟩, rfl⟩⟩

end

end Declaration

/-- The pages of a site can be written if its export follows the schema and has its root. -/
theorem Site.writable_of_followsSchema {s : Site} (hschema : s.source.FollowsSchema)
    (hroot : ∃ x, s.source.items.get? s.source.package.rootId = some x) : s.Writable where
  declares id y hy := Declaration.succeeds_render (d := s.declarations) hschema (hschema id y hy)
  root := hroot

end CrateBook
