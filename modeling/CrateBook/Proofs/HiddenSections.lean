import CrateBook.Page.Section
import CrateBook.Proofs.HiddenLinks

/-!
# Sections do not tell of a hidden item

Every other item has the section that it had when a hidden item is swapped. Declarations ask
which fields are public, and otherwise read only members that are shown with their item;
sections leave out the fields and methods that are not shown. So each writer does the same,
as long as it is not asked to write the item itself.
-/
namespace CrateBook

section

variable {m : Type → Type} [Monad m] [LawfulMonad m] {α β : Type} {as : List α}

theorem mapM_congr {f g : α → m β} (h : ∀ a ∈ as, f a = g a) : as.mapM f = as.mapM g := by
  induction as with
  | nil => rfl
  | cons a as ih =>
    rw [List.mapM_cons, List.mapM_cons, h a List.mem_cons_self,
      ih fun b hb => h b (List.mem_cons_of_mem a hb)]

omit [LawfulMonad m] in
theorem forM_congr {f g : α → m PUnit} (h : ∀ a ∈ as, f a = g a) :
    as.forM f = as.forM g := by
  induction as with
  | nil => rfl
  | cons a as ih =>
    have hcons (f : α → m PUnit) : (a :: as).forM f = f a >>= fun _ => as.forM f := rfl
    rw [hcons, hcons, h a List.mem_cons_self, ih fun b hb => h b (List.mem_cons_of_mem a hb)]

end

namespace Declaration

/-- Declarations made from an export with an item in the place of another one. -/
def replace (d : Declaration) (z : Item) : Declaration := { d with source := d.source.replace z }

variable {d : Declaration} {y z : Item} (h : d.source.Swap y z)
  (hpolicy : d.includePrivate = false)

include h

section

include hpolicy

theorem visible?_replace : (d.replace z).visible? = d.visible? := by
  funext id
  cases id with
  | none => rfl
  | some id =>
    have hvisible (d : Declaration) : d.visible? (some id) =
        (d.source.items.get? id).filter fun c => c.isIncluded d.includePrivate := rfl
    have hpolicy' : (d.replace z).includePrivate = false := hpolicy
    have hsource : (d.replace z).source = d.source.replace z := rfl
    rw [hvisible, hvisible, hpolicy, hpolicy', hsource]
    rcases h.get?_cases id with ⟨-, hget⟩ | ⟨-, hy, hz⟩
    · rw [hget]
    · rw [hy, hz, Option.filter_some, Option.filter_some, h.not_included.1, h.not_included.2]
      rfl

theorem structText_replace (c : Item) (b : StructBody) :
    (d.replace z).structText c b = d.structText c b := by
  have hvisible := visible?_replace h hpolicy
  have htuple : (d.replace z).tupleField? = d.tupleField? := by
    funext id
    rw [tupleField?, hvisible, tupleField?]
  unfold structText tupleFields namedFields
  rw [hvisible, htuple]
  rfl

end

theorem variantText_replace (c : Item) {b : VariantBody} (hb : some y.id ∉ b.fields) :
    (d.replace z).variantText c b = d.variantText c b := by
  have hfields : b.fields.map (d.replace z).source.find? = b.fields.map d.source.find? := by
    refine List.map_congr_left fun id hid => ?_
    cases id with
    | none => rfl
    | some id =>
      have hne : id ≠ y.id := fun heq => hb (heq ▸ hid)
      exact h.get?_of_ne hne
  unfold variantText
  rw [hfields]
  rfl

theorem variant?_replace (id : Id) : (d.replace z).variant? id = d.variant? id := by
  have hsource : (d.replace z).source = d.source.replace z := rfl
  unfold variant?
  rw [hsource]
  rcases h.get?_cases id with ⟨-, hget⟩ | ⟨-, hy, hz⟩
  · rw [hget]
  · have halike := h.alike.payload
    rw [hy, hz]
    dsimp only
    generalize y.payload = p at halike
    generalize z.payload = q at halike
    cases halike <;> rfl

theorem traitText_replace (c : Item) {b : TraitBody} (hb : y.id ∉ b.items) :
    (d.replace z).traitText c b = d.traitText c b := by
  have hmembers : (d.replace z).traitMembers b = d.traitMembers b := by
    refine List.filterMap_congr fun id hid => ?_
    have hne : id ≠ y.id := fun heq => hb (heq ▸ hid)
    have hget : (d.replace z).source.items.get? id = d.source.items.get? id := h.get?_of_ne hne
    rw [traitMember?, hget, traitMember?]
  unfold traitText
  rw [hmembers]
  rfl

variable (hunlisted : ∀ id c, d.source.items.get? id = some c → y.id ∉ c.sharedMembers)

include hunlisted

omit h in
theorem notMem_fields {id : Id} {c : Item} {b : VariantBody}
    (hc : d.source.items.get? id = some c) (hb : c.payload = .variant b) :
    some y.id ∉ b.fields := by
  intro hmem
  refine hunlisted id c hc ?_
  rw [Item.sharedMembers_variant hb]
  exact List.mem_filterMap.2 ⟨some y.id, hmem, rfl⟩

theorem enumText_replace (c : Item) (b : EnumBody) :
    (d.replace z).enumText c b = d.enumText c b := by
  have hvariants : (d.replace z).variants b = d.variants b :=
    List.filterMap_congr fun id _ => variant?_replace h id
  have hlines : (d.variants b).mapM (d.replace z).variantLine =
      (d.variants b).mapM d.variantLine := by
    refine mapM_congr fun v hv => ?_
    obtain ⟨id, -, hv⟩ := List.mem_filterMap.1 hv
    unfold variant? at hv
    split at hv
    · next e he =>
      split at hv
      · next vb hvb =>
        cases hv
        rw [variantLine, variantText_replace h _ (notMem_fields hunlisted he hvb), variantLine]
      · cases hv
    · cases hv
  unfold enumText
  rw [hvariants, hlines]
  rfl

/-- The declaration of any other item stays as it is. -/
theorem text_replace (hpolicy : d.includePrivate = false) {id : Id} {c : Item}
    (hc : d.source.items.get? id = some c) : (d.replace z).text c = d.text c := by
  unfold text
  cases hpayload : c.payload with
  | struct b => exact structText_replace h hpolicy c b
  | enum b => exact enumText_replace h hunlisted c b
  | variant b => exact variantText_replace h c (notMem_fields hunlisted hc hpayload)
  | trait b =>
    exact traitText_replace h c (Item.sharedMembers_trait hpayload ▸ hunlisted id c hc)
  | _ => rfl

theorem render_replace (hpolicy : d.includePrivate = false) {id : Id} {c : Item}
    (hc : d.source.items.get? id = some c) : (d.replace z).render c = d.render c := by
  rw [render, text_replace h hunlisted hpolicy hc, render]

end Declaration

namespace Site

namespace Swap

variable {s : Site} {y z : Item} (h : s.Swap y z)

include h

theorem declarations_replace : (s.replace z).declarations = s.declarations.replace z := by
  unfold declarations
  rw [h.types_replace]
  rfl

theorem linkedDocs_replace : (s.replace z).linkedDocs = s.linkedDocs := by
  funext c
  rw [linkedDocs, h.hrefOf_replace, linkedDocs]

theorem docsBlock_replace : (s.replace z).docsBlock = s.docsBlock := by
  funext c
  unfold docsBlock docs
  rw [h.linkedDocs_replace]

theorem summary_replace : (s.replace z).summary = s.summary := by
  funext c
  unfold summary
  rw [h.linkedDocs_replace]

theorem ask_replace : (s.replace z).ask = s.ask := by
  funext id title
  unfold ask
  rw [h.hrefOf_replace]

theorem linkTo_replace : (s.replace z).linkTo = s.linkTo := by
  funext id name
  unfold linkTo
  rw [h.ask_replace]

omit h in
theorem crumbs_replace (above path : List String) :
    (s.replace z).crumbs above path = s.crumbs above path := by
  induction path generalizing above with
  | nil => rfl
  | cons segment rest ih =>
    simp only [crumbs, ih]
    rfl

omit h in
theorem moduleLine_replace : (s.replace z).moduleLine = s.moduleLine := by
  funext path
  unfold moduleLine breadcrumb
  rw [crumbs_replace]

section

variable {id : Id} {c : Item} (hc : s.source.items.get? id = some c)

include hc

theorem render_replace : (s.replace z).declarations.render c = s.declarations.render c := by
  rw [h.declarations_replace]
  exact Declaration.render_replace h.items h.unlisted h.policy hc

theorem declaration_replace : (s.replace z).declaration c = s.declaration c := by
  unfold declaration
  rw [h.render_replace hc]

theorem declarationBlock_replace : (s.replace z).declarationBlock c = s.declarationBlock c := by
  unfold declarationBlock
  rw [h.declaration_replace hc]

theorem memberSection_replace (owner : Option String) (level : Int) (scope : Option String) :
    (s.replace z).memberSection owner level scope c = s.memberSection owner level scope c := by
  unfold memberSection
  rw [h.declarationBlock_replace hc, h.docsBlock_replace]

end

omit h in
/-- What is not shown has no row. -/
theorem fieldRow_of_hidden {owner : Option String} {id : Id} {c : Item}
    (hget : s.source.items.get? id = some c)
    (hhidden : s.source.showsMember s.options.includePrivate c.id = false) :
    s.fieldRow owner (some id) = pure none := by
  have hfind : s.source.find? (some id) = some c := hget
  unfold fieldRow
  rw [hfind]
  dsimp only
  rw [hhidden]
  split
  · exact if_neg Bool.false_ne_true
  · rfl

/-- The row of a field stays as it is, and the item has none. -/
theorem fieldRow_replace (owner : Option String) :
    (s.replace z).fieldRow owner = s.fieldRow owner := by
  funext id
  cases id with
  | none => rfl
  | some id =>
    rcases h.items.get?_cases id with ⟨-, hget⟩ | ⟨-, hy, hz⟩
    · have hfind : (s.replace z).source.find? (some id) = s.source.find? (some id) := hget
      unfold fieldRow
      rw [hfind, h.showsMember_replace, h.types_replace, h.summary_replace]
    · have hhidden : s.source.showsMember s.options.includePrivate y.id = false :=
        h.policy ▸ h.unshown
      rw [fieldRow_of_hidden hy hhidden]
      refine fieldRow_of_hidden hz ?_
      rw [h.showsMember_replace, h.items.alike.id, hhidden]

theorem fields_replace (owner : Option String) (level : Int) (b : StructBody) :
    (s.replace z).fields owner level b = s.fields owner level b := by
  unfold fields
  rw [h.fieldRow_replace]

theorem variantFieldTag_replace (anchor : String) {id : Option Id} (hid : id ≠ some y.id) :
    (s.replace z).variantFieldTag anchor id = s.variantFieldTag anchor id := by
  have hfind : (s.replace z).source.find? id = s.source.find? id := by
    cases id with
    | none => rfl
    | some id => exact h.items.get?_of_ne fun heq => hid (heq ▸ rfl)
  unfold variantFieldTag
  rw [hfind]

theorem variantRow_replace (owner : Option String) (id : Id) :
    (s.replace z).variantRow owner id = s.variantRow owner id := by
  unfold variantRow
  rcases h.items.get?_cases id with ⟨-, hget⟩ | ⟨-, hy, hz⟩
  · have hget : (s.replace z).source.items.get? id = s.source.items.get? id := hget
    rw [hget]
    cases hc : s.source.items.get? id with
    | none => rfl
    | some c =>
      dsimp only
      rw [h.declaration_replace hc, h.summary_replace]
      split
      · next b hb =>
        have htags (anchor : String) : b.fields.mapM ((s.replace z).variantFieldTag anchor) =
            b.fields.mapM (s.variantFieldTag anchor) := by
          refine mapM_congr fun f hf => h.variantFieldTag_replace anchor ?_
          rintro rfl
          exact Declaration.notMem_fields (d := s.declarations) h.unlisted hc hb hf
        simp only [htags]
      · rfl
  · have hz : (s.replace z).source.items.get? id = some z := hz
    have halike := h.items.alike.payload
    rw [hy, hz]
    dsimp only
    generalize y.payload = p at halike
    generalize z.payload = q at halike
    cases halike <;> rfl

theorem variants_replace (owner : Option String) (level : Int) (b : EnumBody) :
    (s.replace z).variants owner level b = s.variants owner level b := by
  have hrow : (s.replace z).variantRow owner = s.variantRow owner :=
    funext (h.variantRow_replace owner)
  unfold variants
  rw [hrow]

/-- Sections of items that an export holds stay as they are. -/
theorem memberGroup_replace (owner : Option String) (level : Int) (title : String)
    {cs : List Item} (hcs : ∀ c ∈ cs, ∃ id, s.source.items.get? id = some c) :
    (s.replace z).memberGroup owner level title cs = s.memberGroup owner level title cs := by
  have hsections : cs.forM ((s.replace z).memberSection owner (level + 1) none) =
      cs.forM (s.memberSection owner (level + 1) none) := by
    refine forM_congr fun c hc => ?_
    obtain ⟨id, hget⟩ := hcs c hc
    exact h.memberSection_replace hget _ _ _
  unfold memberGroup
  rw [hsections]

theorem filterMap_get?_replace {ids : List Id} (hids : y.id ∉ ids) :
    ids.filterMap (s.replace z).source.items.get? = ids.filterMap s.source.items.get? :=
  List.filterMap_congr fun _ hid => h.items.get?_of_ne fun heq => hids (heq ▸ hid)

theorem traitItems_replace (owner : Option String) (level : Int) {b : TraitBody}
    (hb : y.id ∉ b.items) :
    (s.replace z).traitItems owner level b = s.traitItems owner level b := by
  refine forM_congr fun title _ => ?_
  have hgroup : (s.replace z).traitGroup b title = s.traitGroup b title := by
    rw [traitGroup, h.filterMap_get?_replace hb, traitGroup]
  rw [hgroup]
  refine h.memberGroup_replace owner level title fun c hc => ?_
  obtain ⟨id, -, hget⟩ := List.mem_filterMap.1 (List.mem_filter.1 hc).1
  exact ⟨id, hget⟩

theorem implementor_replace (id : Id) : (s.replace z).implementor id = s.implementor id := by
  unfold implementor
  rcases h.items.payload?_cases id with ⟨-, hp⟩ | ⟨-, p, q, hpq, hp, hq⟩
  · have hp : (s.replace z).source.items.payload? id = s.source.items.payload? id := hp
    rw [hp, h.types_replace]
    rfl
  · have hq : (s.replace z).source.items.payload? id = some q := hq
    rw [hp, hq]
    cases hpq <;> rfl

theorem implementors_replace (level : Int) (b : TraitBody) :
    (s.replace z).implementors level b = s.implementors level b := by
  have himplementor : (s.replace z).implementor = s.implementor := funext h.implementor_replace
  unfold implementors
  rw [himplementor]

theorem marker_replace : (s.replace z).marker = s.marker := by
  funext t
  unfold marker
  rw [h.linkTo_replace]

/-- What a type shows of its implementations of traits stays as it is. -/
theorem traitImplSection_replace (owner : Option String) (level : Int) {typeId : Id}
    {t : TraitImpl} (ht : t ∈ (s.implsOf typeId).traitImpls) :
    (s.replace z).traitImplSection owner level t = s.traitImplSection owner level t := by
  rw [h.planned.sound.implsOf_eq] at ht
  obtain ⟨i, b, ⟨c, hc, hpayload⟩, -, htrait, rfl⟩ := Export.mem_traitImpls.1 ht
  have hne : i ≠ y.id := by
    refine h.items.ne_of_payload hc fun q hq => ?_
    rw [hpayload] at hq
    cases hq
  have hb : y.id ∉ (s.source.traitImpl i b).members := fun hmem =>
    (Item.sharedMembers_impl hpayload htrait ▸ h.unlisted i c hc)
      (Export.mem_implMembers.1 hmem).1
  have hget : (s.replace z).source.items.get? i = s.source.items.get? i := h.items.get?_of_ne hne
  have hsections : ((s.source.traitImpl i b).members.filterMap s.source.items.get?).forM
      ((s.replace z).memberSection owner (level + 2)
        (some (Layout.implScope (s.source.traitImpl i b).name))) =
      ((s.source.traitImpl i b).members.filterMap s.source.items.get?).forM
        (s.memberSection owner (level + 2)
          (some (Layout.implScope (s.source.traitImpl i b).name))) := by
    refine forM_congr fun m hm => ?_
    obtain ⟨id, -, hm⟩ := List.mem_filterMap.1 hm
    exact h.memberSection_replace hm _ _ _
  have himplId : (s.source.traitImpl i b).implId = i := rfl
  unfold traitImplSection
  rw [himplId, hget, hc]
  dsimp only
  rw [h.declarationBlock_replace hc, h.docsBlock_replace, h.filterMap_get?_replace hb, hsections]

theorem implementations_replace (owner : Option String) (level : Int) (c : Item) :
    (s.replace z).implementations owner level c = s.implementations owner level c := by
  have hshown : y.id ∉ (s.implsOf c.id).inherentMembers.filter
      (s.source.showsMember s.options.includePrivate) := fun hmem => by
    have hshows := (List.mem_filter.1 hmem).2
    rw [h.policy, h.unshown] at hshows
    exact absurd hshows (by decide)
  have hmethods (ids : List Id) :
      (s.replace z).memberGroup owner level "Methods" (ids.filterMap s.source.items.get?) =
        s.memberGroup owner level "Methods" (ids.filterMap s.source.items.get?) := by
    refine h.memberGroup_replace owner level "Methods" fun m hm => ?_
    obtain ⟨id, -, hm⟩ := List.mem_filterMap.1 hm
    exact ⟨id, hm⟩
  have hsections : ((s.implsOf c.id).traitImpls.filter fun t => !t.isMarker).forM
      ((s.replace z).traitImplSection owner level) =
      ((s.implsOf c.id).traitImpls.filter fun t => !t.isMarker).forM
        (s.traitImplSection owner level) :=
    forM_congr fun t ht => h.traitImplSection_replace owner level (List.mem_filter.1 ht).1
  -- Methods that are not shown are left out before any of them is looked up.
  unfold implementations
  simp only [h.implsOf_replace, h.showsMember_replace, h.filterMap_get?_replace hshown,
    h.marker_replace, hmethods, hsections]

section

variable {id : Id} {c : Item} (hc : s.source.items.get? id = some c)

include hc

theorem sectionParts_replace (anchor : Option String) (level : Int) :
    (s.replace z).sectionParts anchor level c = s.sectionParts anchor level c := by
  unfold sectionParts
  cases hpayload : c.payload with
  | struct b => exact h.fields_replace anchor level b
  | enum b =>
    dsimp only
    rw [h.variants_replace]
  | trait b =>
    have hb : y.id ∉ b.items := Item.sharedMembers_trait hpayload ▸ h.unlisted id c hc
    dsimp only
    rw [h.traitItems_replace anchor level hb, h.implementors_replace]
  | _ => rfl

/-- The section of any other item stays as it is. -/
theorem itemSection_replace (level : Int) (anchor : Option String) :
    (s.replace z).itemSection level anchor c = s.itemSection level anchor c := by
  unfold itemSection
  rw [h.declarationBlock_replace hc, h.docsBlock_replace, h.sectionParts_replace hc,
    h.implementations_replace]

end

end Swap

end Site

end CrateBook
