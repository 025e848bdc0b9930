import CrateBook.Proofs.MemberLinks
import CrateBook.Proofs.Slugs

/-!
# Members that share an anchor

Behind the words of its owner's anchor, the anchor of a member has a label: the words of the
variant or of the trait that it belongs to, of its kind and of its name. Two members of one
section share their anchor if they have one label. Members that the same item lists do not,
as long as slugs tell their names apart. What different items list may: two blocks that both
implement a trait, or both do not, and the variants of an enum with their fields.
-/
namespace CrateBook

/-- The payloads of members, and of the items that list them, tell their kinds. -/
def Export.TellsKinds (x : Export) : Prop :=
  ∀ id y kind, x.items.get? id = some y → y.payload.kind? = some kind → y.kind = kind

/-- The kind of an item, where its payload tells it. -/
theorem Export.TellsKinds.kind {x : Export} (h : x.TellsKinds) {id : Id} {y : Item}
    (hy : x.items.get? id = some y) {p : Payload} (hp : y.payload = p) {kind : String}
    (hkind : p.kind? = some kind) : y.kind = kind :=
  h id y kind hy (hp ▸ hkind)

namespace Site

section

variable (s : Site)

/-- The section of an item shows a member that is listed by the item itself, by a variant of
it or by a block for it. -/
inductive ShowsFrom (x : Item) : Item → Item → Prop
  | field {b : StructBody} {m : Id} {z : Item} {t : Value} (hx : x.payload = .struct b)
      (hm : some m ∈ b.fields) (hz : s.source.items.get? m = some z)
      (ht : z.payload = .structField t)
      (hshown : s.source.showsMember s.options.includePrivate m = true) : ShowsFrom x x z
  | variant {b : EnumBody} {v : Id} {z : Item} {body : VariantBody} (hx : x.payload = .enum b)
      (hv : v ∈ b.variants) (hz : s.source.items.get? v = some z)
      (hbody : z.payload = .variant body) : ShowsFrom x x z
  | variantField {b : EnumBody} {v m : Id} {y z : Item} {body : VariantBody} {name : String}
      (hx : x.payload = .enum b) (hv : v ∈ b.variants) (hy : s.source.items.get? v = some y)
      (hbody : y.payload = .variant body) (hshape : body.shape = "struct")
      (hm : some m ∈ body.fields) (hz : s.source.items.get? m = some z)
      (hname : z.name = some name) : ShowsFrom x y z
  | traitItem {b : TraitBody} {m : Id} {z : Item} (hx : x.payload = .trait b)
      (hm : m ∈ b.items) (hz : s.source.items.get? m = some z)
      (hassoc : z.payload.isAssociated = true) : ShowsFrom x x z
  | blockItem {i m : Id} {b : ImplBody} {y z : Item} (hkind : implKinds.contains x.kind = true)
      (hy : s.source.items.get? i = some y) (hb : y.payload = .impl b)
      (hshows : s.source.ShowsBlock s.options.noiseTraits x.id b)
      (hm : m ∈ b.items) (hz : s.source.items.get? m = some z)
      (hassoc : z.payload.isAssociated = true)
      (hshown : b.traitRef = none →
        s.source.showsMember s.options.includePrivate m = true) : ShowsFrom x y z

/-- The anchor below which a member stands that an item lists. -/
def ownerFrom (anchor : Option String) (c : Item) : Option String :=
  match c.payload with
  | .variant _ => some (memberAnchor anchor c c.displayName none)
  | _ => anchor

/-- The trait that a member belongs to that an item lists. -/
def scopeFrom (c : Item) : Option String :=
  match c.payload with
  | .impl b => if b.traitRef.isSome then some (Layout.implScope (s.source.traitName b)) else none
  | _ => none

/-- The anchor of a member that an item lists, in a section with an anchor of its own. -/
def anchorFrom (anchor : Option String) (c z : Item) : String :=
  memberAnchor (ownerFrom anchor c) z z.displayName (s.scopeFrom c)

/-- The words by which a label tells what lists the member: a variant, or a block for a trait. -/
def scopeWords (c : Item) : List (List Char) :=
  match c.payload with
  | .variant _ => Layout.memberWords none c.kind c.displayName none
  | .impl b =>
    if b.traitRef.isSome then Markdown.slugWords (Layout.implScope (s.source.traitName b)) else []
  | _ => []

/-- The label of a member that an item lists. -/
def labelWords (c z : Item) : List (List Char) :=
  s.scopeWords c ++ Layout.memberWords none z.kind z.displayName none

/-- Slugs tell apart the names of members that one item lists, for each kind of them. -/
def NamesApart (x : Item) : Prop :=
  ∀ c z z', s.ShowsFrom x c z → s.ShowsFrom x c z' → z.kind = z'.kind →
    Markdown.headerSlug z.displayName = Markdown.headerSlug z'.displayName → z = z'

/-- Two members with one label may stand in one section, though slugs tell apart the names of
those that one item lists. -/
inductive Meets (x c z c' z' : Item) : Prop
  | blocks {b b' : ImplBody} (hb : c.payload = .impl b) (hb' : c'.payload = .impl b')
      (hne : c ≠ c') (htrait : b.traitRef.isSome = b'.traitRef.isSome)
  | variants {b : EnumBody} (hx : x.payload = .enum b)
      (hvariant : (∃ v, c.payload = .variant v) ∨ ∃ v, c'.payload = .variant v)
      (hdiffer : c = c' → z.kind ≠ z'.kind)

end

section

variable {s : Site} {x : Item} {anchor : Option String}

/-- The members of a section with their anchors, by the items that list them. -/
theorem shows_iff {m : Id} {a : String} : s.Shows x anchor m a ↔
    ∃ c z, s.ShowsFrom x c z ∧ z.id = m ∧ s.anchorFrom anchor c z = a := by
  constructor
  · intro h
    cases h with
    | field hx hm hz ht hshown =>
      exact ⟨x, _, .field hx hm hz ht hshown, Items.id_of_get? hz, by
        simp only [anchorFrom, ownerFrom, scopeFrom, hx]⟩
    | variant hx hv hz hbody =>
      exact ⟨x, _, .variant hx hv hz hbody, Items.id_of_get? hz, by
        simp only [anchorFrom, ownerFrom, scopeFrom, hx]⟩
    | variantField hx hv hy hbody hshape hm hz hname =>
      exact ⟨_, _, .variantField hx hv hy hbody hshape hm hz hname, Items.id_of_get? hz, by
        simp only [anchorFrom, ownerFrom, scopeFrom, hbody, Item.displayName, hname,
          Option.getD_some]⟩
    | traitItem hx hm hz hassoc =>
      exact ⟨x, _, .traitItem hx hm hz hassoc, Items.id_of_get? hz, by
        simp only [anchorFrom, ownerFrom, scopeFrom, hx]⟩
    | inherent hkind hblock hshows htrait hm hz hassoc hshown =>
      obtain ⟨y, hy, hb⟩ := hblock
      exact ⟨y, _, .blockItem hkind hy hb hshows hm hz hassoc fun _ => hshown,
        Items.id_of_get? hz, by simp [anchorFrom, ownerFrom, scopeFrom, hb, htrait]⟩
    | implemented hkind hblock hshows htrait hm hz hassoc =>
      obtain ⟨y, hy, hb⟩ := hblock
      exact ⟨y, _, .blockItem hkind hy hb hshows hm hz hassoc fun hnone => absurd hnone htrait,
        Items.id_of_get? hz, by
          simp [anchorFrom, ownerFrom, scopeFrom, hb, Option.isSome_iff_ne_none.2 htrait]⟩
  · rintro ⟨c, z, h, rfl, rfl⟩
    cases h with
    | field hx hm hz ht hshown =>
      obtain rfl := Items.id_of_get? hz
      simp only [anchorFrom, ownerFrom, scopeFrom, hx]
      exact .field hx hm hz ht hshown
    | variant hx hv hz hbody =>
      obtain rfl := Items.id_of_get? hz
      simp only [anchorFrom, ownerFrom, scopeFrom, hx]
      exact .variant hx hv hz hbody
    | variantField hx hv hy hbody hshape hm hz hname =>
      obtain rfl := Items.id_of_get? hz
      simp only [anchorFrom, ownerFrom, scopeFrom, hbody, Item.displayName, hname,
        Option.getD_some]
      exact .variantField hx hv hy hbody hshape hm hz hname
    | traitItem hx hm hz hassoc =>
      obtain rfl := Items.id_of_get? hz
      simp only [anchorFrom, ownerFrom, scopeFrom, hx]
      exact .traitItem hx hm hz hassoc
    | @blockItem i m b y z hkind hy hb hshows hm hz hassoc hshown =>
      obtain rfl := Items.id_of_get? hz
      simp only [anchorFrom, ownerFrom, scopeFrom, hb]
      split
      · next htrait =>
        exact .implemented hkind ⟨_, hy, hb⟩ hshows (Option.isSome_iff_ne_none.1 htrait) hm hz
          hassoc
      · next htrait =>
        have hnone : b.traitRef = none := by simpa using htrait
        exact .inherent hkind ⟨_, hy, hb⟩ hshows hnone hm hz hassoc (hshown hnone)

/-- What is listed is held under its id. -/
theorem ShowsFrom.held {c z : Item} (h : s.ShowsFrom x c z) :
    s.source.items.get? z.id = some z := by
  cases h with
  | field _ _ hz | variant _ _ hz | variantField _ _ _ _ _ _ hz | traitItem _ _ hz
  | blockItem _ _ _ _ _ hz => exact Items.id_of_get? hz ▸ hz

/-- An item that lists a member without being a block is that of the section, or a variant
of it. -/
theorem ShowsFrom.lister {c z : Item} (h : s.ShowsFrom x c z) (hc : ∀ b, c.payload ≠ .impl b) :
    c = x ∧ (∀ v, c.payload ≠ .variant v) ∨
      ∃ b v, x.payload = .enum b ∧ c.payload = .variant v := by
  cases h with
  | field hx | variant hx | traitItem hx => exact .inl ⟨rfl, by simp [hx]⟩
  | variantField hx _ _ hbody => exact .inr ⟨_, _, hx, hbody⟩
  | blockItem _ _ hb => exact absurd hb (hc _)

/-- A block lists associated items, on an item of a kind that has blocks. -/
theorem ShowsFrom.of_block {c z : Item} {b : ImplBody} (h : s.ShowsFrom x c z)
    (hb : c.payload = .impl b) :
    implKinds.contains x.kind = true ∧ z.payload.isAssociated = true := by
  cases h with
  | field hx | variant hx | traitItem hx => simp [hb] at hx
  | variantField _ _ _ hbody => simp [hb] at hbody
  | blockItem hkind _ _ _ _ _ hassoc => exact ⟨hkind, hassoc⟩

/-- Of the members that one item lists, two of one kind with one label are the same. -/
theorem NamesApart.eq {c z z' : Item} (hnames : s.NamesApart x) (h : s.ShowsFrom x c z)
    (h' : s.ShowsFrom x c z') (hkind : z.kind = z'.kind)
    (hlabel : s.labelWords c z = s.labelWords c z') : z = z' := by
  rw [labelWords, labelWords, List.append_cancel_left_eq, Layout.memberWords, Layout.memberWords,
    hkind, List.append_cancel_left_eq, List.append_cancel_left_eq, List.append_cancel_left_eq]
    at hlabel
  exact hnames c z z' h h' hkind (Markdown.headerSlug_congr hlabel)

section

variable (hkinds : s.source.TellsKinds)

include hkinds

theorem memberWord_of_isAssociated {m : Id} {z : Item} (hz : s.source.items.get? m = some z)
    (hassoc : z.payload.isAssociated = true) : z.kind ∈ Layout.memberPrefixes.map Prod.fst ∧
      Layout.memberWord z.kind ∈ ["method", "const", "type"] := by
  have hall : ∀ k ∈ ["function", "assoc_const", "assoc_type"],
      k ∈ Layout.memberPrefixes.map Prod.fst ∧
        Layout.memberWord k ∈ ["method", "const", "type"] := by decide +kernel
  refine hall _ ?_
  cases hpayload : z.payload with
  | function | assocConst | assocType => simp [hkinds.kind hz hpayload rfl]
  | _ =>
    rw [hpayload] at hassoc
    cases hassoc

theorem memberWords_variant {m : Id} {c : Item} (hc : s.source.items.get? m = some c)
    {v : VariantBody} (hv : c.payload = .variant v) (name : String) :
    Layout.memberWords none c.kind name none = "variant".toList :: Markdown.slugWords name := by
  have hword : Layout.memberWord "variant" = "variant" := by decide
  rw [hkinds.kind hc hv rfl, Layout.memberWords_of_mem (by decide), hword]

/-- The kind of a member is one that anchors have a word for, fields of variants apart. -/
theorem ShowsFrom.kind {c z : Item} (h : s.ShowsFrom x c z) (hc : ∀ v, c.payload ≠ .variant v) :
    z.kind ∈ Layout.memberPrefixes.map Prod.fst := by
  cases h with
  | field _ _ hz ht => simp [hkinds.kind hz ht rfl, Layout.memberPrefixes]
  | variant _ _ hz hbody => simp [hkinds.kind hz hbody rfl, Layout.memberPrefixes]
  | variantField _ _ _ hbody => exact absurd hbody (hc _)
  | traitItem _ _ hz hassoc => exact (memberWord_of_isAssociated hkinds hz hassoc).1
  | blockItem _ _ _ _ _ hz hassoc => exact (memberWord_of_isAssociated hkinds hz hassoc).1

theorem ShowsFrom.labelWords_ne_nil {c z : Item} (h : s.ShowsFrom x c z) :
    s.labelWords c z ≠ [] := by
  by_cases hc : ∃ v, c.payload = .variant v
  · cases h with
    | variantField _ _ hy hbody =>
      simp [labelWords, scopeWords, hbody, memberWords_variant hkinds hy hbody]
    | field hx | variant hx | traitItem hx => simp [hx] at hc
    | blockItem _ _ hb => simp [hb] at hc
  · rw [not_exists] at hc
    rw [labelWords, Layout.memberWords_of_mem (h.kind hkinds hc)]
    exact List.append_ne_nil_of_right_ne_nil _ (List.cons_ne_nil _ _)

/-- The words of a member's anchor are those of the section's own, and its label. -/
theorem ShowsFrom.memberWords {c z : Item} (h : s.ShowsFrom x c z) (anchor : Option String) :
    Layout.memberWords (ownerFrom anchor c) z.kind z.displayName (s.scopeFrom c) =
      Markdown.slugWords (anchor.getD "") ++ s.labelWords c z := by
  rw [Layout.memberWords_eq, labelWords]
  cases h with
  | field hx | variant hx | traitItem hx =>
    simp [ownerFrom, scopeFrom, scopeWords, hx, Markdown.slugWords_empty]
  | variantField _ _ hy hbody =>
    have hne : Layout.memberWords anchor c.kind c.displayName none ≠ [] := by
      rw [Layout.memberWords_eq, memberWords_variant hkinds hy hbody]
      simp
    simp only [ownerFrom, scopeFrom, scopeWords, hbody, Option.getD_some, Option.getD_none]
    rw [memberAnchor, Layout.slugWords_memberAnchor hne, Layout.memberWords_eq]
    simp [Markdown.slugWords_empty]
  | blockItem _ _ hb =>
    simp only [ownerFrom, scopeFrom, scopeWords, hb]
    split <;> simp [Markdown.slugWords_empty]

/-- Anchors in a section are equal if the labels are. -/
theorem anchorFrom_inj {c z c' z' : Item} (h : s.ShowsFrom x c z) (h' : s.ShowsFrom x c' z') :
    s.anchorFrom anchor c z = s.anchorFrom anchor c' z' ↔
      s.labelWords c z = s.labelWords c' z' := by
  have hwords := h.memberWords hkinds anchor
  have hwords' := h'.memberWords hkinds anchor
  rw [anchorFrom, anchorFrom, memberAnchor, memberAnchor, Layout.memberAnchor_inj, hwords, hwords',
    List.append_cancel_left_eq]
  · rw [hwords]
    exact List.append_ne_nil_of_right_ne_nil _ (h.labelWords_ne_nil hkinds)
  · rw [hwords']
    exact List.append_ne_nil_of_right_ne_nil _ (h'.labelWords_ne_nil hkinds)

/-- The anchor of a section is not that of a member. -/
theorem anchorFrom_ne_own {c z : Item} (h : s.ShowsFrom x c z) :
    anchor ≠ some (s.anchorFrom anchor c z) := by
  intro hown
  have hwords := h.memberWords hkinds anchor
  have hlabel := h.labelWords_ne_nil hkinds
  have hanchor : Markdown.slugWords (s.anchorFrom anchor c z) =
      Markdown.slugWords (anchor.getD "") ++ s.labelWords c z := by
    rw [anchorFrom, memberAnchor, Layout.slugWords_memberAnchor, hwords]
    rw [hwords]
    exact List.append_ne_nil_of_right_ne_nil _ hlabel
  have hsame := congrArg (fun a => a.getD "") hown
  simp only [Option.getD_some] at hsame
  rw [hsame] at hanchor
  exact hlabel (List.self_eq_append_right.1 hanchor)

/-- Of the members that one item lists, variants apart, two with one label are of one kind. -/
theorem kind_of_labelWords {c z z' : Item} (h : s.ShowsFrom x c z) (h' : s.ShowsFrom x c z')
    (hc : ∀ v, c.payload ≠ .variant v) (hlabel : s.labelWords c z = s.labelWords c z') :
    z.kind = z'.kind := by
  rw [labelWords, labelWords, List.append_cancel_left_eq,
    Layout.memberWords_of_mem (h.kind hkinds hc), Layout.memberWords_of_mem (h'.kind hkinds hc)]
    at hlabel
  exact Layout.eq_of_memberWord (h.kind hkinds hc) (h'.kind hkinds hc) (List.cons.inj hlabel).1

/-- The label of a member of a block starts with the word for traits, or, if the block has no
trait, with one for the kind of the member. -/
theorem ShowsFrom.label_of_block {c z : Item} {b : ImplBody} (h : s.ShowsFrom x c z)
    (hb : c.payload = .impl b) : ∃ w ws, s.labelWords c z = w :: ws ∧
      w ∉ ["field".toList, "variant".toList] ∧ (w = "impl".toList ↔ b.traitRef.isSome = true) := by
  have hwords : ∀ w ∈ ["method", "const", "type"],
      w.toList ∉ ["field".toList, "variant".toList] ∧ w.toList ≠ "impl".toList := by decide
  obtain ⟨hkind, hword⟩ := memberWord_of_isAssociated hkinds h.held (h.of_block hb).2
  obtain ⟨hother, hne⟩ := hwords _ hword
  rw [labelWords, scopeWords, hb, Layout.memberWords_of_mem hkind]
  dsimp only
  split
  · next htrait =>
    rw [Layout.slugWords_implScope, List.cons_append]
    exact ⟨_, _, rfl, by decide, fun _ => htrait, fun _ => rfl⟩
  · next htrait =>
    exact ⟨_, _, rfl, hother, fun himpl => absurd himpl hne, fun hsome => absurd hsome htrait⟩

/-- On an item that has blocks, the label of another member starts with a word for fields or
for variants. -/
theorem ShowsFrom.label_of_own {c z : Item} (h : s.ShowsFrom x c z) {id : Id}
    (hx : s.source.items.get? id = some x) (hkind : implKinds.contains x.kind = true)
    (hc : ∀ b, c.payload ≠ .impl b) : ∃ w ws, s.labelWords c z = w :: ws ∧
      w ∈ ["field".toList, "variant".toList] := by
  cases h with
  | field hpayload _ hz ht =>
    refine ⟨"field".toList, Markdown.slugWords z.displayName, ?_, by simp⟩
    have hword : Layout.memberWord "struct_field" = "field" := by decide
    rw [labelWords, scopeWords, hpayload]
    dsimp only
    rw [List.nil_append, hkinds.kind hz ht rfl, Layout.memberWords_of_mem (by decide), hword]
  | variant hpayload _ hz hbody =>
    refine ⟨"variant".toList, Markdown.slugWords z.displayName, ?_, by simp⟩
    rw [labelWords, scopeWords, hpayload]
    dsimp only
    rw [List.nil_append, memberWords_variant hkinds hz hbody]
  | variantField _ _ hy hbody =>
    refine ⟨"variant".toList, Markdown.slugWords c.displayName ++
      Layout.memberWords none z.kind z.displayName none, ?_, by simp⟩
    rw [labelWords, scopeWords, hbody]
    dsimp only
    rw [memberWords_variant hkinds hy hbody, List.cons_append]
  | traitItem hpayload =>
    rw [hkinds.kind hx hpayload rfl] at hkind
    exact absurd hkind (by decide)
  | blockItem _ _ hb => exact absurd hb (hc _)

/-- Members of blocks share no label with other members. -/
theorem labelWords_ne {c z c' z' : Item} {b : ImplBody} {id : Id}
    (hx : s.source.items.get? id = some x) (h : s.ShowsFrom x c z) (hb : c.payload = .impl b)
    (h' : s.ShowsFrom x c' z') (hc : ∀ b, c'.payload ≠ .impl b) :
    s.labelWords c z ≠ s.labelWords c' z' := by
  obtain ⟨w, ws, hlabel, hother, -⟩ := h.label_of_block hkinds hb
  obtain ⟨w', ws', hlabel', hown⟩ := h'.label_of_own hkinds hx (h.of_block hb).1 hc
  intro heq
  rw [hlabel, hlabel'] at heq
  exact hother ((List.cons.inj heq).1 ▸ hown)

/-- Where members of one section have one label, though slugs tell apart the names of those
that one item lists. -/
theorem NamesApart.meets (hnames : s.NamesApart x) {id : Id}
    (hx : s.source.items.get? id = some x) {c z c' z' : Item} (h : s.ShowsFrom x c z)
    (h' : s.ShowsFrom x c' z') (hne : z ≠ z') (hlabel : s.labelWords c z = s.labelWords c' z') :
    Meets x c z c' z' := by
  have hlister (hc : ∀ v, c.payload ≠ .variant v) : c ≠ c' := by
    rintro rfl
    exact hne (hnames.eq h h' (kind_of_labelWords hkinds h h' hc hlabel) hlabel)
  have hdiffer : c = c' → z.kind ≠ z'.kind := by
    rintro rfl hkind
    exact hne (hnames.eq h h' hkind hlabel)
  -- Labels of blocks start with other words than those of the rest, and with "impl" for traits.
  by_cases hb : ∃ b, c.payload = .impl b <;> by_cases hb' : ∃ b, c'.payload = .impl b
  · obtain ⟨b, hb⟩ := hb
    obtain ⟨b', hb'⟩ := hb'
    obtain ⟨w, ws, hw, -, htrait⟩ := h.label_of_block hkinds hb
    obtain ⟨w', ws', hw', -, htrait'⟩ := h'.label_of_block hkinds hb'
    rw [hw, hw'] at hlabel
    rw [(List.cons.inj hlabel).1] at htrait
    exact .blocks hb hb' (hlister (by simp [hb])) (Bool.eq_iff_iff.2 (htrait.symm.trans htrait'))
  · obtain ⟨b, hb⟩ := hb
    exact absurd hlabel (labelWords_ne hkinds hx h hb h' (not_exists.1 hb'))
  · obtain ⟨b', hb'⟩ := hb'
    exact absurd hlabel.symm (labelWords_ne hkinds hx h' hb' h (not_exists.1 hb))
  · -- No block: one of the two is a variant, as both cannot be the item of the section.
    rcases h.lister (not_exists.1 hb) with ⟨rfl, hc⟩ | ⟨b, v, henum, hv⟩
    · rcases h'.lister (not_exists.1 hb') with ⟨rfl, -⟩ | ⟨b, v, henum, hv⟩
      · exact absurd rfl (hlister hc)
      · exact .variants henum (.inr ⟨v, hv⟩) hdiffer
    · exact .variants henum (.inl ⟨v, hv⟩) hdiffer

end

end

/-- When two members of the section of a placed item share their anchor, with what the anchor is
good for: it is not that of the section, and a page that was written has its tag. -/
structure SharesAnchors (s : Site) (id : Id) (x : Item) : Prop where
  shared : ∀ m m', m ≠ m' → ((∃ a, s.Shows x (s.layout.anchorFor id) m a ∧
      s.Shows x (s.layout.anchorFor id) m' a) ↔
    ∃ c z c' z', s.ShowsFrom x c z ∧ s.ShowsFrom x c' z' ∧ z.id = m ∧ z'.id = m' ∧
      Meets x c z c' z' ∧ s.labelWords c z = s.labelWords c' z')
  own : ∀ m a, s.Shows x (s.layout.anchorFor id) m a → s.layout.anchorFor id ≠ some a
  tagged : ∀ plan, s.layout.fileFor id = some plan → ∀ d, (s.document plan).result = .ok d →
    ∀ m a, s.Shows x (s.layout.anchorFor id) m a → .member m a ∈ (s.document plan).notes ∧
      Text.occursIn (Page.anchorTag a) d.body = true

section

variable {s : Site} (h : s.Planned)

include h

/-- A page that was written notes what the sections of its items show. -/
theorem Planned.mem_notes_of_document {id : Id} {x : Item} {plan : FilePlan PageKind} {m : Id}
    {a : String} (hplaced : s.Placed id) (hx : s.source.items.get? id = some x)
    (hfile : s.layout.fileFor id = some plan) {d : Document}
    (hd : (s.document plan).result = .ok d) (hm : s.Shows x (s.layout.anchorFor id) m a) :
    .member m a ∈ (s.document plan).notes := by
  obtain ⟨plan', p, hfile', hp, hprim, rfl⟩ := h.exists_page hplaced
  obtain rfl := Option.some.inj (hfile.symm.trans hfile')
  have hplan := h.mem_files_of_fileFor hfile
  have hmark : .member m a ∈ s.placementMarks p := by
    unfold placementMarks
    rw [if_pos hprim, hx]
    exact List.mem_cons_of_mem _ ((mem_memberMarks h.sound).2 hm)
  have hmarks := (h.perm_pageMarks hplan).mem_iff.2 (List.mem_flatMap.2 ⟨p, hp, hmark⟩)
  rw [← (h.leaves_document hplan).all d hd] at hmarks
  exact (List.mem_filter.1 hmarks).1

theorem Planned.sharesAnchors (hkinds : s.source.TellsKinds) {id : Id} {x : Item}
    (hplaced : s.Placed id) (hx : s.source.items.get? id = some x) (hnames : s.NamesApart x) :
    s.SharesAnchors id x where
  shared := by
    intro m m' hne
    constructor
    · rintro ⟨a, hm, hm'⟩
      obtain ⟨c, z, hz, rfl, ha⟩ := shows_iff.1 hm
      obtain ⟨c', z', hz', rfl, ha'⟩ := shows_iff.1 hm'
      have hlabel := (anchorFrom_inj hkinds hz hz').1 (ha.trans ha'.symm)
      have hitems : z ≠ z' := fun heq => hne (heq ▸ rfl)
      exact ⟨c, z, c', z', hz, hz', rfl, rfl, hnames.meets hkinds hx hz hz' hitems hlabel, hlabel⟩
    · rintro ⟨c, z, c', z', hz, hz', rfl, rfl, -, hlabel⟩
      exact ⟨_, shows_iff.2 ⟨c, z, hz, rfl, rfl⟩,
        shows_iff.2 ⟨c', z', hz', rfl, ((anchorFrom_inj hkinds hz hz').2 hlabel).symm⟩⟩
  own := by
    intro m a hm
    obtain ⟨c, z, hz, -, rfl⟩ := shows_iff.1 hm
    exact anchorFrom_ne_own hkinds hz
  tagged := by
    intro plan hfile d hd m a hm
    obtain ⟨hdefined, htag⟩ := h.anchors_of_document (h.mem_files_of_fileFor hfile) hd (a := a)
    exact ⟨h.mem_notes_of_document hplaced hx hfile hd hm,
      htag (hdefined.2 ⟨m, h.anchored_of_shows hplaced hx hfile hm⟩)⟩

end

/-- **Shared anchors.** On the site of an export, two members of one section share their anchor
just where what lists them may give them one label, and does. -/
theorem sharesAnchors_of_plan {text : String} {x : Export} {o : Options} {s : Site}
    (hx : Export.parse text = .ok x) (h : Site.plan x o = .ok s) {id : Id} {y : Item}
    (hplaced : s.Placed id) (hy : x.items.get? id = some y) (hnames : s.NamesApart y) :
    s.SharesAnchors id y := by
  obtain ⟨rfl, -, hplanned⟩ := planned_of_plan h
  exact hplanned.sharesAnchors (fun _ _ _ hz hkind => Export.kind_of_parse hx hz hkind) hplaced hy
    hnames

section

variable {s : Site} {x : Item}

/-- What the section of an item shows is listed by the item or by another one that is known. -/
theorem ShowsFrom.lists {c z : Item} {id : Id} (hx : s.source.items.get? id = some x)
    (h : s.ShowsFrom x c z) : s.source.items.get? c.id = some c ∧
      ∃ o, Export.Lists c o z.id := by
  cases h with
  | field hb hm hz =>
    obtain rfl := Items.id_of_get? hz
    exact ⟨Items.id_of_get? hx ▸ hx, _, Export.lists_field hb hm⟩
  | variant hb hv hz =>
    obtain rfl := Items.id_of_get? hz
    exact ⟨Items.id_of_get? hx ▸ hx, _, Export.lists_variant hb hv⟩
  | variantField _ _ hy hbody _ hm hz =>
    obtain rfl := Items.id_of_get? hz
    exact ⟨Items.id_of_get? hy ▸ hy, _, Export.lists_variantField hbody hm⟩
  | traitItem hb hm hz =>
    obtain rfl := Items.id_of_get? hz
    exact ⟨Items.id_of_get? hx ▸ hx, _, Export.lists_traitItem hb hm⟩
  | blockItem _ hy hb hshows hm hz =>
    obtain rfl := Items.id_of_get? hz
    exact ⟨Items.id_of_get? hy ▸ hy, _, Export.lists_block hb hshows.1 hm⟩

/-- Where no item lists two members, slugs have nothing to tell apart. -/
theorem namesApart_of_lists (id : Id) (hx : s.source.items.get? id = some x)
    (h : ∀ y ∈ s.source.items.toList, ∀ o p m m', Export.Lists y o m → Export.Lists y p m' →
      m = m') : s.NamesApart x := by
  intro c z z' hz hz' _ _
  obtain ⟨hc, o, hlists⟩ := hz.lists hx
  obtain ⟨-, p, hlists'⟩ := hz'.lists hx
  have hid := h c (Items.mem_toList.2 hc) o p z.id z'.id hlists hlists'
  exact Option.some.inj (hz.held.symm.trans (hid ▸ hz'.held))

end

/-- In the crate of conversions, no item lists two members. -/
theorem eq_of_lists_castExport : ∀ y ∈ castExport.items.toList, ∀ o p m m',
    Export.Lists y o m → Export.Lists y p m' → m = m' := by
  have hall : (castExport.items.toList.all fun y => (Export.membership y).toOption.all fun r =>
      r.2.all fun m => r.2.all fun m' => m == m') = true := by decide +kernel
  intro y hy o p m m' ⟨ms, hms, hm⟩ ⟨ms', hms', hm'⟩
  rw [hms] at hms'
  obtain ⟨rfl, rfl⟩ := Prod.mk.inj (Except.ok.inj hms')
  have hlisted := List.all_eq_true.1 hall y hy
  rw [hms] at hlisted
  exact beq_iff_eq.1 (List.all_eq_true.1 (List.all_eq_true.1 hlisted m hm) m' hm')

theorem namesApart_castStruct : (castSite {}).NamesApart castStruct :=
  namesApart_of_lists "1" rfl eq_of_lists_castExport

/-- The methods of two conversions are listed by two blocks, and have one label. -/
theorem sharesAnchors_of_plan_cast : Export.parse castText = .ok castExport ∧
    Site.plan castExport {} = .ok (castSite {}) ∧ (castSite {}).Placed "1" ∧
    castExport.items.get? "1" = some castStruct ∧ (castSite {}).NamesApart castStruct ∧
    ∃ c z c' z', (castSite {}).ShowsFrom castStruct c z ∧
      (castSite {}).ShowsFrom castStruct c' z' ∧ z.id = "4" ∧ z'.id = "6" ∧
      Meets castStruct c z c' z' ∧
      (castSite {}).labelWords c z = (castSite {}).labelWords c' z' := by
  have hshares := sharesAnchors_of_plan parse_castText plan_castExport placed_castSite
    (y := castStruct) rfl namesApart_castStruct
  have hfirst := shows_castMethod (i := "3") (m := "4") rfl rfl
  have hsecond := shows_castMethod (i := "5") (m := "6") rfl rfl
  exact ⟨parse_castText, plan_castExport, placed_castSite, rfl, namesApart_castStruct,
    (hshares.shared "4" "6" (by decide)).1 ⟨_, hfirst, hsecond⟩⟩

/-- The members of a section have anchors of their own. -/
def AnchorsDiffer (s : Site) (id : Id) (x : Item) : Prop :=
  ∀ m m' a, s.Shows x (s.layout.anchorFor id) m a → s.Shows x (s.layout.anchorFor id) m' a → m = m'

/-- Two conversions into one struct have methods with one anchor, though no item lists two
members. -/
theorem not_anchorsDiffer_cast : Export.parse castText = .ok castExport ∧
    Site.plan castExport {} = .ok (castSite {}) ∧ (castSite {}).Placed "1" ∧
    castExport.items.get? "1" = some castStruct ∧
    (∀ y ∈ castExport.items.toList, ∀ o p m m', Export.Lists y o m → Export.Lists y p m' →
      m = m') ∧
    (castSite {}).NamesApart castStruct ∧ ¬ (castSite {}).AnchorsDiffer "1" castStruct := by
  refine ⟨parse_castText, plan_castExport, placed_castSite, rfl, eq_of_lists_castExport,
    namesApart_castStruct, fun hdiffer => ?_⟩
  have hsame := hdiffer "4" "6" _ (shows_castMethod (i := "3") (m := "4") rfl rfl)
    (shows_castMethod (i := "5") (m := "6") rfl rfl)
  exact absurd hsame (by decide)

end Site

end CrateBook
