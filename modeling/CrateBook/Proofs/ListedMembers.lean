import CrateBook.Proofs.InternalLinks
import CrateBook.Proofs.Membership

/-!
# Members that their lister shows

A member without a place leads below the item that lists it. Whether the page defines its
anchor depends on this item alone: it must be one whose section shows such members.
-/
namespace CrateBook.Site

/-- The item that lists a member shows it, on the page of the item that it belongs to. -/
inductive ShowsListed (s : Site) (id : Id) : Prop
  | field {c : Id} {y z : Item} {b : StructBody} {t : Value}
      (hc : s.source.containers.get? id = some c) (hy : s.source.items.get? c = some y)
      (hb : y.payload = .struct b) (hplaced : s.Placed c)
      (hz : s.source.items.get? id = some z) (ht : z.payload = .structField t)
  | variant {c : Id} {y z : Item} {b : EnumBody} {v : VariantBody}
      (hc : s.source.containers.get? id = some c) (hy : s.source.items.get? c = some y)
      (hb : y.payload = .enum b) (hplaced : s.Placed c)
      (hz : s.source.items.get? id = some z) (hv : z.payload = .variant v)
  | variantField {c e : Id} {y w z : Item} {v : VariantBody} {b : EnumBody} {name : String}
      (hc : s.source.containers.get? id = some c) (hy : s.source.items.get? c = some y)
      (hv : y.payload = .variant v) (hshape : v.shape = "struct")
      (hplace : s.layout.fileFor c = none)
      (he : s.source.containers.get? c = some e) (hw : s.source.items.get? e = some w)
      (hb : w.payload = .enum b) (hplaced : s.Placed e)
      (hz : s.source.items.get? id = some z) (hname : z.name = some name)
  | traitItem {c : Id} {y z : Item} {b : TraitBody}
      (hc : s.source.containers.get? id = some c) (hy : s.source.items.get? c = some y)
      (hb : y.payload = .trait b) (hplaced : s.Placed c)
      (hz : s.source.items.get? id = some z) (hassoc : z.payload.isAssociated = true)
  | implMember {c t : Id} {y x z : Item} {b : ImplBody}
      (hc : s.source.containers.get? id = some c) (hy : s.source.items.get? c = some y)
      (hb : y.payload = .impl b) (hnoise : s.source.isNoise s.options.noiseTraits b = false)
      (htarget : b.target? = some t) (hplaced : s.Placed t)
      (hx : s.source.items.get? t = some x) (hkind : implKinds.contains x.kind = true)
      (hz : s.source.items.get? id = some z) (hassoc : z.payload.isAssociated = true)

section

variable {s : Site} (hs : s.source.Indexed)

section

include hs

/-- The owner of a member is the one that its container gives. -/
theorem exists_owner {id c : Id} {y : Item} (hc : s.source.containers.get? id = some c)
    (hy : s.source.items.get? c = some y) :
    ∃ owner, s.source.owners.get? id = some owner ∧ Export.Lists y owner id := by
  have hne : s.source.owners.get? id ≠ none := fun hnone => by
    rw [(hs.recorded.paired id).1 hnone] at hc
    cases hc
  obtain ⟨owner, howner⟩ := Option.ne_none_iff_exists'.1 hne
  obtain ⟨y', hy', rfl, hlists⟩ := hs.recorded.listed id owner c howner hc
  obtain rfl := Option.some.inj (hy.symm.trans (Items.mem_toList.1 hy'))
  exact ⟨owner, howner, hlists⟩

theorem owner_of_container {id c : Id} {y : Item}
    (hc : s.source.containers.get? id = some c) (hy : s.source.items.get? c = some y)
    (hpayload : ∀ b, y.payload ≠ .impl b) :
    s.source.owners.get? id = some c ∧ id ∈ Export.ownMembers y := by
  obtain ⟨owner, howner, hlists⟩ := exists_owner hs hc hy
  obtain ⟨rfl, hm⟩ := hlists.own hpayload
  exact ⟨Items.id_of_get? hy ▸ howner, hm⟩

theorem owner_of_block {id c t : Id} {y : Item} {b : ImplBody}
    (hc : s.source.containers.get? id = some c) (hy : s.source.items.get? c = some y)
    (hb : y.payload = .impl b) (htarget : b.target? = some t) :
    s.source.owners.get? id = some t ∧ id ∈ b.items := by
  obtain ⟨owner, howner, hlists⟩ := exists_owner hs hc hy
  obtain ⟨rfl, hm⟩ := hlists.block hb htarget
  exact ⟨howner, hm⟩

end

theorem ownerChain_of_fileFor {o : Id} (ho : s.layout.fileFor o ≠ none) (n : Nat)
    (chain : List Id) : s.ownerChain n chain (some o) = some (chain, o) := by
  have hsome : (s.layout.fileFor o).isSome = true := Option.isSome_iff_ne_none.2 ho
  cases n <;> simp [ownerChain, hsome]

theorem ownerChain_of_no_file {o : Id} (ho : s.layout.fileFor o = none) (n : Nat)
    (chain : List Id) : s.ownerChain (n + 1) chain (some o) =
      s.ownerChain n (o :: chain) (s.source.owners.get? o) := by
  simp [ownerChain, ho]

theorem anchorBelow_eq {id : Id} {z : Item} (hz : s.source.items.get? id = some z)
    (anchor : Option String) : s.anchorBelow anchor id =
      some (memberAnchor anchor z z.displayName (s.scopeOf id)) := by
  simp [anchorBelow, memberAnchor, Layout.kindOf, nameOf, hz]

theorem scopeOf_eq {id c : Id} {y : Item} (hc : s.source.containers.get? id = some c)
    (hy : s.source.items.get? c = some y) : s.scopeOf id =
      match y.payload with
      | .impl b =>
        if b.traitRef.isSome then some (Layout.implScope (s.source.traitName b)) else none
      | _ => none := by
  have hcontainer : s.source.container? id = some y := by
    rw [Export.container?, hc]
    exact hy
  rw [scopeOf, hcontainer, Option.map_some]
  cases y.payload <;> rfl

/-- A member without a place leads below its owner, if that one has a place. -/
theorem LeadsTo.of_owner {id o : Id} {z : Item} {plan : FilePlan PageKind} {a : String}
    (hleads : s.LeadsTo id plan a) (hplace : s.layout.fileFor id = none)
    (howner : s.source.owners.get? id = some o) (hfile : s.layout.fileFor o ≠ none)
    (hz : s.source.items.get? id = some z) : s.layout.fileFor o = some plan ∧
      a = memberAnchor (s.layout.anchorFor o) z z.displayName (s.scopeOf id) ∧
      s.source.showsMember s.options.includePrivate id = true := by
  cases hleads with
  | placed hself _ =>
    rw [hplace] at hself
    cases hself
  | member _ hchain hshown hplan ha =>
    rw [howner, ownerChain_of_fileFor hfile] at hchain
    obtain ⟨rfl, rfl⟩ := Prod.mk.inj (Option.some.inj hchain)
    rw [List.foldl_cons, List.foldl_nil, anchorBelow_eq hz] at ha
    exact ⟨hplan, (Option.some.inj ha).symm, hshown id List.mem_cons_self⟩

/-- A field of a variant without a place leads below the variant, on the page of the enum. -/
theorem LeadsTo.of_variant {id c e : Id} {y z : Item} {plan : FilePlan PageKind} {a : String}
    (hleads : s.LeadsTo id plan a) (hplace : s.layout.fileFor id = none)
    (howner : s.source.owners.get? id = some c) (hcplace : s.layout.fileFor c = none)
    (hcowner : s.source.owners.get? c = some e) (hfile : s.layout.fileFor e ≠ none)
    (hy : s.source.items.get? c = some y) (hz : s.source.items.get? id = some z) :
    s.layout.fileFor e = some plan ∧
      a = memberAnchor (some (memberAnchor (s.layout.anchorFor e) y y.displayName (s.scopeOf c)))
        z z.displayName (s.scopeOf id) := by
  cases hleads with
  | placed hself _ =>
    rw [hplace] at hself
    cases hself
  | member _ hchain hshown hplan ha =>
    rw [howner, maxOwners, ownerChain_of_no_file hcplace, hcowner,
      ownerChain_of_fileFor hfile] at hchain
    obtain ⟨rfl, rfl⟩ := Prod.mk.inj (Option.some.inj hchain)
    rw [List.foldl_cons, List.foldl_cons, List.foldl_nil, anchorBelow_eq hy,
      anchorBelow_eq hz] at ha
    exact ⟨hplan, (Option.some.inj ha).symm⟩

end

namespace Planned

variable {s : Site} (h : s.Planned)

include h

theorem anchored_of_shows {o m : Id} {x : Item} {plan : FilePlan PageKind} {a : String}
    (hplaced : s.Placed o) (hx : s.source.items.get? o = some x)
    (hfile : s.layout.fileFor o = some plan) (hm : s.Shows x (s.layout.anchorFor o) m a) :
    s.Anchored plan.page m a := by
  obtain ⟨plan', p, hfile', hp, hprim, rfl⟩ := h.exists_page hplaced
  obtain rfl := Option.some.inj (hfile.symm.trans hfile')
  exact .member hp hprim hx hm

theorem fileFor_of_placed {id : Id} (hid : s.Placed id) : s.layout.fileFor id ≠ none := by
  obtain ⟨plan, -, hfile, -⟩ := h.exists_page hid
  rw [hfile]
  exact Option.some_ne_none plan

/-- A member of a placed item leads to the anchor that the item's section gives it. -/
theorem anchored_of_owner {id o : Id} {x z : Item} {plan : FilePlan PageKind} {a : String}
    (hleads : s.LeadsTo id plan a) (hplace : s.layout.fileFor id = none)
    (howner : s.source.owners.get? id = some o) (hplaced : s.Placed o)
    (hx : s.source.items.get? o = some x) (hz : s.source.items.get? id = some z)
    (hshows : s.source.showsMember s.options.includePrivate id = true →
      s.Shows x (s.layout.anchorFor o) id
        (memberAnchor (s.layout.anchorFor o) z z.displayName (s.scopeOf id))) :
    s.Anchored plan.page id a := by
  obtain ⟨hfile, ha, hshown⟩ :=
    hleads.of_owner hplace howner (h.fileFor_of_placed hplaced) hz
  rw [ha]
  exact h.anchored_of_shows hplaced hx hfile (hshows hshown)

/-- So does a field of a variant that has no place of its own. -/
theorem anchored_of_variant {id c e : Id} {x y z : Item} {plan : FilePlan PageKind} {a : String}
    (hleads : s.LeadsTo id plan a) (hplace : s.layout.fileFor id = none)
    (howner : s.source.owners.get? id = some c) (hcplace : s.layout.fileFor c = none)
    (hcowner : s.source.owners.get? c = some e) (hplaced : s.Placed e)
    (hx : s.source.items.get? e = some x) (hy : s.source.items.get? c = some y)
    (hz : s.source.items.get? id = some z)
    (hshows : s.Shows x (s.layout.anchorFor e) id
      (memberAnchor (some (memberAnchor (s.layout.anchorFor e) y y.displayName (s.scopeOf c)))
        z z.displayName (s.scopeOf id))) :
    s.Anchored plan.page id a := by
  obtain ⟨hfile, ha⟩ :=
    hleads.of_variant hplace howner hcplace hcowner (h.fileFor_of_placed hplaced) hy hz
  rw [ha]
  exact h.anchored_of_shows hplaced hx hfile hshows

/-- A member leads to an anchor of its page if the item that lists it shows it. -/
theorem anchored_of_showsListed (hs : s.source.Indexed) {id : Id} {plan : FilePlan PageKind}
    {a : String} (hleads : s.LeadsTo id plan a) (hplace : s.layout.fileFor id = none)
    (hlisted : s.ShowsListed id) : s.Anchored plan.page id a := by
  cases hlisted with
  | field hc hy hb hplaced hz ht =>
    obtain ⟨howner, hm⟩ := owner_of_container hs hc hy (by simp [hb])
    refine h.anchored_of_owner hleads hplace howner hplaced hy hz fun hshown => ?_
    simp only [Export.ownMembers, hb] at hm
    obtain ⟨m, hm, rfl⟩ := List.mem_filterMap.1 hm
    rw [scopeOf_eq hc hy, hb]
    exact .field hb hm hz ht hshown
  | variant hc hy hb hplaced hz hv =>
    obtain ⟨howner, hm⟩ := owner_of_container hs hc hy (by simp [hb])
    refine h.anchored_of_owner hleads hplace howner hplaced hy hz fun _ => ?_
    simp only [Export.ownMembers, hb] at hm
    rw [scopeOf_eq hc hy, hb]
    exact .variant hb hm hz hv
  | @variantField c e y w z v b name hc hy hv hshape hcplace he hw hb hplaced hz hname =>
    obtain ⟨howner, hm⟩ := owner_of_container hs hc hy (by simp [hv])
    obtain ⟨hcowner, hvariant⟩ := owner_of_container hs he hw (by simp [hb])
    refine h.anchored_of_variant hleads hplace howner hcplace hcowner hplaced hw hy hz ?_
    simp only [Export.ownMembers, hv] at hm
    simp only [Export.ownMembers, hb] at hvariant
    obtain ⟨m, hm, rfl⟩ := List.mem_filterMap.1 hm
    have hdisplay : z.displayName = name := by rw [Item.displayName, hname, Option.getD_some]
    rw [scopeOf_eq hc hy, hv, scopeOf_eq he hw, hb, hdisplay]
    exact .variantField hb hvariant hy hv hshape hm hz hname
  | traitItem hc hy hb hplaced hz hassoc =>
    obtain ⟨howner, hm⟩ := owner_of_container hs hc hy (by simp [hb])
    refine h.anchored_of_owner hleads hplace howner hplaced hy hz fun _ => ?_
    simp only [Export.ownMembers, hb] at hm
    rw [scopeOf_eq hc hy, hb]
    exact .traitItem hb hm hz hassoc
  | implMember hc hy hb hnoise htarget hplaced hx hkind hz hassoc =>
    obtain ⟨howner, hm⟩ := owner_of_block hs hc hy hb htarget
    refine h.anchored_of_owner hleads hplace howner hplaced hx hz fun hshown => ?_
    have hself := Items.id_of_get? hx
    have hblock : s.source.HasBlock _ _ := ⟨_, hy, hb⟩
    have hshows : s.source.ShowsBlock s.options.noiseTraits _ _ := ⟨htarget, hnoise⟩
    rw [← hself] at hshows
    rw [scopeOf_eq hc hy, hb]
    dsimp only
    split
    · next htrait =>
      exact .implemented hkind hblock hshows (Option.isSome_iff_ne_none.1 htrait) hm hz hassoc
    · next htrait =>
      exact .inherent hkind hblock hshows (by simpa using htrait) hm hz hassoc hshown

end Planned

section

variable {s : Site} (hs : s.source.Indexed)

include hs

/-- If no member is listed by two items, the one that lists it is its container. -/
theorem container_of_lists (honce : s.source.ListedOnce) {c o m : Id} {y : Item}
    (hy : s.source.items.get? c = some y) (hlists : Export.Lists y o m) :
    s.source.containers.get? m = some c := by
  obtain rfl := Items.id_of_get? hy
  have hmem : y ∈ s.source.items.toList := Items.mem_toList.2 hy
  have hne := hs.complete y hmem o m hlists
  obtain ⟨owner, howner⟩ := Option.ne_none_iff_exists'.1 hne
  obtain ⟨c, hc⟩ := Option.ne_none_iff_exists'.1 fun hnone => hne ((hs.recorded.paired m).2 hnone)
  obtain ⟨z, hz, rfl, hzlists⟩ := hs.recorded.listed m owner c howner hc
  rw [honce y hmem z hz o owner m hlists hzlists]
  exact hc

variable (htree : s.source.ListedAsTree)

include htree

/-- Whatever is listed is not the root. -/
theorem ShowsListed.ne_root {id : Id} (h : s.ShowsListed id) :
    id ≠ s.source.package.rootId := by
  have hcontainer : ∃ c y, s.source.containers.get? id = some c ∧
      s.source.items.get? c = some y := by
    cases h with
    | field hc hy => exact ⟨_, _, hc, hy⟩
    | variant hc hy => exact ⟨_, _, hc, hy⟩
    | variantField hc hy => exact ⟨_, _, hc, hy⟩
    | traitItem hc hy => exact ⟨_, _, hc, hy⟩
    | implMember hc hy => exact ⟨_, _, hc, hy⟩
  obtain ⟨c, y, hc, hy⟩ := hcontainer
  obtain ⟨owner, -, hlists⟩ := exists_owner hs hc hy
  rintro rfl
  exact htree.root y (Items.mem_toList.2 (Items.id_of_get? hy ▸ hy)) owner hlists

/-- A member that a section shows is listed by an item that shows it. -/
theorem Planned.showsListed_of_shows (h : s.Planned) {o m : Id} {x : Item}
    {anchor : Option String} {a : String} (hplaced : s.Placed o)
    (hx : s.source.items.get? o = some x) (hm : s.Shows x anchor m a) : s.ShowsListed m := by
  have hself := Items.id_of_get? hx
  cases hm with
  | field hb hm hz ht _ =>
    have hlists := Export.lists_field hb hm
    exact .field (container_of_lists hs htree.once hx hlists) hx hb hplaced hz ht
  | variant hb hv hz hbody =>
    have hlists := Export.lists_variant hb hv
    exact .variant (container_of_lists hs htree.once hx hlists) hx hb hplaced hz hbody
  | @variantField b v m y z body name hb hv hy hbody hshape hm hz hname =>
    have hvlists := Export.lists_variant hb hv
    have hlists := Export.lists_variantField hbody hm
    have hroot : v ≠ s.source.package.rootId := fun hroot =>
      htree.root x (Items.mem_toList.2 (hself.symm ▸ hx)) _ (hroot ▸ hvlists)
    have hkind := hs.variants v y body hy hbody
    have hplace : s.layout.fileFor v = none :=
      h.fileFor_eq_none hy (by rw [hbody]; rfl) (by rw [hkind]; decide) hroot
    exact .variantField (container_of_lists hs htree.once hy hlists) hy hbody hshape hplace
      (container_of_lists hs htree.once hx hvlists) hx hb hplaced hz hname
  | traitItem hb hm hz hassoc =>
    have hlists := Export.lists_traitItem hb hm
    exact .traitItem (container_of_lists hs htree.once hx hlists) hx hb hplaced hz hassoc
  | inherent hkind hblock hshows _ hm hz hassoc _ =>
    obtain ⟨y, hy, hb⟩ := hblock
    obtain ⟨htarget, hnoise⟩ := hshows
    have hlists := Export.lists_block hb htarget hm
    exact .implMember (container_of_lists hs htree.once hy hlists) hy hb hnoise htarget
      (hself.symm ▸ hplaced) (hself.symm ▸ hx) hkind hz hassoc
  | implemented hkind hblock hshows _ hm hz hassoc =>
    obtain ⟨y, hy, hb⟩ := hblock
    obtain ⟨htarget, hnoise⟩ := hshows
    have hlists := Export.lists_block hb htarget hm
    exact .implMember (container_of_lists hs htree.once hy hlists) hy hb hnoise htarget
      (hself.symm ▸ hplaced) (hself.symm ▸ hx) hkind hz hassoc

end

end CrateBook.Site
