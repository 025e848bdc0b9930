import CrateBook.Conversion
import CrateBook.Proofs.InternalLinks
import CrateBook.Proofs.ItemSwaps

/-!
# Links do not tell of a hidden item

An item that is not public leads nowhere while private items are left out, unless what lists
it shows it all the same: an enum, a variant, a trait, or a block that implements a trait. So
all links stay where they are when such an item is swapped, and the blocks of a type stay as
they are: they ask for no more than the kind of a member, and for the names of those that
implement a trait.
-/
namespace CrateBook

/-- The members of an item that are shown wherever the item is: they have no visibility of
their own. -/
def Item.sharedMembers (c : Item) : List Id :=
  match c.payload with
  | .enum b => b.variants
  | .variant b => b.fields.filterMap fun f => f
  | .trait b => b.items
  | .impl b => if b.traitRef.isSome then b.items else []
  | _ => []

section

variable {c : Item}

theorem Item.sharedMembers_variant {b : VariantBody} (h : c.payload = .variant b) :
    c.sharedMembers = b.fields.filterMap fun f => f := by rw [sharedMembers, h]

theorem Item.sharedMembers_trait {b : TraitBody} (h : c.payload = .trait b) :
    c.sharedMembers = b.items := by rw [sharedMembers, h]

theorem Item.sharedMembers_impl {b : ImplBody} (h : c.payload = .impl b)
    (htrait : b.traitRef ≠ none) : c.sharedMembers = b.items := by
  have hsome : b.traitRef.isSome = true := Option.isSome_iff_ne_none.2 htrait
  rw [sharedMembers, h]
  exact if_pos hsome

end

namespace Export.Swap

variable {x : Export} {y z : Item} (h : x.Swap y z)

include h

theorem followsContainer_find? (m : Item) (id : Option Id) :
    m.followsContainer ((x.replace z).find? id) = m.followsContainer (x.find? id) := by
  cases id with
  | none => rfl
  | some id =>
    have hfind (x : Export) : x.find? (some id) = x.items.get? id := rfl
    rw [hfind, hfind]
    rcases h.get?_cases id with ⟨-, hget⟩ | ⟨-, hy, hz⟩
    · rw [hget]
    · have halike := h.alike.payload
      rw [hy, hz, Item.followsContainer, Item.followsContainer, h.alike.kind]
      generalize y.payload = p at halike
      generalize z.payload = q at halike
      cases halike <;> rfl

theorem showsMember_replace (id : Id) :
    (x.replace z).showsMember false id = x.showsMember false id := by
  have hcontainer (m : Item) : m.followsContainer ((x.replace z).container? id) =
      m.followsContainer (x.container? id) := h.followsContainer_find? m _
  unfold showsMember
  simp only [hcontainer]
  rcases h.get?_cases id with ⟨-, hget⟩ | ⟨-, hy, hz⟩
  · rw [hget]
  · have hfollows : z.followsContainer = y.followsContainer := by
      funext c
      unfold Item.followsContainer
      rw [h.alike.kind, h.alike.visibility]
    rw [hy, hz]
    simp only [h.not_included, hfollows]

theorem implMembers_replace (b : ImplBody) : (x.replace z).implMembers b = x.implMembers b := by
  refine List.filter_congr fun id _ => ?_
  rcases h.payload?_cases id with ⟨-, hpayload⟩ | ⟨-, p, q, hpq, hp, hq⟩
  · rw [hpayload]
  · rw [hp, hq]
    cases hpq <;> rfl

theorem traitImpl_replace (id : Id) {b : ImplBody} (hb : y.id ∉ b.items) :
    (x.replace z).traitImpl id b = x.traitImpl id b := by
  have hnames : (x.implMembers b).map
      (fun id => ((x.replace z).items.get? id).bind (·.name)) =
      (x.implMembers b).map fun id => (x.items.get? id).bind (·.name) := by
    refine List.map_congr_left fun id hid => ?_
    have hne : id ≠ y.id := fun heq => hb (heq ▸ (mem_implMembers.1 hid).1)
    rw [h.get?_of_ne hne]
  have hpath : (x.replace z).traitPath b = x.traitPath b := rfl
  simp only [traitImpl, defaultsOf, h.implMembers_replace, hnames, hpath]

/-- The blocks of a type stay as they are. -/
theorem classify_replace
    (hlisted : ∀ id c, x.items.get? id = some c → y.id ∉ c.sharedMembers)
    (noise : List String) (typeId : Id) :
    (x.replace z).classify noise typeId = x.classify noise typeId := by
  have hsort : ∀ g, ∀ i ∈ x.implsFor typeId,
      (x.replace z).sortImpl noise g i = x.sortImpl noise g i := by
    intro g i hi
    obtain ⟨⟨c, hc, hpayload⟩, -⟩ := mem_implsFor.1 hi
    have hnoise : (x.replace z).isNoise noise i.2 = x.isNoise noise i.2 := rfl
    unfold sortImpl
    rw [hnoise, h.implMembers_replace]
    cases htrait : i.2.traitRef with
    | none => rfl
    | some ms =>
      have hne : i.2.traitRef ≠ none := by simp [htrait]
      have hb : y.id ∉ i.2.items := Item.sharedMembers_impl hpayload hne ▸ hlisted i.1 c hc
      rw [h.traitImpl_replace _ hb]
  have himpls : (x.replace z).implsFor typeId = x.implsFor typeId := by
    rw [implsFor, h.impls_replace, implsFor]
  rw [classify, himpls, List.foldl_ext _ _ _ hsort, classify]

end Export.Swap

/-- A planned site without private items, and a swap of an item that is not its root and that
it does not show for what lists it. -/
structure Site.Swap (s : Site) (y z : Item) : Prop where
  planned : s.Planned
  policy : s.options.includePrivate = false
  items : s.source.Swap y z
  root : s.source.package.rootId ≠ y.id
  unshown : s.source.showsMember false y.id = false
  unlisted : ∀ id c, s.source.items.get? id = some c → y.id ∉ c.sharedMembers

namespace Site.Swap

variable {s : Site} {y z : Item} (h : s.Swap y z)

include h

theorem tree_eq : s.tree = Tree.ofExport s.source false := by
  rw [h.planned.tree, h.policy]

section

variable {n : Node} (hn : n ∈ s.tree.modules)

include hn

theorem module_ne : n.id ≠ y.id := Tree.ne_of_mem_modules h.items (h.tree_eq ▸ hn) h.root

theorem member_ne {p : Placement} (hp : p ∈ n.members) : p.itemId ≠ y.id :=
  Tree.ne_of_mem_members h.items (h.tree_eq ▸ hn) hp

theorem reexport_ne {r : ReExport} (hr : r ∈ n.reexports) : r.itemId ≠ y.id :=
  Tree.ne_of_mem_reexports h.items (h.tree_eq ▸ hn) hr

end

/-- No file shows the item. -/
theorem fileFor_eq_none : s.layout.fileFor y.id = none := by
  rw [h.planned.fileFor, Option.map_eq_none_iff, List.find?_eq_none]
  intro sheet hsheet hshows
  obtain ⟨p, hp, -, hid⟩ := (Layout.shows_iff hsheet fun n hn => h.module_ne hn).1 hshows
  have hfile : sheet.plan ∈ s.layout.files := by
    rw [h.planned.files]
    exact List.mem_map_of_mem hsheet
  obtain ⟨n, hn, hpn⟩ := h.planned.exists_node hfile hp
  exact h.member_ne hn hpn hid

theorem hrefFor_eq_none : s.layout.hrefFor y.id = none := by
  rw [Layout.hrefFor, h.fileFor_eq_none]
  rfl

theorem showsMember_replace :
    (s.replace z).source.showsMember (s.replace z).options.includePrivate =
      s.source.showsMember s.options.includePrivate := by
  have hpolicy : (s.replace z).options.includePrivate = false := h.policy
  funext id
  rw [hpolicy, h.policy]
  exact h.items.showsMember_replace id

theorem nameOf_replace {id : Id} (hid : id ≠ y.id) : (s.replace z).nameOf id = s.nameOf id := by
  rw [nameOf, nameOf]
  have hget : (s.replace z).source.items.get? id = s.source.items.get? id :=
    h.items.get?_of_ne hid
  rw [hget]

theorem scopeOf_replace (id : Id) : (s.replace z).scopeOf id = s.scopeOf id := by
  have hcontainers : (s.replace z).source.containers = s.source.containers := rfl
  unfold scopeOf Export.container?
  rw [hcontainers]
  cases s.source.containers.get? id with
  | none => rfl
  | some c =>
    have hfind (x : Export) : (x.find? (some c)).map (·.payload) = x.items.payload? c := rfl
    rw [hfind, hfind]
    rcases h.items.payload?_cases c with ⟨-, hpayload⟩ | ⟨-, p, q, hpq, hp, hq⟩
    · have hpayload : (s.replace z).source.items.payload? c = s.source.items.payload? c :=
        hpayload
      rw [hpayload]
      rfl
    · have hq : (s.replace z).source.items.payload? c = some q := hq
      rw [hp, hq]
      cases hpq <;> rfl

theorem anchorBelow_replace {id : Id} (hid : id ≠ y.id) (anchor : Option String) :
    (s.replace z).anchorBelow anchor id = s.anchorBelow anchor id := by
  have hkind : Layout.kindOf (s.replace z).source id = Layout.kindOf s.source id :=
    h.items.kindOf_replace id
  rw [anchorBelow, hkind, h.nameOf_replace hid, h.scopeOf_replace, anchorBelow]

omit h in
theorem ownerChain_replace (n : Nat) (chain : List Id) (next : Option Id) :
    (s.replace z).ownerChain n chain next = s.ownerChain n chain next := by
  induction n generalizing chain next with
  | zero => cases next <;> rfl
  | succ n ih =>
    cases next with
    | none => rfl
    | some owner =>
      rw [ownerChain, ownerChain, ih]
      rfl

/-- Members lead where they led: no chain of members that are shown runs through the item. -/
theorem memberTarget_replace (id : Id) : (s.replace z).memberTarget id = s.memberTarget id := by
  have howners : (s.replace z).source.owners = s.source.owners := rfl
  have hlayout : (s.replace z).layout = s.layout := rfl
  unfold memberTarget
  rw [ownerChain_replace, howners, hlayout, h.showsMember_replace]
  cases hfound : s.ownerChain maxOwners [id] (s.source.owners.get? id) with
  | none => rfl
  | some r =>
    obtain ⟨chain, owner⟩ := r
    simp only [Option.bind_eq_bind, Option.bind_some]
    split
    · next hshown =>
      cases hfile : s.layout.fileFor owner with
      | none => rfl
      | some plan =>
        have howner : owner ≠ y.id := by
          rintro rfl
          rw [h.fileFor_eq_none] at hfile
          cases hfile
        have hmember : ∀ m ∈ chain, m ≠ y.id := by
          rintro m hm rfl
          have hm := List.all_eq_true.1 hshown y.id hm
          rw [h.policy, h.unshown] at hm
          exact absurd hm (by decide)
        have hanchors : chain.foldl (s.replace z).anchorBelow (s.layout.anchorFor owner) =
            chain.foldl s.anchorBelow (s.layout.anchorFor owner) :=
          List.foldl_ext _ _ _ fun anchor m hm => h.anchorBelow_replace (hmember m hm) anchor
        have hnames : chain.map (s.replace z).nameOf = chain.map s.nameOf :=
          List.map_congr_left fun m hm => h.nameOf_replace (hmember m hm)
        simp only [Option.bind_some, hanchors, hnames, h.nameOf_replace howner]
    · rfl

theorem memberTarget_eq_none : s.memberTarget y.id = none := by
  cases hfound : s.ownerChain maxOwners [y.id] (s.source.owners.get? y.id) with
  | none =>
    unfold memberTarget
    rw [hfound]
    rfl
  | some r =>
    obtain ⟨chain, owner⟩ := r
    have hself : y.id ∈ chain := (suffix_of_ownerChain hfound).subset List.mem_cons_self
    have hshown : ¬ chain.all (s.source.showsMember s.options.includePrivate) = true := by
      intro hall
      have hself := List.all_eq_true.1 hall y.id hself
      rw [h.policy, h.unshown] at hself
      exact absurd hself (by decide)
    unfold memberTarget
    rw [hfound]
    exact if_neg hshown

/-- An id leads where it led; only the name of the item itself may differ. -/
theorem locate_replace {id : Id} (hid : id ≠ y.id) : (s.replace z).locate id = s.locate id := by
  have hget : (s.replace z).source.items.get? id = s.source.items.get? id :=
    h.items.get?_of_ne hid
  have hlayout : (s.replace z).layout = s.layout := rfl
  unfold locate
  rw [hget, hlayout, h.memberTarget_replace]
  rfl

theorem locate_self : s.locate y.id = .target (.unlinked y.displayName) ∧
    (s.replace z).locate y.id = .target (.unlinked z.displayName) := by
  have hget : (s.replace z).source.items.get? y.id = some z := h.items.get?_self
  have hlayout : (s.replace z).layout = s.layout := rfl
  unfold locate
  rw [hget, hlayout, h.memberTarget_replace, h.items.held, h.hrefFor_eq_none,
    h.memberTarget_eq_none]
  exact ⟨rfl, rfl⟩

theorem href?_resolve_replace (id : Id) (title : String) :
    ((s.replace z).resolve id title).href? = (s.resolve id title).href? := by
  by_cases hid : id = y.id
  · rw [hid, resolve, resolve, h.locate_self.1, h.locate_self.2]
    rfl
  · rw [resolve, h.locate_replace hid, resolve]

theorem hrefOf_replace : (s.replace z).hrefOf = s.hrefOf := by
  funext id
  have hmemory : (s.replace z).memory = s.memory := rfl
  unfold hrefOf targetOf
  rw [hmemory]
  cases s.memory.targets.get? id with
  | none => exact h.href?_resolve_replace id ""
  | some t => rfl

theorem types_replace : (s.replace z).types = s.types := by
  rw [types, h.hrefOf_replace, types]

theorem implsOf_replace (typeId : Id) : (s.replace z).implsOf typeId = s.implsOf typeId :=
  congrArg (s.memory.groups.get? typeId).getD (h.items.classify_replace h.unlisted _ _)

/-- The report gets the same entries. -/
theorem enter_replace (r : Report) (n : Note) : (s.replace z).enter r n = s.enter r n := by
  cases n with
  | asked id title =>
    unfold enter
    dsimp only
    by_cases hid : id = y.id
    · rw [hid, h.locate_self.1, h.locate_self.2]
    · rw [h.locate_replace hid]
  | _ => rfl

end Site.Swap

end CrateBook
