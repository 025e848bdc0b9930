import CrateBook.Proofs.Anchors
import CrateBook.Proofs.ShownMembers

/-!
# The anchors of a page

A page defines an anchor for each item whose section it writes, for each member that such a
section shows, and on the page of a whole package for each module below the root. All of
them are made of small letters, digits and hyphens.
-/
namespace CrateBook

open Layout (placementsOn)

open Markdown (IsAnchor)

theorem mem_anchorsOf {ns : List Note} {a : String} :
    a ∈ anchorsOf ns ↔ ∃ n ∈ ns, n.anchor? = some a := List.mem_filterMap

namespace Layout

theorem forall_anchorRequest {P : String → Prop} (hslug : ∀ t, P (Markdown.headerSlug t)) (id : Id)
    (kind text : String) :
    P (anchorRequest id kind text).base ∧ P (anchorRequest id kind text).qualified := by
  simp only [anchorRequest]
  exact ⟨hslug _, hslug _⟩

end Layout

namespace Site

/-- The anchors of a page, with the ids that they lead to. -/
inductive Anchored (s : Site) (page : PageKind) : Id → String → Prop
  | module {n : Node} {a : String} (hpage : page = .document s.tree.root)
      (hn : n ∈ s.tree.modules.tail) (hself : s.tree.isPrimaryNode n = true)
      (ha : s.layout.anchorFor n.id = some a) : Anchored s page n.id a
  | item {p : Placement} {a : String} (hp : p ∈ placementsOn s.tree s.options.mode page)
      (hprim : s.tree.placements.isPrimary p = true)
      (ha : s.layout.anchorFor p.itemId = some a) : Anchored s page p.itemId a
  | member {p : Placement} {x : Item} {m : Id} {a : String}
      (hp : p ∈ placementsOn s.tree s.options.mode page)
      (hprim : s.tree.placements.isPrimary p = true)
      (hx : s.source.items.get? p.itemId = some x)
      (hm : s.Shows x (s.layout.anchorFor p.itemId) m a) : Anchored s page m a

section

variable {s : Site}

theorem mem_anchorsOf_memberMarks (h : s.Sound) {anchor : Option String} {x : Item} {a : String} :
    a ∈ anchorsOf (s.memberMarks anchor x) ↔ ∃ m, s.Shows x anchor m a := by
  rw [mem_anchorsOf]
  constructor
  · rintro ⟨n, hn, ha⟩
    obtain ⟨m, b, rfl⟩ := s.exists_member_of_memberMarks n hn
    obtain rfl := Option.some.inj ha
    exact ⟨m, (mem_memberMarks h).1 hn⟩
  · rintro ⟨m, hm⟩
    exact ⟨_, (mem_memberMarks h).2 hm, rfl⟩

/-- A placement brings the anchors of its section if it is the primary one. -/
theorem mem_anchorsOf_placementMarks (h : s.Sound) {p : Placement} {x : Item}
    (hx : s.source.items.get? p.itemId = some x) {a : String} :
    a ∈ anchorsOf (s.placementMarks p) ↔ s.tree.placements.isPrimary p = true ∧
      (s.layout.anchorFor p.itemId = some a ∨
        ∃ m, s.Shows x (s.layout.anchorFor p.itemId) m a) := by
  unfold placementMarks
  cases hprim : s.tree.placements.isPrimary p with
  | false => simp [anchorsOf, Note.anchor?]
  | true =>
    have hself : anchorsOf (.section_ x.id (s.layout.anchorFor p.itemId) ::
        s.memberMarks (s.layout.anchorFor p.itemId) x) =
        (s.layout.anchorFor p.itemId).toList ++
          anchorsOf (s.memberMarks (s.layout.anchorFor p.itemId) x) := by
      cases s.layout.anchorFor p.itemId <;> rfl
    rw [if_pos rfl, hx, hself, List.mem_append, mem_anchorsOf_memberMarks h,
      Option.mem_toList]
    simp

theorem mem_moduleAnchor {n : Node} {a : String} : a ∈ (s.moduleAnchor n).toList ↔
    s.tree.isPrimaryNode n = true ∧ s.layout.anchorFor n.id = some a := by
  unfold moduleAnchor
  split <;> simp_all

namespace Planned

variable (h : s.Planned)

include h

/-- The anchors of a layout are slugs, some with a number behind them. -/
theorem anchorFor_slugs {P : String → Prop} (hslug : ∀ t, P (Markdown.headerSlug t))
    (hnumber : ∀ a, ∀ k : Nat, P a → P (a ++ "-" ++ toString k)) {id : Id} {a : String}
    (ha : s.layout.anchorFor id = some a) : P a := by
  rw [h.anchorFor] at ha
  obtain ⟨sheet, hsheet, ha⟩ := List.exists_of_findSome?_eq_some ha
  unfold sheets at hsheet
  cases hmode : s.options.mode with
  | single =>
    rw [hmode] at hsheet
    obtain rfl := List.mem_singleton.1 hsheet
    refine Layout.forall_names (P := P) (fun r hr => ?_) hnumber ha
    obtain ⟨n, -, hr⟩ := List.mem_flatMap.1 hr
    rcases List.mem_append.1 hr with hr | hr
    · split at hr
      · exact List.mem_singleton.1 hr ▸ Layout.forall_anchorRequest hslug _ _ _
      · cases hr
    · obtain ⟨p, -, rfl⟩ := List.mem_map.1 hr
      exact Layout.forall_anchorRequest hslug _ _ _
  | module =>
    rw [hmode] at hsheet
    obtain ⟨n, -, rfl⟩ := List.mem_map.1 hsheet
    refine Layout.forall_names (P := P) (fun r hr => ?_) hnumber ha
    obtain ⟨p, -, rfl⟩ := List.mem_map.1 hr
    exact Layout.forall_anchorRequest hslug _ _ _
  | item =>
    rw [hmode] at hsheet
    rw [Layout.anchors_item hsheet] at ha
    cases ha

/-- Anchors are made of small letters, digits and hyphens. -/
theorem isAnchor_anchorFor {id : Id} {a : String} (ha : s.layout.anchorFor id = some a) :
    IsAnchor a :=
  h.anchorFor_slugs Markdown.isAnchor_headerSlug (fun _ k hs => Markdown.isAnchor_numbered hs k) ha

theorem anchors_pageMarks {plan : FilePlan PageKind} (hplan : plan ∈ s.layout.files)
    {a : String} : a ∈ anchorsOf (s.pageMarks plan.page) ↔
      ∃ p ∈ placementsOn s.tree s.options.mode plan.page, a ∈ anchorsOf (s.placementMarks p) := by
  have hperm : (anchorsOf (s.pageMarks plan.page)).Perm (anchorsOf
      ((placementsOn s.tree s.options.mode plan.page).flatMap s.placementMarks)) :=
    (h.perm_pageMarks hplan).filterMap _
  rw [hperm.mem_iff, anchorsOf_flatMap, List.mem_flatMap]

/-- The anchors of a page come from its marks, and from the modules of a package's page. -/
theorem mem_pageAnchors {plan : FilePlan PageKind} (hplan : plan ∈ s.layout.files)
    {a : String} : a ∈ s.pageAnchors plan.page ↔ a ∈ anchorsOf (s.pageMarks plan.page) ∨
      plan.page = .document s.tree.root ∧
        ∃ n ∈ s.tree.modules.tail, a ∈ (s.moduleAnchor n).toList := by
  rcases h.page_cases hplan with ⟨-, hpage⟩ | ⟨n, -, rfl⟩ | ⟨-, p, hpage⟩
  · have hmodules : s.tree.modules = s.tree.root :: s.tree.modules.tail := by
      rw [Tree.modules, Node.walk_eq_cons, List.tail_cons]
    have hmarks : anchorsOf (s.pageMarks (.document s.tree.root)) =
        anchorsOf (s.contentMarks s.tree.root) ++
          s.tree.modules.tail.flatMap fun n => anchorsOf (s.contentMarks n) := by
      rw [pageMarks, hmodules, List.flatMap_cons, anchorsOf_append, anchorsOf_flatMap,
        List.tail_cons]
    rw [hpage, pageAnchors, hmarks]
    simp only [List.mem_append, List.mem_flatMap, true_and]
    constructor
    · rintro (hroot | ⟨n, hn, hself | hbelow⟩)
      · exact .inl (.inl hroot)
      · exact .inr ⟨n, hn, hself⟩
      · exact .inl (.inr ⟨n, hn, hbelow⟩)
    · rintro ((hroot | ⟨n, hn, hbelow⟩) | ⟨n, hn, hself⟩)
      · exact .inl hroot
      · exact .inr ⟨n, hn, .inr hbelow⟩
      · exact .inr ⟨n, hn, .inl hself⟩
  · simp [Layout.modulePlan, pageAnchors]
  · simp [hpage, pageAnchors]

/-- The anchors of a page are those of the sections that stand on it. -/
theorem mem_pageAnchors_iff {plan : FilePlan PageKind} (hplan : plan ∈ s.layout.files)
    {a : String} : a ∈ s.pageAnchors plan.page ↔ ∃ id, s.Anchored plan.page id a := by
  rw [h.mem_pageAnchors hplan, h.anchors_pageMarks hplan]
  constructor
  · rintro (⟨p, hp, ha⟩ | ⟨hpage, n, hn, ha⟩)
    · obtain ⟨n, hn, hpn⟩ := h.exists_node hplan hp
      obtain ⟨x, hx⟩ := known_member (h.grown n hn) hpn
      obtain ⟨hprim, ha | ⟨m, hm⟩⟩ := (mem_anchorsOf_placementMarks h.sound hx).1 ha
      · exact ⟨_, .item hp hprim ha⟩
      · exact ⟨m, .member hp hprim hx hm⟩
    · obtain ⟨hself, ha⟩ := mem_moduleAnchor.1 ha
      exact ⟨_, .module hpage hn hself ha⟩
  · rintro ⟨id, hid⟩
    cases hid with
    | module hpage hn hself ha => exact .inr ⟨hpage, _, hn, mem_moduleAnchor.2 ⟨hself, ha⟩⟩
    | item hp hprim ha =>
      obtain ⟨n, hn, hpn⟩ := h.exists_node hplan hp
      obtain ⟨x, hx⟩ := known_member (h.grown n hn) hpn
      exact .inl ⟨_, hp, (mem_anchorsOf_placementMarks h.sound hx).2 ⟨hprim, .inl ha⟩⟩
    | member hp hprim hx hm =>
      exact .inl ⟨_, hp, (mem_anchorsOf_placementMarks h.sound hx).2 ⟨hprim, .inr ⟨_, hm⟩⟩⟩

end Planned

end

end Site

end CrateBook
