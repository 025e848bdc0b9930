import CrateBook.Proofs.Fragments
import CrateBook.Proofs.Targets

/-!
# Links to members and the anchors of sections

A link to a member is found upwards, from the member to the item on whose page it stands. The
anchors of members are written downwards, from an item to what it lists. Both meet: where no
member is listed by two items, a member that a section shows is linked, if it is linked at
all within the package, by the page of the section and the anchor that the section passes.
-/
namespace CrateBook

/-- Where the root is no module, the tree has one node and shows nothing. -/
theorem Tree.modules_of_candidates_eq_nil {x : Export} {includePrivate : Bool}
    (h : candidates x includePrivate [x.package.rootId] x.package.rootId = []) :
    (ofExport x includePrivate).modules =
      [.mk x.package.rootId [x.package.name] [] [] []] := by
  simp [ofExport, h, place, Growth.node, modules, Node.walk, Node.walkAll]

namespace Site

section

variable {s : Site} (h : s.Planned)

include h

/-- Items are placed below a root that is a module. -/
theorem Planned.isModule_root {id : Id} (hid : s.Placed id) :
    ∃ b, s.source.items.payload? s.source.package.rootId = some (.module b) := by
  by_contra hroot
  have hnone : Tree.candidates s.source s.options.includePrivate [s.source.package.rootId]
      s.source.package.rootId = [] := by
    unfold Tree.candidates
    split
    · next b hb => exact absurd ⟨b, hb⟩ hroot
    · rfl
  obtain ⟨p, hp, -⟩ := h.exists_primary hid
  obtain ⟨-, n, hn, hpn⟩ := h.exists_member hid hp
  rw [h.tree, Tree.modules_of_candidates_eq_nil hnone] at hn
  rw [List.mem_singleton.1 hn] at hpn
  cases hpn

/-- A variant has no page of its own where any item is placed. -/
theorem Planned.fileFor_variant (hs : s.source.Indexed) {id v : Id} {y : Item}
    {b : VariantBody} (hid : s.Placed id) (hy : s.source.items.get? v = some y)
    (hb : y.payload = .variant b) : s.layout.fileFor v = none := by
  obtain ⟨m, hroot⟩ := h.isModule_root hid
  refine h.fileFor_eq_none hy (by rw [hb]; rfl) ?_ fun hv => ?_
  · rw [hs.variants v y b hy hb]
    decide
  · rw [← hv, Items.payload?, hy, Option.map_some, hb] at hroot
    cases hroot

variable (hs : s.source.Indexed) (honce : s.source.ListedOnce)

include hs honce

/-- What an item lists leads to the item's page, and to the anchor below the item's own. -/
theorem Planned.eq_of_lists {o m : Id} {x z : Item} {plan : FilePlan PageKind} {a : String}
    (hplaced : s.Placed o) (hx : s.source.items.get? o = some x)
    (hlists : Export.Lists x x.id m) (hblock : ∀ b, x.payload ≠ .impl b)
    (hz : s.source.items.get? m = some z) (hplace : s.layout.fileFor m = none)
    (hleads : s.LeadsTo m plan a) : s.layout.fileFor o = some plan ∧
      a = memberAnchor (s.layout.anchorFor o) z z.displayName none := by
  have hc := container_of_lists hs honce hx hlists
  obtain ⟨howner, -⟩ := owner_of_container hs hc hx hblock
  obtain ⟨hfile, ha, -⟩ := hleads.of_owner hplace howner (h.fileFor_of_placed hplaced) hz
  rw [scopeOf_eq hc hx] at ha
  cases hpayload : x.payload
  case impl b => exact absurd hpayload (hblock b)
  all_goals
    rw [hpayload] at ha
    exact ⟨hfile, ha⟩

/-- So does what a block for the item lists, with the trait of the block in the anchor. -/
theorem Planned.eq_of_block {i o m : Id} {b : ImplBody} {z : Item} {plan : FilePlan PageKind}
    {a : String} (hplaced : s.Placed o) (hblock : s.source.HasBlock i b)
    (htarget : b.target? = some o) (hm : m ∈ b.items)
    (hz : s.source.items.get? m = some z) (hplace : s.layout.fileFor m = none)
    (hleads : s.LeadsTo m plan a) : s.layout.fileFor o = some plan ∧
      a = memberAnchor (s.layout.anchorFor o) z z.displayName
        (if b.traitRef.isSome then some (Layout.implScope (s.source.traitName b)) else none) := by
  obtain ⟨y, hy, hb⟩ := hblock
  have hc := container_of_lists hs honce hy (Export.lists_block hb htarget hm)
  obtain ⟨howner, -⟩ := owner_of_block hs hc hy hb htarget
  obtain ⟨hfile, ha, -⟩ := hleads.of_owner hplace howner (h.fileFor_of_placed hplaced) hz
  rw [scopeOf_eq hc hy, hb] at ha
  exact ⟨hfile, ha⟩

/-- A member that the section of an item shows leads to the item's page, and to the anchor
that the section gives it. -/
theorem Planned.eq_of_shows {o m : Id} {x : Item} {plan : FilePlan PageKind} {a b : String}
    (hplaced : s.Placed o) (hx : s.source.items.get? o = some x)
    (hm : s.Shows x (s.layout.anchorFor o) m b) (hplace : s.layout.fileFor m = none)
    (hleads : s.LeadsTo m plan a) : s.layout.fileFor o = some plan ∧ a = b := by
  have hself := Items.id_of_get? hx
  cases hm with
  | field hb hm hz ht _ =>
    exact h.eq_of_lists hs honce hplaced hx (Export.lists_field hb hm) (by simp [hb]) hz
      hplace hleads
  | variant hb hv hz hbody =>
    exact h.eq_of_lists hs honce hplaced hx (Export.lists_variant hb hv) (by simp [hb]) hz
      hplace hleads
  | @variantField body v m y z vbody name hb hv hy hbody hshape hm hz hname =>
    have hcplace := h.fileFor_variant hs hplaced hy hbody
    have hcv := container_of_lists hs honce hx (Export.lists_variant hb hv)
    have hcm := container_of_lists hs honce hy (Export.lists_variantField hbody hm)
    obtain ⟨hvowner, -⟩ := owner_of_container hs hcv hx (by simp [hb])
    obtain ⟨howner, -⟩ := owner_of_container hs hcm hy (by simp [hbody])
    obtain ⟨hfile, ha⟩ := hleads.of_variant hplace howner hcplace hvowner
      (h.fileFor_of_placed hplaced) hy hz
    have hdisplay : z.displayName = name := by rw [Item.displayName, hname, Option.getD_some]
    rw [scopeOf_eq hcv hx, hb, scopeOf_eq hcm hy, hbody, hdisplay] at ha
    exact ⟨hfile, ha⟩
  | traitItem hb hm hz _ =>
    exact h.eq_of_lists hs honce hplaced hx (Export.lists_traitItem hb hm) (by simp [hb]) hz
      hplace hleads
  | inherent _ hblock hshows htrait hm hz _ _ =>
    have hresult := h.eq_of_block hs honce hplaced hblock (hself ▸ hshows.1) hm hz hplace hleads
    rwa [htrait] at hresult
  | implemented _ hblock hshows htrait hm hz _ =>
    have hresult := h.eq_of_block hs honce hplaced hblock (hself ▸ hshows.1) hm hz hplace hleads
    rwa [if_pos (Option.isSome_iff_ne_none.2 htrait)] at hresult

end

section

variable {s : Site}

/-- What a section notes of a member, it shows. -/
theorem shows_of_mem_notes (hsound : s.Sound) {id m : Id} {x : Item} {a : String}
    (hx : s.source.items.get? id = some x) {level : Int} {anchor : Option String} {page : Page}
    (hm : .member m a ∈ ((s.itemSection level anchor x).run page).notes) :
    s.Shows x anchor m a := by
  have hmark : Note.member m a ∈ ((s.itemSection level anchor x).run page).notes.filter
      Note.isMark := List.mem_filter.2 ⟨hm, rfl⟩
  have hmarks := (s.marks_itemSection hx level anchor page).first.subset hmark
  rcases List.mem_cons.1 hmarks with hsection | hmember
  · cases hsection
  · exact (mem_memberMarks hsound).1 hmember

/-- What a section shows, it notes, if it can be written. -/
theorem mem_notes_of_shows (hsound : s.Sound) (hfine : s.Writable) {id m : Id} {x : Item}
    {a : String} (hx : s.source.items.get? id = some x) {anchor : Option String}
    (hm : s.Shows x anchor m a) (level : Int) (page : Page) :
    .member m a ∈ ((s.itemSection level anchor x).run page).notes := by
  have hleaves := s.marks_itemSection hx level anchor page
  obtain ⟨r, hr⟩ := hleaves.ends hfine
  have hmarks : Note.member m a ∈ ((s.itemSection level anchor x).run page).notes.filter
      Note.isMark := by
    rw [hleaves.all r hr]
    exact List.mem_cons_of_mem _ ((mem_memberMarks hsound).2 hm)
  exact (List.mem_filter.1 hmarks).1

/-- What a page notes of a member, the section of an item on the page shows. -/
theorem Planned.exists_shows_of_mem_notes (h : s.Planned) {plan : FilePlan PageKind}
    (hplan : plan ∈ s.layout.files) {m : Id} {a : String}
    (hm : .member m a ∈ (s.document plan).notes) : ∃ id x, s.Placed id ∧
      s.layout.fileFor id = some plan ∧ s.source.items.get? id = some x ∧
      s.Shows x (s.layout.anchorFor id) m a := by
  have hmark : Note.member m a ∈ (s.document plan).notes.filter Note.isMark :=
    List.mem_filter.2 ⟨hm, rfl⟩
  have hmarks := (h.leaves_document hplan).first.subset hmark
  obtain ⟨p, hp, hpm⟩ := List.mem_flatMap.1 ((h.perm_pageMarks hplan).mem_iff.1 hmarks)
  obtain ⟨n, hn, hpn⟩ := h.exists_node hplan hp
  obtain ⟨x, hx⟩ := known_member (h.grown n hn) hpn
  unfold placementMarks at hpm
  split at hpm
  · next hprim =>
    rw [hx] at hpm
    rcases List.mem_cons.1 hpm with hsection | hmember
    · cases hsection
    · exact ⟨p.itemId, x, h.placed_of_member hn hpn, h.fileFor_of_placementsOn hplan hp hprim,
        hx, (mem_memberMarks h.sound).1 hmember⟩
  · cases List.mem_singleton.1 hpm

/-- A target within the package is the place that an id leads to. -/
theorem locate_of_resolve {id : Id} {title name href : String}
    (hid : s.resolve id title = .link .internal name href) :
    s.locate id = .target (.link .internal name href) := by
  unfold resolve at hid
  split at hid
  · next hlocate => rw [hlocate, hid]
  · cases hid

/-- Whatever is shown of a member that has no place of its own, a link to the member within the
package is to the page of the section and to the anchor that the section passes; the page that
was written has its tag. -/
structure LinksMembers (s : Site) : Prop where
  sections : ∀ id x, s.Placed id → s.source.items.get? id = some x → ∀ level page m a,
    .member m a ∈ ((s.itemSection level (s.layout.anchorFor id) x).run page).notes →
    s.layout.fileFor m = none → ∀ title name href,
    s.resolve m title = .link .internal name href →
    ∃ plan, s.layout.fileFor id = some plan ∧ href = s.layout.urlOf plan ++ "#" ++ a
  pages : ∀ plan ∈ s.layout.files, ∀ m a, .member m a ∈ (s.document plan).notes →
    s.layout.fileFor m = none → ∀ title name href,
    s.resolve m title = .link .internal name href →
    href = s.layout.urlOf plan ++ "#" ++ a ∧ ∀ d, (s.document plan).result = .ok d →
      Text.occursIn (Page.anchorTag a) d.body = true

theorem Planned.linksMembers (h : s.Planned) (hs : s.source.Indexed)
    (honce : s.source.ListedOnce) : s.LinksMembers where
  sections := by
    intro id x hplaced hx level page m a hm hplace title name href hid
    have hshows := shows_of_mem_notes h.sound hx hm
    rcases h.leadsTo_of_locate (locate_of_resolve hid) with
      ⟨plan, hfile, -⟩ | ⟨plan, b, hleads, rfl⟩
    · rw [hplace] at hfile
      cases hfile
    · obtain ⟨hfile, rfl⟩ := h.eq_of_shows hs honce hplaced hx hshows hplace hleads
      exact ⟨plan, hfile, rfl⟩
  pages := by
    intro plan hplan m a hm hplace title name href hid
    obtain ⟨id, x, hplaced, hfile, hx, hshows⟩ := h.exists_shows_of_mem_notes hplan hm
    rcases h.leadsTo_of_locate (locate_of_resolve hid) with
      ⟨other, hother, -⟩ | ⟨other, b, hleads, rfl⟩
    · rw [hplace] at hother
      cases hother
    · obtain ⟨hother, rfl⟩ := h.eq_of_shows hs honce hplaced hx hshows hplace hleads
      obtain rfl := Option.some.inj (hother.symm.trans hfile)
      refine ⟨rfl, fun d hd => ?_⟩
      obtain ⟨hdefined, htag⟩ := h.anchors_of_document hplan hd (a := b)
      exact htag (hdefined.2 ⟨m, h.anchored_of_shows hplaced hx hfile hshows⟩)

/-- **Links to members.** On the site of an export that lists no member in two items, links to
members meet the anchors of the sections that show them. -/
theorem linksMembers_of_plan {text : String} {x : Export} {o : Options} {s : Site}
    (hx : Export.parse text = .ok x) (h : Site.plan x o = .ok s)
    (honce : x.ListedOnce) : s.LinksMembers := by
  obtain ⟨rfl, -, hplanned⟩ := planned_of_plan h
  exact hplanned.linksMembers (Export.indexed_of_parse hx) honce

end

theorem listedOnce_castExport : castExport.ListedOnce :=
  Export.listedOnce_of_containers (by decide +kernel)

theorem placed_castSite : (castSite {}).Placed "1" := by
  refine ⟨by decide, fun n hn => ?_⟩
  rw [List.mem_singleton.1 hn]
  decide

theorem writable_castSite : (castSite {}).Writable := by
  have hschema : castExport.FollowsSchema := Sample.forall_crate (by decide)
  exact writable_of_followsSchema hschema ⟨_, rfl⟩

def castStruct : Item := Sample.struct "1" "Meter" ["2"]

/-- Its section shows the method of each conversion, with one anchor for all of them. -/
theorem shows_castMethod {i m : Id} (hi : castExport.items.get? i =
      some (Sample.item i "impl" none (.impl (castBlock m)) .default))
    (hm : castExport.items.get? m = some (Sample.function m "from" .default)) :
    (castSite {}).Shows castStruct (some "meter") m "meter-impl-from-method-from" := by
  have htrait : castExport.traitName (castBlock m) = "From" := by
    have hsame : castExport.traitName (castBlock m) = castExport.traitName (castBlock "4") := rfl
    rw [hsame]
    decide +kernel
  have hnoise : castExport.isNoise defaultNoise (castBlock m) = false := by
    have hsame : castExport.isNoise defaultNoise (castBlock m) =
        castExport.isNoise defaultNoise (castBlock "4") := rfl
    rw [hsame]
    decide +kernel
  have hanchor : Layout.memberAnchor (some "meter") "function" "from"
      (some (Layout.implScope "From")) = "meter-impl-from-method-from" := by decide +kernel
  have hshown := @Shows.implemented (castSite {}) castStruct (some "meter") i m (castBlock m) _
    (by decide) ⟨_, hi, rfl⟩ ⟨rfl, hnoise⟩ (by simp [castBlock]) List.mem_cons_self hm rfl
  have hsource : (castSite {}).source.traitName (castBlock m) = "From" := htrait
  rw [hsource] at hshown
  rw [← hanchor]
  exact hshown

/-- A method of a trait's implementation is linked by the anchor that the section of its struct
writes. -/
theorem linksMembers_of_plan_cast : Export.parse castText = .ok castExport ∧
    Site.plan castExport {} = .ok (castSite {}) ∧ castExport.ListedOnce ∧
    ∃ href, castExport.items.get? "1" = some castStruct ∧
      .member "4" "meter-impl-from-method-from" ∈
        (((castSite {}).itemSection 2 (some "meter") castStruct).run {}).notes ∧
      (castSite {}).resolve "4" "" = .link .internal "Meter::from" href ∧
      href = "/demo#meter-impl-from-method-from" := by
  have hlinks := linksMembers_of_plan parse_castText plan_castExport listedOnce_castExport
  have hstruct : (castSite {}).source.items.get? "1" = some castStruct := rfl
  have hmember := mem_notes_of_shows (sound_of_memory_eq rfl) writable_castSite hstruct
    (shows_castMethod (i := "3") (m := "4") rfl rfl) 2 {}
  have hid : (castSite {}).resolve "4" "" =
      .link .internal "Meter::from" "/demo#meter-impl-from-method-from" := by decide +kernel
  obtain ⟨plan, hfile, hhref⟩ := hlinks.sections "1" _ placed_castSite rfl 2 {} "4" _ hmember rfl
    "" _ _ hid
  obtain rfl : castPlan = plan := Option.some.inj hfile
  exact ⟨parse_castText, plan_castExport, listedOnce_castExport, _, rfl, hmember, hid,
    hhref.trans (by decide +kernel)⟩

end Site

end CrateBook
