import CrateBook.Proofs.Coverage
import CrateBook.Proofs.Defines

/-!
# The anchors of pages

The anchors that a page defines are those that its marks tell of, and on a page of the whole
package those of the modules below the root. All other steps leave anchors alone.
-/
namespace CrateBook

open Markdown (IsAnchor)

open OnPage (Plain Defines Adds plain_pure plain_lift plain_mapM plain_forM plain_addLines
  plain_addLinks plain_heading defines_pure defines_addLines defines_defineAnchor adds_heading
  defines_mapM adds_mapM adds_forM)

def Note.anchor? : Note → Option String
  | section_ _ a => a
  | member _ a => some a
  | _ => none

def anchorsOf (notes : List Note) : List String := notes.filterMap Note.anchor?

theorem anchorsOf_append (ns ms : List Note) :
    anchorsOf (ns ++ ms) = anchorsOf ns ++ anchorsOf ms :=
  List.filterMap_append

theorem anchorsOf_member (id : Id) (a : String) (ns : List Note) :
    anchorsOf (.member id a :: ns) = [a] ++ anchorsOf ns := rfl

theorem anchorsOf_flatMap {α : Type} (f : α → List Note) (as : List α) :
    anchorsOf (as.flatMap f) = as.flatMap fun a => anchorsOf (f a) := by
  simp only [anchorsOf, List.filterMap_flatMap]

namespace Site

variable (s : Site)

section

variable (x : Item)

theorem plain_deprecation : Plain (deprecation x) := by
  unfold deprecation
  split
  · exact plain_pure _
  · exact plain_addLines _

theorem plain_docsBlock : Plain (s.docsBlock x) := by
  refine ((plain_lift _).bind fun _ => (plain_addLinks _).bind fun _ => plain_pure _).bind
    fun text => ?_
  split
  · exact plain_pure _
  · exact plain_addLines _

theorem plain_summary : Plain (s.summary x) := by
  refine (plain_lift _).bind fun r => ?_
  dsimp only
  split
  · exact plain_pure _
  · exact (plain_addLinks _).bind fun _ => plain_pure _

theorem plain_declaration : Plain (s.declaration x) :=
  (plain_lift _).bind fun _ => (plain_addLinks _).bind fun _ => plain_pure _

theorem plain_declarationBlock : Plain (s.declarationBlock x) :=
  (s.plain_declaration x).bind fun _ => plain_addLines _

theorem plain_linkTo (id : Option Id) (name : String) : Plain (s.linkTo id name) :=
  (plain_lift _).bind fun _ => (plain_addLinks _).bind fun _ => plain_pure _

/-- The section of a member adds the member's anchor. -/
theorem adds_memberSection (owner scope : Option String) (level : Int) :
    Adds (anchorsOf [memberMark owner scope x]) (s.memberSection owner level scope x) := by
  have hanchor : ∀ a, some (memberAnchor owner x x.displayName scope) = some a → IsAnchor a := by
    intro a ha
    exact Option.some.inj ha ▸ Layout.isAnchor_memberAnchor _ _ _ _
  exact (plain_lift _).after fun _ => (adds_heading _ _ hanchor).andThen fun _ =>
    (plain_deprecation x).bind fun _ => (s.plain_declarationBlock x).bind fun _ =>
      s.plain_docsBlock x

end

section

variable (owner : Option String)

/-- The cells of a row that may be missing. -/
def fieldCells (r : Option (List String × List Link)) : List String := (r.map (·.1)).getD []

theorem defines_fieldRow (id : Option Id) (held : List String) :
    Defines held (fun r => held ++ fieldCells r) (anchorsOf (s.fieldMarks owner id))
      (s.fieldRow owner id) := by
  have hnone : Defines held (fun r => held ++ fieldCells r) []
      (pure none : OnPage (Option (List String × List Link))) :=
    defines_pure (Page.keeps_of_subset (List.subset_append_left _ _))
  unfold fieldRow fieldMarks
  cases s.source.find? id with
  | none => exact hnone
  | some x =>
    dsimp only
    cases x.payload
    case structField t =>
      dsimp only
      split
      · refine (plain_lift _).after fun _ =>
          (defines_defineAnchor (Layout.isAnchor_memberAnchor _ _ _ _)).bind fun tag _ =>
            (plain_lift _).after fun r => (s.plain_summary x).after fun summary =>
              defines_pure ((Page.keeps_part fun t ht a htag => ?_).append held)
        rw [List.mem_singleton.1 ht] at htag
        exact Text.occursIn_append_right htag _
      · exact hnone
    all_goals exact hnone

/-- The table of fields writes the tags of its rows. -/
theorem adds_fields (level : Int) (b : StructBody) :
    Adds (anchorsOf (b.fields.flatMap (s.fieldMarks owner))) (s.fields owner level b) := by
  rw [anchorsOf_flatMap]
  have hrows := defines_mapM [] fun id (_ : id ∈ b.fields) held =>
    s.defines_fieldRow owner id held
  refine hrows.last fun bs => ?_
  have hcells : (bs.flatMap fieldCells) = ((bs.filterMap id).map (·.1)).flatten := by
    induction bs with
    | nil => rfl
    | cons r bs ih => cases r <;> simp_all [fieldCells]
  rw [List.nil_append, hcells]
  dsimp only
  split
  · exact (plain_heading _ _).after fun _ =>
      (defines_addLines (Page.keeps_table _ _)).last fun _ => (plain_pure _).defines
  · next hempty =>
    have hnil : bs.filterMap id = [] := by simpa using hempty
    rw [hnil]
    exact (plain_pure _).defines

theorem defines_variantFieldTag (variantAnchor : String) (id : Option Id) (held : List String) :
    Defines held (fun tag => held ++ [tag]) (anchorsOf (s.variantFieldMarks variantAnchor id))
      (s.variantFieldTag variantAnchor id) := by
  have hnone : Defines held (fun tag => held ++ [tag]) [] (pure "" : OnPage String) :=
    defines_pure (Page.keeps_of_subset (List.subset_append_left _ _))
  unfold variantFieldTag variantFieldMarks
  cases s.source.find? id with
  | none => exact hnone
  | some x =>
    dsimp only
    cases x.name with
    | none => exact hnone
    | some name =>
      exact (plain_lift _).after fun _ =>
        defines_defineAnchor (Layout.isAnchor_memberAnchor _ _ _ _)

/-- The row of a variant holds the tags of the variant and of its fields. -/
theorem defines_variantRow (id : Id) (held : List String) :
    Defines held (fun r => held ++ r.getD []) (anchorsOf (s.variantMarks owner id))
      (s.variantRow owner id) := by
  have hnone : Defines held (fun r => held ++ r.getD []) []
      (pure none : OnPage (Option (List String))) :=
    defines_pure (Page.keeps_of_subset (List.subset_append_left _ _))
  unfold variantRow variantMarks
  cases s.source.items.get? id with
  | none => exact hnone
  | some x =>
    dsimp only
    cases x.payload
    case variant b =>
      have hrest (tag : String) (tags : List String) :
          Defines (held ++ [tag] ++ tags.flatMap fun t => [t]) (fun r => held ++ r.getD []) [] (do
            let code ← s.declaration x
            let summary ← s.summary x
            return some [tag ++ String.join tags ++ Markdown.code code, summary]) := by
        refine (s.plain_declaration x).after fun code => (s.plain_summary x).after fun summary =>
          defines_pure ?_
        rw [List.append_assoc]
        refine (Page.keeps_part fun t ht a htag => ?_).append held
        refine Text.occursIn_append_right ?_ _
        rcases List.mem_append.1 ht with ht | ht
        · rw [List.mem_singleton.1 ht] at htag
          exact Text.occursIn_append_right htag _
        · obtain ⟨u, hu, ht⟩ := List.mem_flatMap.1 ht
          rw [List.mem_singleton.1 ht] at htag
          exact Text.occursIn_append_left (Text.occursIn_join hu htag) _
      have hanchor := Layout.isAnchor_memberAnchor owner x.kind x.displayName none
      by_cases hshape : (b.shape == "struct") = true
      · simp only [hshape, if_true]
        rw [memberMark, anchorsOf_member, anchorsOf_flatMap]
        refine (plain_lift _).after fun _ => (defines_defineAnchor hanchor).bind fun tag _ => ?_
        have hfields := defines_mapM (held ++ [tag]) fun f (_ : f ∈ b.fields) held =>
          s.defines_variantFieldTag (memberAnchor owner x x.displayName none) f held
        exact hfields.last fun tags => hrest tag tags
      · simp only [hshape]
        refine (plain_lift _).after fun _ => (defines_defineAnchor hanchor).last fun tag => ?_
        have hnotags : Defines (held ++ [tag])
            (fun tags => held ++ [tag] ++ tags.flatMap fun t => [t]) []
            (pure [] : OnPage (List String)) :=
          defines_pure (Page.keeps_of_subset (List.subset_append_left _ _))
        exact hnotags.last fun tags => hrest tag tags
    all_goals exact hnone

theorem adds_variants (level : Int) (b : EnumBody) :
    Adds (anchorsOf (b.variants.flatMap (s.variantMarks owner))) (s.variants owner level b) := by
  rw [anchorsOf_flatMap]
  have hrows := defines_mapM [] fun id (_ : id ∈ b.variants) held =>
    s.defines_variantRow owner id held
  refine hrows.last fun bs => ?_
  have hcells : (bs.flatMap fun r => r.getD []) = (bs.filterMap id).flatten := by
    induction bs with
    | nil => rfl
    | cons r bs ih => cases r <;> simp_all
  rw [List.nil_append, hcells]
  dsimp only
  split
  · exact (plain_heading _ _).after fun _ => defines_addLines (Page.keeps_table _ _)
  · next hempty =>
    have hnil : bs.filterMap id = [] := by simpa using hempty
    rw [hnil]
    exact (plain_pure _).defines

theorem adds_memberSections (scope : Option String) (level : Int) (xs : List Item) :
    Adds (anchorsOf (xs.map (memberMark owner scope)))
      (xs.forM (s.memberSection owner level scope)) := by
  rw [List.map_eq_flatMap, anchorsOf_flatMap]
  exact adds_forM fun x _ => s.adds_memberSection x owner scope level

theorem adds_memberGroup (level : Int) (title : String) (xs : List Item) :
    Adds (anchorsOf (xs.map (memberMark owner none))) (s.memberGroup owner level title xs) := by
  unfold memberGroup
  split
  · exact (plain_heading _ _).after fun _ => s.adds_memberSections owner none _ xs
  · next hempty =>
    have hnil : xs = [] := by simpa using hempty
    rw [hnil]
    exact (plain_pure _).defines

theorem adds_traitItems (level : Int) (b : TraitBody) :
    Adds (anchorsOf (s.traitMarks owner b)) (s.traitItems owner level b) := by
  rw [traitMarks, anchorsOf_flatMap]
  exact adds_forM fun title _ => s.adds_memberGroup owner level title _

theorem plain_implementors (level : Int) (b : TraitBody) : Plain (s.implementors level b) := by
  refine (plain_mapM (fun id => plain_lift (s.implementor id)) b.implementations).bind
    fun found => ?_
  dsimp only
  split
  · exact (plain_heading _ _).bind fun _ => (plain_addLines _).bind fun _ => plain_pure _
  · exact plain_pure _

theorem adds_sectionParts (level : Int) (x : Item) :
    Defines [] (fun _ => []) (anchorsOf (s.partMarks owner x)) (s.sectionParts owner level x) := by
  unfold sectionParts partMarks
  cases x.payload
  case struct b => exact s.adds_fields owner level b
  case enum b => exact (s.adds_variants owner level b).andThen fun _ => plain_pure _
  case trait b =>
    exact (s.adds_traitItems owner level b).andThen fun _ => s.plain_implementors level b
  all_goals exact (plain_pure _).defines

theorem adds_traitImplSection (level : Int) (t : TraitImpl) :
    Adds (anchorsOf (s.traitImplMarks owner t)) (s.traitImplSection owner level t) := by
  unfold traitImplSection traitImplMarks
  cases s.source.items.get? t.implId with
  | none => exact (plain_pure _).defines
  | some x =>
    refine (plain_heading _ _).after fun _ => (s.plain_declarationBlock x).after fun _ =>
      (s.plain_docsBlock x).after fun _ => ?_
    refine (s.adds_memberSections owner _ _ _).andThen fun _ => ?_
    split
    · exact plain_addLines _
    · exact plain_pure _

theorem adds_implementations (level : Int) (x : Item) :
    Adds (anchorsOf (s.implMarks owner x)) (s.implementations owner level x) := by
  have hmarker (t : TraitImpl) : Plain (s.marker t) :=
    (s.plain_linkTo _ _).bind fun _ => plain_pure _
  have hsections : Adds
      (anchorsOf (((s.implsOf x.id).traitImpls.filter fun t => !t.isMarker).flatMap
        (s.traitImplMarks owner)))
      (((s.implsOf x.id).traitImpls.filter fun t => !t.isMarker).forM
        (s.traitImplSection owner level)) := by
    rw [anchorsOf_flatMap]
    exact adds_forM fun t _ => s.adds_traitImplSection owner level t
  unfold implMarks
  rw [anchorsOf_append]
  refine (plain_lift _).after fun _ =>
    (s.adds_memberGroup owner level "Methods" _).bind fun _ _ => ?_
  dsimp only
  split
  · refine (plain_heading _ _).after fun _ => (plain_mapM hmarker _).after fun markers => ?_
    split
    · exact (plain_addLines _).after fun _ => hsections
    · exact hsections
  · next hempty =>
    have hnil : (s.implsOf x.id).traitImpls = [] := by simpa using hempty
    rw [hnil]
    exact (plain_pure _).defines

/-- The section of an item adds the item's anchor and those of the members that it shows. -/
theorem adds_itemSection (level : Int) {anchor : Option String}
    (h : ∀ a, anchor = some a → IsAnchor a) (x : Item) :
    Adds (anchorsOf (.section_ x.id anchor :: s.memberMarks anchor x))
      (s.itemSection level anchor x) := by
  have hself : anchorsOf (.section_ x.id anchor :: s.memberMarks anchor x) =
      anchor.toList ++ anchorsOf (s.memberMarks anchor x) := by
    cases anchor <;> rfl
  rw [hself, memberMarks, anchorsOf_append]
  refine (plain_lift _).after fun _ => (adds_heading _ _ h).bind fun _ _ =>
    (plain_deprecation x).after fun _ => (s.plain_declarationBlock x).after fun _ =>
      (s.plain_docsBlock x).after fun _ => (s.adds_sectionParts anchor _ x).bind fun links _ => ?_
  split
  · exact (s.adds_implementations anchor _ x).andThen fun _ => plain_addLinks _
  · exact (plain_addLinks _).defines

end

/-- The anchor of a module's section, which only the module's own node has. -/
def moduleAnchor (n : Node) : Option String :=
  if s.tree.isPrimaryNode n then s.layout.anchorFor n.id else none

def pageAnchors : PageKind → List String
  | .document root => anchorsOf (s.contentMarks root) ++ s.tree.modules.tail.flatMap fun n =>
      (s.moduleAnchor n).toList ++ anchorsOf (s.contentMarks n)
  | .module n => anchorsOf (s.pageMarks (.module n))
  | .item p => anchorsOf (s.pageMarks (.item p))

section

theorem plain_moduleName (n : Node) : Plain (s.moduleName n) :=
  (plain_addLinks _).bind fun _ => plain_pure _

theorem plain_crumbs (above path : List String) : Plain (s.crumbs above path) := by
  induction path generalizing above with
  | nil => exact plain_pure _
  | cons segment rest ih =>
    exact (plain_addLinks _).bind fun _ => (ih _).bind fun _ => plain_pure _

theorem plain_moduleLine (modulePath : List String) : Plain (s.moduleLine modulePath) :=
  ((s.plain_crumbs _ _).bind fun _ => plain_pure _).bind fun _ => plain_addLines _

theorem plain_otherPlacements (p : Placement) : Plain (s.otherPlacements p) := by
  unfold otherPlacements
  dsimp only
  split
  · exact plain_addLines _
  · exact plain_pure _

theorem plain_contents (modules : List Node) : Plain (s.contents modules) := by
  unfold contents
  split
  · exact plain_pure _
  · exact (plain_heading _ _).bind fun _ => (plain_forM (fun n =>
      (s.plain_moduleName n).bind fun _ => plain_addLines _) _).bind fun _ => plain_addLines _

theorem plain_moduleIntro (n : Node) : Plain (s.moduleIntro n) := by
  have hdocs : Plain (do s.docsBlock (← s.item n.id)) :=
    (plain_lift _).bind fun x => s.plain_docsBlock x
  unfold moduleIntro
  split
  · dsimp only
    split
    · exact (s.plain_linkTo _ _).bind fun _ => (plain_addLines _).bind fun _ => hdocs
    · exact hdocs
  · exact hdocs

theorem plain_childModules (level : Int) (n : Node) : Plain (s.childModules level n) := by
  unfold childModules
  split
  · exact plain_pure _
  · refine (plain_mapM (fun c => ?_) _).bind fun rows =>
      (plain_heading _ _).bind fun _ => plain_addLines _
    exact (s.plain_moduleName c).bind fun _ => (plain_lift _).bind fun x =>
      (s.plain_summary x).bind fun _ => plain_pure _

theorem plain_itemRow (p : Placement) : Plain (s.itemRow p) :=
  (s.plain_linkTo _ _).bind fun _ => (plain_lift _).bind fun x =>
    (s.plain_summary x).bind fun _ => plain_pure _

theorem plain_elsewhereEntry (p : Placement) : Plain (s.elsewhereEntry p) :=
  (plain_lift _).bind fun _ => (plain_addLinks _).bind fun _ => (plain_lift _).bind fun _ =>
    plain_pure _

theorem plain_reexports (level : Int) (n : Node) : Plain (s.reexports level n) := by
  unfold reexports
  split
  · exact plain_pure _
  · refine (plain_heading _ _).bind fun _ => (plain_forM (fun r => ?_) _).bind
      fun _ => plain_addLines _
    exact (plain_lift _).bind fun x => (plain_lift _).bind fun _ => (plain_lift _).bind fun _ =>
      (plain_addLinks _).bind fun _ => plain_addLines _

end

section

variable {s} {β : Type} {held more : List String} {text : β → List String}

/-- A step on an item that is looked up first. -/
theorem defines_withItem {id : Id} {f : Item → OnPage β}
    (hf : ∀ x, s.source.items.get? id = some x → Defines held text more (f x)) :
    Defines held text more ((liftM (s.item id) : OnPage Item) >>= f) := by
  refine List.nil_append more ▸ (plain_lift (s.item id)).defines.bind fun x hx => hf x ?_
  obtain ⟨p, q, hx⟩ := hx
  exact s.item_eq_ok.1 (OnPage.run_lift_eq_ok.1 hx).1

variable (hanchors : ∀ id a, s.layout.anchorFor id = some a → IsAnchor a)

include hanchors

/-- A member adds the anchors of its section, or none where its section is elsewhere. -/
theorem adds_inlineMember (level : Int) (p : Placement) :
    Defines [] (fun _ => []) (anchorsOf (s.placementMarks p)) (s.inlineMember level p) := by
  unfold inlineMember placementMarks
  split
  · refine defines_withItem fun x hx => ?_
    rw [hx]
    exact (s.adds_itemSection _ (hanchors p.itemId) x).andThen fun _ => plain_pure _
  · exact ((s.plain_elsewhereEntry p).bind fun _ => plain_pure _).defines

theorem adds_inlineMembers (level : Int) (ps : List Placement) :
    Adds (anchorsOf (ps.flatMap s.placementMarks)) (s.inlineMembers level ps) := by
  rw [anchorsOf_flatMap]
  refine (adds_mapM fun p _ => adds_inlineMember hanchors level p).andThen fun entries => ?_
  dsimp only
  split
  · exact plain_addLines _
  · exact plain_pure _

theorem adds_memberGroupOf (level : Int) (inFull : Bool) (n : Node) (title : String) :
    Adds (anchorsOf
      (if inFull then (membersUnder title (s.kindedMembers n)).flatMap s.placementMarks else []))
      (s.memberGroupOf level inFull (s.kindedMembers n) title) := by
  unfold memberGroupOf
  generalize membersUnder title (s.kindedMembers n) = ps
  cases inFull with
  | true =>
    simp only [if_true]
    split
    · next hempty =>
      have hnil : ps = [] := by simpa using hempty
      rw [hnil]
      exact (plain_pure _).defines
    · exact (plain_heading _ _).after fun _ => adds_inlineMembers hanchors _ ps
  | false =>
    simp only [Bool.false_eq_true, if_false]
    split
    · exact (plain_pure _).defines
    · exact ((plain_heading _ _).bind fun _ => (plain_mapM s.plain_itemRow ps).bind
        fun _ => plain_addLines _).defines

/-- The items of a module add their anchors where the module shows them in full. -/
theorem adds_moduleContents (level : Int) (inFull : Bool) (n : Node) :
    Adds (anchorsOf (if inFull then s.contentMarks n else []))
      (s.moduleContents level inFull n) := by
  have hgroups : Adds (anchorsOf (if inFull then s.contentMarks n else []))
      (groupOrder.forM (s.memberGroupOf level inFull (s.kindedMembers n))) := by
    have hforM := adds_forM fun title (_ : title ∈ groupOrder) =>
      adds_memberGroupOf hanchors level inFull n title
    rw [← anchorsOf_flatMap] at hforM
    cases inFull with
    | true => exact hforM
    | false =>
      have hnil : (groupOrder.flatMap fun _ => ([] : List Note)) = [] := by simp
      exact hnil ▸ hforM
  have hkinds : Plain (n.members.mapM fun p => (do s.withKind p : OnPage _)) :=
    plain_mapM (fun p => plain_lift (s.withKind p)) _
  generalize (if inFull then s.contentMarks n else []) = marks at hgroups ⊢
  refine List.nil_append (anchorsOf marks) ▸ hkinds.defines.bind fun members hmembers => ?_
  obtain ⟨p, q, hmembers⟩ := hmembers
  obtain rfl := mapM_withKind_eq_ok hmembers
  exact hgroups.andThen fun _ => s.plain_reexports level n

theorem adds_modulePage (title : String) (n : Node) :
    Adds (anchorsOf (if s.options.mode == .module then s.contentMarks n else []))
      (s.modulePage title n) := by
  have hrest : Adds (anchorsOf (if s.options.mode == .module then s.contentMarks n else []))
      (do
        heading 1 ((if n.path.length == 1 then "Crate" else "Module") ++ " " ++ n.name) none
        s.moduleIntro n
        s.childModules 2 n
        s.moduleContents 2 (s.options.mode == .module) n) :=
    (plain_heading _ _).after fun _ => (s.plain_moduleIntro n).after fun _ =>
      (s.plain_childModules 2 n).after fun _ => adds_moduleContents hanchors 2 _ n
  generalize (if s.options.mode == .module then s.contentMarks n else []) = marks at hrest ⊢
  refine (plain_addLines _).after fun _ => ?_
  dsimp only
  split
  · exact (s.plain_moduleLine _).after fun _ => hrest
  · exact hrest

/-- The section of a module below the root has the module's anchor in front. -/
theorem adds_moduleSection (n : Node) :
    Adds ((s.moduleAnchor n).toList ++ anchorsOf (s.contentMarks n)) (s.moduleSection n) := by
  have hself : ∀ a, s.moduleAnchor n = some a → IsAnchor a := by
    unfold moduleAnchor
    split
    · exact hanchors n.id
    · simp
  exact (adds_heading _ _ hself).bind fun _ _ => (s.plain_moduleIntro n).after fun _ =>
    adds_moduleContents hanchors 3 true n

theorem adds_packagePage (title : String) (root : Node) :
    Adds (s.pageAnchors (.document root)) (s.packagePage title root) :=
  (plain_addLines _).after fun _ => (plain_heading _ _).after fun _ =>
    (s.plain_moduleIntro root).after fun _ => (s.plain_contents _).after fun _ =>
      (adds_moduleContents hanchors 2 true root).bind fun _ _ =>
        adds_forM fun n _ => adds_moduleSection hanchors n

omit hanchors in
theorem adds_itemPage (title : String) (p : Placement) :
    Adds (s.pageAnchors (.item p)) (s.itemPage title p) := by
  refine defines_withItem fun x hx => ?_
  simp only [pageAnchors, pageMarks, hx]
  exact (plain_addLines _).after fun _ => (s.plain_moduleLine _).after fun _ =>
    (s.adds_itemSection 1 (by simp) x).andThen fun _ => s.plain_otherPlacements p

theorem adds_pageOf (plan : FilePlan PageKind) :
    Adds (s.pageAnchors plan.page) (s.pageOf plan) := by
  unfold pageOf
  cases plan.page with
  | document root => exact adds_packagePage hanchors _ root
  | module n => exact adds_modulePage hanchors _ n
  | item p => exact adds_itemPage _ p

/-- The anchors of a page that was written, and their tags in its text. -/
theorem anchors_document {plan : FilePlan PageKind} {d : Document}
    (h : (s.document plan).result = .ok d) {a : String} :
    (a ∈ d.page.anchors ↔ a ∈ s.pageAnchors plan.page) ∧
      (a ∈ d.page.anchors → Text.occursIn (Page.anchorTag a) d.body = true) := by
  obtain ⟨⟨u, page⟩, hpage, heq⟩ := Noting.bind_eq_ok.1 h
  cases heq
  have hadds := adds_pageOf hanchors plan
  constructor
  · rw [hadds.adds {} u page hpage]
    simp
  · intro ha
    have hempty : ({} : Page).Covers [] := by simp [Page.Covers]
    obtain ⟨-, l, hl, htag⟩ := hadds.covers {} u page hpage hempty a ha
    rw [List.append_nil] at hl
    exact Page.occursIn_body hl htag

end

end Site

end CrateBook
