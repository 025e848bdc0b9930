import CrateBook.Proofs.Memories
import CrateBook.Session

/-!
# Rendering the same

Two sites that are planned in the same way render the same, if they have the same addresses for
ids and the same blocks for types: nothing else is read of what they remember, and of the
exports no more than their look-ups. Each step gives the same result, or breaks off with the
same fault, and leaves the same notes. A site with a sound memory thus renders what the site
renders that remembers nothing.
-/
namespace CrateBook

namespace Declaration

variable {x y : Export} (h : x.Agrees y) (types : TypeText) (includePrivate : Bool)

include h

theorem visible?_of_agrees :
    visible? ⟨x, types, includePrivate⟩ = visible? ⟨y, types, includePrivate⟩ := by
  funext id
  rw [visible?, visible?, h.find?]

theorem structText_of_agrees :
    structText ⟨x, types, includePrivate⟩ = structText ⟨y, types, includePrivate⟩ := by
  have hvisible := visible?_of_agrees h types includePrivate
  have htuple : tupleField? ⟨x, types, includePrivate⟩ =
      tupleField? ⟨y, types, includePrivate⟩ := by
    funext id
    rw [tupleField?, hvisible, tupleField?]
  funext z b
  unfold structText tupleFields namedFields
  rw [hvisible, htuple]
  rfl

theorem variantText_of_agrees :
    variantText ⟨x, types, includePrivate⟩ = variantText ⟨y, types, includePrivate⟩ := by
  funext z b
  unfold variantText
  rw [h.find?]
  rfl

theorem enumText_of_agrees :
    enumText ⟨x, types, includePrivate⟩ = enumText ⟨y, types, includePrivate⟩ := by
  have hvariants : variants ⟨x, types, includePrivate⟩ = variants ⟨y, types, includePrivate⟩ := by
    funext b
    unfold variants variant?
    rw [h.items]
  have hline : variantLine ⟨x, types, includePrivate⟩ =
      variantLine ⟨y, types, includePrivate⟩ := by
    funext v
    rw [variantLine, variantText_of_agrees h, variantLine]
  funext z b
  unfold enumText
  rw [hvariants, hline]
  rfl

theorem traitText_of_agrees :
    traitText ⟨x, types, includePrivate⟩ = traitText ⟨y, types, includePrivate⟩ := by
  have hmembers : traitMembers ⟨x, types, includePrivate⟩ =
      traitMembers ⟨y, types, includePrivate⟩ := by
    funext b
    unfold traitMembers traitMember?
    rw [h.items]
  funext z b
  unfold traitText
  rw [hmembers]
  rfl

/-- Exports that agree give items the same declarations. -/
theorem render_of_agrees :
    render ⟨x, types, includePrivate⟩ = render ⟨y, types, includePrivate⟩ := by
  have htext : text ⟨x, types, includePrivate⟩ = text ⟨y, types, includePrivate⟩ := by
    funext z
    unfold text
    rw [structText_of_agrees h, enumText_of_agrees h, variantText_of_agrees h,
      traitText_of_agrees h]
    rfl
  funext z
  rw [render, htext, render]

end Declaration

namespace Site

/-- Two sites are planned in the same way, and have the same addresses and blocks. -/
structure Agrees (s t : Site) : Prop extends SamePlan s t where
  hrefOf : s.hrefOf = t.hrefOf
  implsOf : s.implsOf = t.implsOf

namespace Agrees

variable {s t : Site} (h : s.Agrees t)

include h

/-! ## References, docs and declarations -/

/-- Sites that agree typeset types alike. -/
theorem types : s.types = t.types := by
  rw [Site.types, h.hrefOf, Site.types]

theorem render : s.declarations.render = t.declarations.render := by
  rw [declarations, declarations, h.types, h.options.includePrivate]
  exact Declaration.render_of_agrees h.source _ _

/-- Sites that agree write the same declarations. -/
theorem declaration : s.declaration = t.declaration := by
  funext x
  rw [Site.declaration, h.render, Site.declaration]

theorem declarationBlock : s.declarationBlock = t.declarationBlock := by
  funext x
  rw [Site.declarationBlock, h.declaration, Site.declarationBlock]

theorem linkedDocs : s.linkedDocs = t.linkedDocs := by
  funext x
  rw [Site.linkedDocs, h.hrefOf, Site.linkedDocs]

theorem docs : s.docs = t.docs := by
  funext x
  rw [Site.docs, h.linkedDocs, Site.docs]

theorem docsBlock : s.docsBlock = t.docsBlock := by
  funext x
  rw [Site.docsBlock, h.docs, Site.docsBlock]

theorem summary : s.summary = t.summary := by
  funext x
  rw [Site.summary, h.linkedDocs, Site.summary]

theorem ask : s.ask = t.ask := by
  funext id title
  unfold Site.ask
  rw [h.hrefOf]

theorem linkTo : s.linkTo = t.linkTo := by
  funext id name
  rw [Site.linkTo, h.ask, Site.linkTo]

theorem breadcrumb : s.breadcrumb = t.breadcrumb := by
  have hlink : s.linkAt = t.linkAt := by
    funext path
    rw [linkAt, h.tree, h.moduleLink, linkAt]
  have hcrumbs (above path : List String) : s.crumbs above path = t.crumbs above path := by
    induction path generalizing above with
    | nil => rfl
    | cons segment rest ih => simp only [crumbs, hlink, ih]
  funext path
  rw [Site.breadcrumb, hcrumbs, Site.breadcrumb]

/-- Sites that agree find the same items. -/
theorem item : s.item = t.item := by
  funext id
  unfold Site.item
  rw [h.source.items]

/-! ## Sections of items -/

theorem memberSection : s.memberSection = t.memberSection := by
  funext owner level scope x
  unfold Site.memberSection
  rw [h.declarationBlock, h.docsBlock]

theorem fields : s.fields = t.fields := by
  have hrow : s.fieldRow = t.fieldRow := by
    funext owner id
    unfold fieldRow
    rw [h.source.find?, h.source.showsMember, h.options.includePrivate, h.types, h.summary]
  funext owner level b
  rw [Site.fields, hrow, Site.fields]

theorem variants : s.variants = t.variants := by
  have htag : s.variantFieldTag = t.variantFieldTag := by
    funext anchor id
    unfold variantFieldTag
    rw [h.source.find?]
  have hrow : s.variantRow = t.variantRow := by
    funext owner id
    unfold variantRow
    rw [h.source.items, h.declaration, h.summary, htag]
  funext owner level b
  rw [Site.variants, hrow, Site.variants]

theorem memberGroup : s.memberGroup = t.memberGroup := by
  funext owner level title xs
  rw [Site.memberGroup, h.memberSection, Site.memberGroup]

theorem traitItems : s.traitItems = t.traitItems := by
  have hgroup : s.traitGroup = t.traitGroup := by
    funext b title
    rw [traitGroup, h.source.items, traitGroup]
  funext owner level b
  rw [Site.traitItems, h.memberGroup, hgroup, Site.traitItems]

theorem implementors : s.implementors = t.implementors := by
  have himplementor : s.implementor = t.implementor := by
    funext id
    unfold implementor
    rw [h.source.payload?, h.source.isNoise, h.options.noiseTraits, h.types]
  funext level b
  rw [Site.implementors, himplementor, Site.implementors]

theorem traitImplSection : s.traitImplSection = t.traitImplSection := by
  funext owner level i
  unfold Site.traitImplSection
  rw [h.source.items, h.declarationBlock, h.docsBlock, h.memberSection]

/-- Sites that agree write the same implementations. -/
theorem implementations : s.implementations = t.implementations := by
  have hmarker : s.marker = t.marker := by
    funext i
    rw [marker, h.linkTo, marker]
  funext owner level x
  unfold Site.implementations
  rw [h.implsOf, h.source.showsMember, h.source.items, h.options.includePrivate, h.memberGroup,
    hmarker, h.traitImplSection]

/-- Sites that agree write the same sections for items. -/
theorem itemSection : s.itemSection = t.itemSection := by
  have hparts : s.sectionParts = t.sectionParts := by
    funext anchor level x
    unfold sectionParts
    rw [h.fields, h.variants, h.traitItems, h.implementors]
  funext level anchor x
  unfold Site.itemSection
  rw [h.declarationBlock, h.docsBlock, hparts, h.implementations]

/-! ## Sections of modules -/

theorem moduleName : s.moduleName = t.moduleName := by
  funext n
  rw [Site.moduleName, h.moduleLink, Site.moduleName]

theorem childModules : s.childModules = t.childModules := by
  have hrow : s.childRow = t.childRow := by
    funext n
    rw [childRow, h.moduleName, h.item, h.summary, childRow]
  funext level n
  rw [Site.childModules, hrow, Site.childModules]

theorem elsewhereEntry : s.elsewhereEntry = t.elsewhereEntry := by
  funext p
  rw [Site.elsewhereEntry, h.ask, h.tree, Site.elsewhereEntry]

theorem memberGroupOf : s.memberGroupOf = t.memberGroupOf := by
  have hrow : s.itemRow = t.itemRow := by
    funext p
    rw [itemRow, h.linkTo, h.item, h.summary, itemRow]
  have hmember : s.inlineMember = t.inlineMember := by
    funext level p
    rw [inlineMember, h.tree, h.item, h.layout, h.itemSection, h.elsewhereEntry, inlineMember]
  have hmembers : s.inlineMembers = t.inlineMembers := by
    funext level ps
    rw [inlineMembers, hmember, inlineMembers]
  funext level inFull members title
  unfold Site.memberGroupOf
  rw [hmembers, hrow]

theorem reexports : s.reexports = t.reexports := by
  have hreexport : s.reexport = t.reexport := by
    funext r
    rw [reexport, h.render, h.item, h.ask, reexport]
  funext level n
  rw [Site.reexports, hreexport, Site.reexports]

/-- Sites that agree write the same contents for modules. -/
theorem moduleContents : s.moduleContents = t.moduleContents := by
  have hkind : s.withKind = t.withKind := by
    funext p
    rw [withKind, h.item, withKind]
  funext level inFull n
  rw [Site.moduleContents, hkind, h.memberGroupOf, h.reexports, Site.moduleContents]

theorem moduleIntro : s.moduleIntro = t.moduleIntro := by
  funext n
  unfold Site.moduleIntro
  rw [h.tree, h.linkTo, h.docsBlock, h.item]

/-! ## Documents -/

theorem moduleLine : s.moduleLine = t.moduleLine := by
  funext path
  rw [Site.moduleLine, h.breadcrumb, Site.moduleLine]

/-- Sites that agree write the same pages for modules. -/
theorem modulePage : s.modulePage = t.modulePage := by
  funext title n
  unfold Site.modulePage
  rw [h.moduleLine, h.moduleIntro, h.childModules, h.moduleContents, h.options.mode]

theorem packagePage : s.packagePage = t.packagePage := by
  have hline : s.contentsLine = t.contentsLine := by
    funext n
    rw [contentsLine, h.moduleName, contentsLine]
  have hcontents : s.contents = t.contents := by
    funext modules
    rw [contents, hline, contents]
  have hsection : s.moduleSection = t.moduleSection := by
    funext n
    rw [moduleSection, h.tree, h.layout, h.moduleIntro, h.moduleContents, moduleSection]
  funext title root
  unfold Site.packagePage
  rw [h.moduleIntro, h.tree, hcontents, h.moduleContents, hsection]

/-- Sites that agree write the same pages for items. -/
theorem itemPage : s.itemPage = t.itemPage := by
  have hothers : s.otherPlacements = t.otherPlacements := by
    funext p
    rw [otherPlacements, h.tree, otherPlacements]
  funext title p
  unfold Site.itemPage
  rw [h.item, h.moduleLine, h.itemSection, hothers]

/-- A planned file has the same document. -/
theorem document : s.document = t.document := by
  funext plan
  unfold Site.document pageOf
  rw [h.packagePage, h.modulePage, h.itemPage]

/-- A step does the same. -/
theorem render_eq (r : Rendering) : s.render r = t.render r := by
  cases r with
  | declaration id => simp only [Site.render, h.render, h.item]
  | impls typeId => simp only [Site.render, h.implsOf]
  | section_ id level anchor => simp only [Site.render, h.itemSection, h.item]
  | docs id => simp only [Site.render, h.docs, h.item]
  | summary id => simp only [Site.render, h.summary, h.item]
  | linkTo id name => simp only [Site.render, h.linkTo]
  | breadcrumb path => simp only [Site.render, h.breadcrumb]
  | moduleLink path => simp only [Site.render, h.tree, h.moduleLink]
  | isShown id => simp only [Site.render, h.source.showsMember, h.options.includePrivate]
  | isIncluded id => simp only [Site.render, h.item, h.options.includePrivate]
  | typeText type => simp only [Site.render, h.types]
  | document plan => simp only [Site.render, h.document]

end Agrees

/-! ## Rendering from memory -/

namespace Sound

variable {s : Site} (h : s.Sound)

include h

theorem agrees_recalling : (s.recalling {}).Agrees s where
  toSamePlan := s.samePlan_recalling {}
  hrefOf := h.hrefOf_recalling
  implsOf := h.implsOf_recalling

/-- The document of a planned file is the same, whatever was remembered. -/
theorem document_recalling : (s.recalling {}).document = s.document :=
  h.agrees_recalling.document

/-- A step does what it does on the site that remembers nothing. -/
theorem render_recalling (r : Rendering) : (s.recalling {}).render r = s.render r :=
  h.agrees_recalling.render_eq r

end Sound

end Site

end CrateBook
