import CrateBook.Page.Writing

/-!
# Sections of items

The section of an item: its heading, declaration and docs, and then what belongs to it:
fields, variants, trait items, and implementation blocks. Members get the anchors by which
links lead to them.
-/
namespace CrateBook

/-- The words for kinds of items in headings. -/
def kindLabels : List (String × String) :=
  [("module", "Module"), ("struct", "Struct"), ("enum", "Enum"), ("union", "Union"),
   ("trait", "Trait"), ("trait_alias", "Trait Alias"), ("function", "Function"),
   ("type_alias", "Type Alias"), ("constant", "Constant"), ("static", "Static"),
   ("macro", "Macro"), ("proc_macro", "Macro"), ("primitive", "Primitive")]

/-- The word for a kind of item in a heading. -/
def kindLabel (kind : String) : String :=
  (kindLabels.lookup kind).getD (Text.title (Text.replaceChar '_' ' ' kind))

/-- Kinds whose sections list implementation blocks. -/
def implKinds : List String := ["struct", "enum", "union", "primitive"]

namespace Site

variable (s : Site)

def memberAnchor (owner : Option String) (x : Item) (name : String) (scope : Option String) :
    String :=
  Layout.memberAnchor owner x.kind name scope

def memberSection (owner : Option String) (level : Int) (scope : Option String) (x : Item) :
    OnPage Unit := do
  let anchor := memberAnchor owner x x.displayName scope
  Noting.note (.member x.id anchor)
  heading level (Markdown.code x.displayName) (some anchor)
  deprecation x
  s.declarationBlock x
  s.docsBlock x

/-- The row of a field, with the links of its type; none for one that is not shown. -/
def fieldRow (owner : Option String) (id : Option Id) :
    OnPage (Option (List String × List Link)) := do
  match s.source.find? id with
  | none => return none
  | some x =>
    match x.payload with
    | .structField t =>
      if s.source.showsMember s.options.includePrivate x.id then do
        let anchor := memberAnchor owner x x.displayName none
        Noting.note (.member x.id anchor)
        let tag ← defineAnchor anchor
        let (type, links) ← (s.types.type t).withLinks
        let summary ← s.summary x
        return some ([tag ++ Markdown.code x.displayName, Segment.writeAll .markdown type,
          summary], links)
      else return none
    | _ => return none

/-- The table of a struct's fields; gives the links of their types. -/
def fields (owner : Option String) (level : Int) (b : StructBody) : OnPage (List Link) := do
  let rows := (← b.fields.mapM (s.fieldRow owner)).filterMap id
  if !rows.isEmpty then
    heading level "Fields" none
    addLines [Markdown.table ["Name", "Type", "Description"] (rows.map (·.1)), ""]
  return rows.flatMap (·.2)

/-- The tag of a variant's field; empty for one without a name. -/
def variantFieldTag (variantAnchor : String) (id : Option Id) : OnPage String := do
  match s.source.find? id with
  | none => return ""
  | some x =>
    match x.name with
    | none => return ""
    | some name => do
      let anchor := memberAnchor (some variantAnchor) x name none
      Noting.note (.member x.id anchor)
      defineAnchor anchor

/-- The row of a variant; none for an item that is no variant. -/
def variantRow (owner : Option String) (id : Id) : OnPage (Option (List String)) := do
  match s.source.items.get? id with
  | none => return none
  | some x =>
    match x.payload with
    | .variant b => do
      let anchor := memberAnchor owner x x.displayName none
      Noting.note (.member x.id anchor)
      let tag ← defineAnchor anchor
      let tags ←
        if b.shape == "struct" then b.fields.mapM (s.variantFieldTag anchor) else pure []
      let code ← s.declaration x
      let summary ← s.summary x
      return some [tag ++ String.join tags ++ Markdown.code code, summary]
    | _ => return none

/-- The table of an enum's variants. -/
def variants (owner : Option String) (level : Int) (b : EnumBody) : OnPage Unit := do
  let rows := (← b.variants.mapM (s.variantRow owner)).filterMap id
  if !rows.isEmpty then
    heading level "Variants" none
    addLines [Markdown.table ["Variant", "Description"] rows, ""]

/-- The heading under which a trait's item stands. -/
def traitHeading? (x : Item) : Option String :=
  match x.payload with
  | .assocType _ => some "Associated Types"
  | .assocConst _ => some "Associated Constants"
  | .function b => some (if b.hasBody then "Provided Methods" else "Required Methods")
  | _ => none

/-- The headings of a trait's items, in order. -/
def traitHeadings : List String :=
  ["Associated Types", "Associated Constants", "Required Methods", "Provided Methods"]

def traitGroup (b : TraitBody) (title : String) : List Item :=
  (b.items.filterMap s.source.items.get?).filter fun x => traitHeading? x == some title

/-- Sections under a heading, where there are any. -/
def memberGroup (owner : Option String) (level : Int) (title : String) (xs : List Item) :
    OnPage Unit := do
  if !xs.isEmpty then
    heading level title none
    xs.forM (s.memberSection owner (level + 1) none)

def traitItems (owner : Option String) (level : Int) (b : TraitBody) : OnPage Unit :=
  traitHeadings.forM fun title => s.memberGroup owner level title (s.traitGroup b title)

/-- The type that a block implements a trait for, with the links in it; none for noise. -/
def implementor (id : Id) : Noting (Option (String × List Link)) := do
  match s.source.items.payload? id with
  | some (.impl b) =>
    if s.source.isNoise s.options.noiseTraits b then return none
    else do
      let (type, links) ← (s.types.type b.forType).withLinks
      return some ((if b.isNegative then "!" else "") ++ Segment.writeAll .markdown type, links)
  | _ => return none

/-- The list of types that implement a trait; gives the links in them. -/
def implementors (level : Int) (b : TraitBody) : OnPage (List Link) := do
  let found := (← b.implementations.mapM fun id => do s.implementor id).filterMap id
  if !found.isEmpty then
    heading level "Implementors" none
    let names := (found.map (·.1)).eraseDups.mergeSort fun a b => a ≤ b
    addLines (names.map ("- " ++ ·) ++ [""])
  return found.flatMap (·.2)

/-- A reference to the trait of an implementation that says nothing more. -/
def marker (t : TraitImpl) : OnPage String := do
  let link ← s.linkTo t.traitId t.name
  return (if t.isNegative then "!" else "") ++ link

/-- The section of a trait's implementation. -/
def traitImplSection (owner : Option String) (level : Int) (t : TraitImpl) : OnPage Unit := do
  match s.source.items.get? t.implId with
  | none => return
  | some x => do
    heading (level + 1) ("impl " ++ t.name) none
    s.declarationBlock x
    s.docsBlock x
    let members := t.members.filterMap s.source.items.get?
    members.forM (s.memberSection owner (level + 2) (some (Layout.implScope t.name)))
    if !t.defaults.isEmpty then
      addLines ["Provided by default: " ++ ", ".intercalate (t.defaults.map Markdown.code), ""]

/-- The implementation blocks of a type. -/
def implementations (owner : Option String) (level : Int) (x : Item) : OnPage Unit := do
  Noting.note (.classified x.id)
  let group := s.implsOf x.id
  let shown := group.inherentMembers.filter (s.source.showsMember s.options.includePrivate)
  s.memberGroup owner level "Methods" (shown.filterMap s.source.items.get?)
  let traits := group.traitImpls
  if !traits.isEmpty then
    heading level "Trait Implementations" none
    let markers ← (traits.filter (·.isMarker)).mapM s.marker
    if !markers.isEmpty then
      addLines ["**Traits:** " ++ ", ".intercalate markers, ""]
    (traits.filter fun t => !t.isMarker).forM (s.traitImplSection owner level)

/-- What belongs to an item of its kind; gives the links of types in tables and lists. -/
def sectionParts (anchor : Option String) (level : Int) (x : Item) : OnPage (List Link) := do
  match x.payload with
  | .struct b => s.fields anchor level b
  | .enum b => do
    s.variants anchor level b
    return []
  | .trait b => do
    s.traitItems anchor level b
    s.implementors level b
  | _ => return []

def itemSection (level : Int) (anchor : Option String) (x : Item) : OnPage Unit := do
  Noting.note (.section_ x.id anchor)
  heading level (kindLabel x.kind ++ " " ++ x.displayName) anchor
  deprecation x
  s.declarationBlock x
  s.docsBlock x
  let links ← s.sectionParts anchor (level + 1) x
  if implKinds.contains x.kind then
    s.implementations anchor (level + 1) x
  addLinks links

end Site

end CrateBook
