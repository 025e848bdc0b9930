import CrateBook.Page.Section

/-!
# Sections of modules

What a module shows: its child modules, its items in groups by kind, and its re-exports of
items that are not documented here. The items are shown in full, or in tables that lead to
their pages. An item that is shown in full is so at its primary placement; at any other one
it is listed with a link.
-/
namespace CrateBook

/-- The headings under which kinds of items stand. -/
def groupTitles : List (String × String) :=
  [("struct", "Structs"), ("enum", "Enums"), ("union", "Unions"), ("trait", "Traits"),
   ("trait_alias", "Trait Aliases"), ("function", "Functions"),
   ("type_alias", "Type Aliases"), ("constant", "Constants"), ("static", "Statics"),
   ("macro", "Macros"), ("proc_macro", "Macros"), ("primitive", "Primitives")]

/-- The heading under which all other kinds stand. -/
def otherItems : String := "Other Items"

/-- The heading under which items of a kind stand. -/
def groupTitle (kind : String) : String := (groupTitles.lookup kind).getD otherItems

/-- The headings of groups, in the order in which a module shows them. -/
def groupOrder : List String := (groupTitles.map (·.2)).eraseDups ++ [otherItems]

namespace Site

variable (s : Site)

def item (id : Id) : Noting Item :=
  match s.source.items.get? id with
  | some x => return x
  | none => Noting.fail .noSuchKey

/-- The name of a module with a link where the module has one. -/
def moduleName (n : Node) : OnPage String := do
  let href := s.moduleLink n
  addLinks (href.toList.map fun h => ⟨n.name, h⟩)
  return Target.markdownLink n.name href

def childRow (n : Node) : OnPage (List String) := do
  let name ← s.moduleName n
  let x ← s.item n.id
  return [name, ← s.summary x]

/-- A table of what belongs to a module. -/
def overviewTable (rows : List (List String)) : List String :=
  [Markdown.table ["Name", "Description"] rows, ""]

/-- The table of a module's child modules. -/
def childModules (level : Int) (n : Node) : OnPage Unit := do
  if n.children.isEmpty then return
  let rows ← n.children.mapM s.childRow
  heading level "Modules" none
  addLines (overviewTable rows)

/-- The row of an item that has a page of its own. -/
def itemRow (p : Placement) : OnPage (List String) := do
  let link ← s.linkTo p.itemId p.name
  let x ← s.item p.itemId
  return [link, ← s.summary x]

/-- The entry of an item whose section is elsewhere. -/
def elsewhereEntry (p : Placement) : OnPage String := do
  let href ← s.ask p.itemId p.name
  addLinks (href.toList.map fun h => ⟨p.name, h⟩)
  Noting.note (.entry p href)
  let path := match s.tree.placements.primary? p.itemId with
    | some q => q.path
    | none => []
  return "- " ++ Target.markdownLink p.name href ++
    " (re-export of " ++ Markdown.code ("::".intercalate path) ++ ")"

/-- The section of an item at its primary placement, or its entry at another one. -/
def inlineMember (level : Int) (p : Placement) : OnPage (Option String) := do
  if s.tree.placements.isPrimary p then
    let x ← s.item p.itemId
    s.itemSection level (s.layout.anchorFor p.itemId) x
    return none
  else return some (← s.elsewhereEntry p)

/-- The items of a group, in full. -/
def inlineMembers (level : Int) (ps : List Placement) : OnPage Unit := do
  let entries := (← ps.mapM (s.inlineMember level)).filterMap id
  if !entries.isEmpty then
    addLines (entries ++ [""])

/-- The members of a module whose kinds stand under a heading. -/
def membersUnder (title : String) (members : List (Placement × String)) : List Placement :=
  (members.filter fun m => groupTitle m.2 == title).map (·.1)

/-- The items of a module under one heading, where there are any. -/
def memberGroupOf (level : Int) (inFull : Bool) (members : List (Placement × String))
    (title : String) : OnPage Unit := do
  let ps := membersUnder title members
  if ps.isEmpty then return
  heading level title none
  if inFull then s.inlineMembers (level + 1) ps
  else do
    let rows ← ps.mapM s.itemRow
    addLines (overviewTable rows)

/-- A member of a module with its kind. -/
def withKind (p : Placement) : Noting (Placement × String) := do
  return (p, (← s.item p.itemId).kind)

/-- A re-export of an item that is not documented here: its declaration, with a link to the
item where there is one. -/
def reexport (r : ReExport) : OnPage Unit := do
  let declared ← s.declarations.render (← s.item r.itemId)
  let href ← s.ask r.target r.name
  addLinks (href.toList.map fun h => ⟨r.name, h⟩)
  addLines ["- " ++ Target.markdownLink (Markdown.code declared.code) href]

/-- The list of a module's re-exports. -/
def reexports (level : Int) (n : Node) : OnPage Unit := do
  if n.reexports.isEmpty then return
  heading level "Re-exports" none
  n.reexports.forM s.reexport
  addLines [""]

/-- The items and re-exports of a module. -/
def moduleContents (level : Int) (inFull : Bool) (n : Node) : OnPage Unit := do
  let members ← n.members.mapM fun p => do s.withKind p
  groupOrder.forM (s.memberGroupOf level inFull members)
  s.reexports level n

/-- Where a module has its own place, for a node that is not it; then the module's docs. -/
def moduleIntro (n : Node) : OnPage Unit := do
  match s.tree.placements.primary? n.id with
  | some p =>
    if p.path != n.path then
      let link ← s.linkTo n.id ("::".intercalate p.path)
      addLines ["Re-export of " ++ link ++ ".", ""]
  | none => pure ()
  s.docsBlock (← s.item n.id)

end Site

end CrateBook
