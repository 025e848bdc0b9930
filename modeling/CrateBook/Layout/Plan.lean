import CrateBook.Layout.Basic
import CrateBook.Layout.Names
import CrateBook.Tree.Walk

/-!
# Planning a layout

The files of a module tree, in each of the three modes. Locations are planned before any
page is written, so that links can point at what will be there.
-/
namespace CrateBook

/-- What a file shows: the whole package, one module, or one item. -/
inductive PageKind where
  | document (node : Node)
  | module (node : Node)
  | item (placement : Placement)

def PageKind.name : PageKind → String
  | document _ => "document"
  | module _ => "module"
  | item _ => "item"

namespace Layout

/-- The layout of a module tree. -/
abbrev Planned := Layout PageKind

/-- A layout under way, with the clashes met so far. -/
abbrev Draft := Planned × List Collision

/-- The file of names that no item page may take. -/
def reservedFileNames : List String := ["index"]

def kindOf (x : Export) (id : Id) : String :=
  match x.items.get? id with
  | some item => item.kind
  | none => "unknown"

/-- The members of a node that stand at their primary placement. -/
def primaryMembers (t : Tree) (n : Node) : List Placement :=
  n.members.filter t.placements.isPrimary

/-- Gives the items of a page their anchors. -/
def placeAll (l : Planned) (plan : FilePlan PageKind) (anchors : Table Id String) : Planned :=
  anchors.entries.foldl (fun l a => l.placeAnchor a.1 plan a.2) l

/-- A request for an anchor made of a text. -/
def anchorRequest (id : Id) (kind text : String) : Request :=
  ⟨id, Markdown.headerSlug text, Markdown.headerSlug (kindPrefix kind ++ "-" ++ text)⟩

/-- The requests of a node for anchors on a page of the whole package. -/
def documentRequests (t : Tree) (x : Export) (n : Node) : List Request :=
  (if t.isPrimaryNode n then [anchorRequest n.id "module" ("-".intercalate n.path)] else []) ++
    (primaryMembers t n).map fun p =>
      anchorRequest p.itemId (kindOf x p.itemId) ("-".intercalate p.path)

/-- One page for the whole package. -/
def planSingle (t : Tree) (x : Export) (l : Planned) : Checked Draft := do
  let plan : FilePlan PageKind := ⟨"index.md", .document t.root, x.package.name, t.root.id⟩
  let (anchors, collisions) ←
    allocate "index.md" [] (t.modules.flatMap (documentRequests t x))
  return (placeAll (l.addFile plan false) plan anchors, collisions)

/-- The page of a module, with the anchors of its items. -/
def planModulePage (t : Tree) (x : Export) (d : Draft) (n : Node) : Checked Draft := do
  let plan : FilePlan PageKind := ⟨moduleFile n.path, .module n, n.name, n.id⟩
  let (anchors, collisions) ←
    allocate plan.path [] ((primaryMembers t n).map fun p =>
      anchorRequest p.itemId (kindOf x p.itemId) p.name)
  return (placeAll (d.1.addFile plan (t.isPrimaryNode n)) plan anchors, d.2 ++ collisions)

def planModules (t : Tree) (x : Export) (l : Planned) : Checked Draft :=
  t.modules.foldlM (planModulePage t x) (l, [])

/-- The module has a page of its own where items have pages. -/
def needsOverview (x : Export) (n : Node) : Bool :=
  (match x.items.get? n.id with
    | some item => !item.docs.isEmpty
    | none => false) || !n.reexports.isEmpty

/-- The overview pages of modules. -/
def planOverviews (t : Tree) (x : Export) (l : Planned) : Planned :=
  (t.modules.filter (needsOverview x)).foldl
    (fun l n => l.addFile ⟨moduleFile n.path, .module n, n.name, n.id⟩ (t.isPrimaryNode n)) l

def directoryOf (path : List String) : String := "/".intercalate path.tail

/-- The item pages of each directory. -/
def itemsByDirectory (t : Tree) : Table String (List Placement) :=
  t.modules.foldl (fun table n =>
    (primaryMembers t n).foldl (fun table p => table.push (directoryOf n.path) p) table) .empty

/-- The directories of child modules below each directory, in lower case: their links are
those of item pages of the same name. -/
def subdirectories (t : Tree) : Table String (List String) :=
  t.modules.foldl (fun table n =>
    if 1 < n.path.length then
      table.push (directoryOf n.path.dropLast) (Text.lower n.name)
    else table) .empty

/-- The order of the item pages of a directory: by name in lower case, then by id. -/
def pageLe (a b : Placement) : Bool :=
  let la := Text.lower a.name
  let lb := Text.lower b.name
  la < lb || (la == lb && a.itemId.key.le b.itemId.key)

def addItemPage (directory : String) (names : Table Id String) (l : Planned) (p : Placement) :
    Planned :=
  let file := (names.get? p.itemId).getD "" ++ ".md"
  let path := if directory.isEmpty then file else directory ++ "/" ++ file
  l.addFile ⟨path, .item p, p.name, p.itemId⟩ true

/-- The item pages of one directory. -/
def planDirectory (t : Tree) (x : Export) (d : Draft) (entry : String × List Placement) :
    Checked Draft := do
  let (directory, placements) := entry
  let reserved := reservedFileNames ++ ((subdirectories t).get? directory).getD []
  let (names, collisions) ←
    allocate directory reserved (placements.map fun p =>
      ⟨p.itemId, p.name, kindPrefix (kindOf x p.itemId) ++ "." ++ p.name⟩)
  return ((placements.mergeSort pageLe).foldl (addItemPage directory names) d.1,
    d.2 ++ collisions)

/-- A page for each item, and for the modules that have something to tell. -/
def planItems (t : Tree) (x : Export) (l : Planned) : Checked Draft :=
  ((itemsByDirectory t).entries.mergeSort fun a b => a.1 ≤ b.1).foldlM (planDirectory t x)
    (planOverviews t x l, [])

/-- The layout of a module tree, and the clashes that were met. -/
def plan (t : Tree) (x : Export) (mode : Mode) (basePath : String) : Checked Draft :=
  let l : Planned := { package := x.package.name, basePath }
  match mode with
  | .single => planSingle t x l
  | .module => planModules t x l
  | .item => planItems t x l

/-- The layout for the mode of a name; other names have none. -/
def planNamed (t : Tree) (x : Export) (mode basePath : String) : Checked Draft :=
  match Mode.ofName? mode with
  | some m => plan t x m basePath
  | none => .error .noSuchKey

end Layout

end CrateBook
