import CrateBook.Impls
import CrateBook.Layout.Anchor
import CrateBook.Layout.Plan
import CrateBook.Link
import CrateBook.Options
import CrateBook.TypeText.Basic

/-!
# Sites

A site is a package with its module tree and its layout: everything that is fixed before
the first page is written. It knows where each id leads. An item that has a place leads
there, a member to its owner's page; an item of a package beside this one leads to where
that package puts it, any other known item to its documentation host. All else leads
nowhere, and an id that no table holds is missing.

A site remembers what was worked out once: the target of an id, under the title with which
it was first asked for, and the blocks for a type. A target that is remembered is given to
whoever asks next, whatever the title.
-/
namespace CrateBook

/-- What was worked out so far: where ids lead, and the blocks for types. -/
structure Memory where
  targets : Table Id Target := .empty
  groups : Table Id ImplGroup := .empty

/-- A package before its pages are written. -/
structure Site where
  options : Options
  source : Export
  tree : Tree
  layout : Layout.Planned
  collisions : List Collision
  memory : Memory := {}

/-- Where an id leads. -/
inductive Destination where
  | target (t : Target)
  | missing
deriving DecidableEq, Repr

namespace Site

/-- Grows the tree and plans the layout of an export. -/
def plan (x : Export) (o : Options) : Checked Site := do
  let tree := Tree.ofExport x o.includePrivate
  let (layout, collisions) ← Layout.plan tree x o.mode o.basePath
  x.checkImpls
  return { options := o, source := x, tree, layout, collisions }

/-- Packages whose documentation is at the host of the standard library. -/
def stdPackages : List String := ["std", "core", "alloc", "proc_macro", "test"]

/-- Modules that do not appear in published addresses. -/
def internalModules : List String := ["bounded", "unbounded", "inner", "private", "imp"]

/-- The words in front of the pages of a documentation host. -/
def hostPrefixes : List (String × String) :=
  [("function", "fn"), ("struct", "struct"), ("enum", "enum"), ("union", "union"),
   ("trait", "trait"), ("trait_alias", "traitalias"), ("type_alias", "type"),
   ("constant", "constant"), ("static", "static"), ("macro", "macro"),
   ("primitive", "primitive"), ("proc_attribute", "attr"), ("proc_derive", "derive"),
   ("keyword", "keyword")]

/-- For kinds that stand on their owner's page at a documentation host: the kind of the
owner, and the word in front of the fragment. -/
def hostMembers : List (String × (String × String)) :=
  [("variant", ("enum", "variant")), ("struct_field", ("struct", "structfield")),
   ("assoc_type", ("trait", "associatedtype")),
   ("assoc_const", ("trait", "associatedconstant"))]

/-- The owner's kind and the fragment's word of a member with a path to its owner. -/
def hostMember? (s : Summary) : Option (String × String) :=
  if 2 < s.path.length then hostMembers.lookup s.kind else none

/-- The modules of a path that appear in addresses. -/
def publicModules (path : List String) : List String :=
  path.filter fun m => !internalModules.contains m

/-- The page of an item below its package at a documentation host. -/
def hostPage (s : Summary) : String :=
  let name := s.path.getLastD ""
  if s.kind == "module" then "/".intercalate (publicModules s.path.tail ++ ["index.html"])
  else match hostMember? s with
    | some (owner, fragment) =>
      let ownerName := s.path.dropLast.getLastD ""
      let page := owner ++ "." ++ ownerName ++ ".html#" ++ fragment ++ "." ++ name
      "/".intercalate (publicModules s.path.tail.dropLast.dropLast ++ [page])
    | none =>
      let page := (hostPrefixes.lookup s.kind).getD s.kind ++ "." ++ name ++ ".html"
      "/".intercalate (publicModules s.path.tail.dropLast ++ [page])

/-- The first text that is not empty. -/
def firstOf (ss : List (Option String)) (other : String) : String :=
  (ss.findSome? fun s => s.filter fun t => !t.isEmpty).getD other

/-- The address of an item at its documentation host. -/
def hostUrl (s : Site) (x : Summary) : String :=
  let links := s.options.links
  let package := x.crateName
  let page := package ++ "/" ++ hostPage x
  if stdPackages.contains package then Text.trimEndChar '/' links.stdHost ++ "/" ++ page
  else
    match ((s.source.package.externalPackages.get? x.crateId).bind (·.htmlRoot)).filter
        fun h => !h.isEmpty with
    | some root => Text.trimEndChar '/' root ++ "/" ++ page
    | none =>
      let version := firstOf
        [links.versions.lookup package,
          links.versions.lookup (Text.replaceChar '_' '-' package)] links.defaultVersion
      Text.trimEndChar '/' links.externalHost ++ "/" ++ package ++ "/" ++ version ++ "/" ++ page

/-- The package is documented beside this one. -/
def isSibling (s : Site) (package : String) : Bool :=
  (s.options.workspacePackages.map normalizePackageName).contains package

/-- The address of an item in the output of a package beside this one. -/
def siblingHref (s : Site) (package : String) (x : Summary) : String :=
  let (segments, kind) := match hostMember? x with
    | some (owner, _) => (x.path.tail.dropLast, owner)
    | none => (x.path.tail, x.kind)
  Layout.predictedHref s.options.basePath s.options.mode package segments kind

/-- Where an item of another package leads. -/
def externalTarget (s : Site) (x : Summary) : Target :=
  match x.path with
  | [] => .unlinked x.name
  | first :: _ =>
    if x.crateId = 0 then .unlinked x.name
    else if s.isSibling (normalizePackageName x.crateName) then
      .link .sibling x.name (s.siblingHref (normalizePackageName first) x)
    else .link .external x.name (s.hostUrl x)

/-- How many owners without a page of their own a chain of members may run through. -/
def maxOwners : Nat := 3

/-- The members from the outermost one down to a given one, and the item on whose page they
stand. -/
def ownerChain (s : Site) : Nat → List Id → Option Id → Option (List Id × Id)
  | _, _, none => none
  | n, chain, some owner =>
    if (s.layout.fileFor owner).isSome then some (chain, owner)
    else match n with
      | 0 => none
      | n + 1 => s.ownerChain n (owner :: chain) (s.source.owners.get? owner)

/-- The part of a member's anchor that tells its trait, for a member of a trait's
implementation. -/
def scopeOf (s : Site) (member : Id) : Option String :=
  match (s.source.container? member).map (·.payload) with
  | some (Payload.impl b) =>
    if b.traitRef.isSome then some (Layout.implScope (s.source.traitName b)) else none
  | _ => none

/-- The name under which the item of an id is shown. -/
def nameOf (s : Site) (id : Id) : String :=
  match s.source.items.get? id with
  | some x => x.displayName
  | none => id

/-- The anchor of a member below an anchor. -/
def anchorBelow (s : Site) (anchor : Option String) (member : Id) : Option String :=
  some (Layout.memberAnchor anchor (Layout.kindOf s.source member) (s.nameOf member)
    (s.scopeOf member))

/-- Where a field, variant or associated item leads: to its place on its owner's page. -/
def memberTarget (s : Site) (id : Id) : Option Target := do
  let (chain, owner) ← s.ownerChain maxOwners [id] (s.source.owners.get? id)
  if chain.all (s.source.showsMember s.options.includePrivate) then
    let plan ← s.layout.fileFor owner
    let anchor := chain.foldl s.anchorBelow (s.layout.anchorFor owner)
    let title := "::".intercalate (s.nameOf owner :: chain.map s.nameOf)
    return .link .internal title (s.layout.urlOf plan ++ "#" ++ anchor.getD "")
  else none

/-- Where an id leads. -/
def locate (s : Site) (id : Id) : Destination :=
  match s.source.items.get? id with
  | some x =>
    match s.layout.hrefFor id with
    | some href => .target (.link .internal x.displayName href)
    | none => .target ((s.memberTarget id).getD (.unlinked x.displayName))
  | none =>
    match s.source.external.get? id with
    | some e => .target (s.externalTarget e)
    | none => .missing

/-- The target of an id, worked out: one that is missing goes by the title, or else by
itself. -/
def resolve (s : Site) (id : Id) (title : String) : Target :=
  match s.locate id with
  | .target t => t
  | .missing => .unlinked (if title.isEmpty then id else title)

/-- The target of an id: the one that is remembered, or else worked out. -/
def targetOf (s : Site) (id : Id) (title : String) : Target :=
  (s.memory.targets.get? id).getD (s.resolve id title)

/-- The address that an id leads to. -/
def hrefOf (s : Site) (id : Id) : Option String := (s.targetOf id "").href?

/-- The link of a module that has a page, or an anchor on the package's page. -/
def moduleLink (s : Site) (n : Node) : Option String :=
  match s.layout.fileAt (Layout.moduleFile n.path) with
  | some plan => some (s.layout.urlOf plan)
  | none => if s.tree.isPrimaryNode n then s.layout.hrefFor n.id else none

/-- How types of the package are written. -/
def types (s : Site) : TypeText := { hrefOf := some s.hrefOf }

/-- The blocks for a type: those that are remembered, or else worked out. -/
def implsOf (s : Site) (typeId : Id) : ImplGroup :=
  (s.memory.groups.get? typeId).getD (s.source.classify s.options.noiseTraits typeId)

def recalling (s : Site) (m : Memory) : Site := { s with memory := m }

@[simp] theorem options_recalling (s : Site) (m : Memory) :
    (s.recalling m).options = s.options := rfl

@[simp] theorem source_recalling (s : Site) (m : Memory) :
    (s.recalling m).source = s.source := rfl

@[simp] theorem tree_recalling (s : Site) (m : Memory) : (s.recalling m).tree = s.tree := rfl

@[simp] theorem layout_recalling (s : Site) (m : Memory) :
    (s.recalling m).layout = s.layout := rfl

@[simp] theorem memory_recalling (s : Site) (m : Memory) : (s.recalling m).memory = m := rfl

end Site

end CrateBook
