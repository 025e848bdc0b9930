import CrateBook.Inclusion
import CrateBook.Text.Letter
import CrateBook.Tree.Node

/-!
# Growing the module tree

The tree grows from the root module of an export. What a module shows is first listed as
candidates: its own items, the targets of its re-exports, and what its glob re-exports
reach. Placing the candidates then yields the node, with a subtree for each module among
them. A module never stands below itself, and one glob lists no module twice; both
arguments are the measures by which the functions end.
-/
namespace CrateBook.Tree

/-- Something that a module may show. -/
inductive Candidate where
  | module (id : Id) (name : String) (viaReexport : Bool)
  | member (id : Id) (name : String) (viaReexport : Bool)
  | reexport (entry : ReExport)

/-- Kinds that are shown on their owner's page and never on their own. -/
def neverPlaced : List String := ["impl", "struct_field", "variant", "assoc_const", "assoc_type"]

/-- The most items that a chain of re-exports runs through, its end included. -/
def maxChain : Nat := 10

/-- An item under a name, if it can be placed under it. -/
def candidate (x : Item) (name : Option String) (viaReexport : Bool) : List Candidate :=
  match name with
  | none => []
  | some n =>
    if n.isEmpty then []
    else if x.payload.isModule then [.module x.id n viaReexport]
    else if neverPlaced.contains x.kind then []
    else [.member x.id n viaReexport]

/-- A re-export as an entry of its own. -/
def entryOf (x : Item) (u : UseBody) : ReExport := ⟨x.id, u.name, u.source, u.target, u.isGlob⟩

/-- The item at the end of a chain of re-exports: the first that is no re-export. A chain
that meets a glob or itself, or is too long, has no end. -/
def chainEnd (items : Items) : Nat → List Id → Id → Option Id
  | 0, _, _ => none
  | n + 1, seen, id =>
    match items.payload? id with
    | some (.use u) =>
      if u.isGlob || seen.contains id then none
      else u.target.bind (chainEnd items n (id :: seen))
    | _ => some id

/-- How many items of an export are not in a list. -/
def unseen (items : Items) (seen : List Id) : Nat :=
  (items.ids.filter fun id => !seen.contains id).length

theorem unseen_cons_lt {items : Items} {seen : List Id} {id : Id} (hid : id ∈ items.ids)
    (hs : id ∉ seen) : unseen items (id :: seen) < unseen items seen := by
  unfold unseen
  generalize items.ids = ids at hid
  induction ids with
  | nil => simp at hid
  | cons a as ih =>
    have hle : (as.filter fun i => !(id :: seen).contains i).length ≤
        (as.filter fun i => !seen.contains i).length := by
      clear ih hid
      induction as with
      | nil => simp
      | cons b bs ih =>
        by_cases hb : b ∈ seen
        · simpa [List.filter_cons, hb] using ih
        · by_cases hbi : b = id
          · simp only [List.filter_cons, hbi]
            simp [hs]
            simpa using Nat.le_succ_of_le ih
          · simpa [List.filter_cons, hb, hbi] using ih
    rcases List.mem_cons.1 hid with h | h
    · subst h
      simp only [List.filter_cons]
      simpa [hs] using Nat.lt_succ_of_le hle
    · have := ih h
      by_cases ha : a ∈ seen
      · simpa [List.filter_cons, ha] using this
      · by_cases hai : a = id
        · simp only [List.filter_cons, hai]
          simpa [hs] using Nat.lt_succ_of_le hle
        · simpa [List.filter_cons, ha, hai] using this

/-- What glob re-exports list, from ids still to be looked at. `seen` holds the modules that
are listed already; a nested glob puts its module's items in front of the rest. Modules of
the stack are not listed. -/
def listGlobs (x : Export) (includePrivate : Bool) (stack : List Id) (seen : List Id) :
    List Id → List Candidate
  | [] => []
  | id :: rest =>
    match x.items.get? id with
    | none => listGlobs x includePrivate stack seen rest
    | some child =>
      if child.isIncluded includePrivate then
        match child.payload with
        | .use u =>
          match u.target with
          | none => listGlobs x includePrivate stack seen rest
          | some target =>
            match _h : x.items.get? target with
            | none => listGlobs x includePrivate stack seen rest
            | some m =>
              if u.isGlob = false then listGlobs x includePrivate stack seen rest
              else if _hs : target ∈ seen then listGlobs x includePrivate stack seen rest
              else
                match m.payload with
                | .module b =>
                  listGlobs x includePrivate stack (target :: seen)
                    (if stack.contains target then rest else b.items ++ rest)
                | _ => listGlobs x includePrivate stack (target :: seen) rest
        | _ =>
          candidate child child.name true ++ listGlobs x includePrivate stack seen rest
      else listGlobs x includePrivate stack seen rest
termination_by ids => (unseen x.items seen, ids.length)
decreasing_by
  all_goals first
    | exact Prod.Lex.right _ (by simp)
    | exact Prod.Lex.left _ _ (unseen_cons_lt (Items.mem_ids_of_get? _h) _hs)

/-- What a glob re-export of a module lists. -/
def listGlob (x : Export) (includePrivate : Bool) (stack : List Id) (target : Id) :
    List Candidate :=
  if stack.contains target then []
  else match x.items.payload? target with
    | some (.module b) => listGlobs x includePrivate stack [target] b.items
    | _ => []

def listUse (x : Export) (includePrivate : Bool) (stack : List Id) (item : Item)
    (u : UseBody) : List Candidate :=
  match u.target with
  | none => [.reexport (entryOf item u)]
  | some target =>
    if !x.items.contains target then [.reexport (entryOf item u)]
    else if u.isGlob then listGlob x includePrivate stack target
    else match chainEnd x.items maxChain [] target with
      | none => []
      | some last =>
        match x.items.get? last with
        | none => [.reexport (entryOf item u)]
        | some t => if t.isIncluded includePrivate then candidate t u.name true else []

/-- What an id in a module's list stands for. -/
def listChild (x : Export) (includePrivate : Bool) (stack : List Id) (id : Id) :
    List Candidate :=
  match x.items.get? id with
  | none => []
  | some child =>
    if child.isIncluded includePrivate then
      match child.payload with
      | .use u => listUse x includePrivate stack child u
      | _ => candidate child child.name false
    else []

/-- Everything that a module may show. -/
def candidates (x : Export) (includePrivate : Bool) (stack : List Id) (module : Id) :
    List Candidate :=
  match x.items.payload? module with
  | some (.module b) => b.items.flatMap (listChild x includePrivate stack)
  | _ => []

/-- A node while it grows, with all placements made so far. -/
structure Growth where
  placements : PlacementMap
  children : List Node := []
  members : List Placement := []
  reexports : List ReExport := []

def Growth.hasChild (g : Growth) (path : List String) : Bool :=
  g.children.any fun c => c.path == path

/-- Shows an item, unless it is shown at that path already. -/
def Growth.addMember (g : Growth) (p : Placement) : Growth :=
  if g.placements.isNew p then
    { g with placements := g.placements.add p, members := g.members ++ [p] }
  else g

/-- The order of names: by lower case, then as they are. -/
def nameLe (a b : String) : Bool :=
  let la := Text.lower a
  let lb := Text.lower b
  la < lb || (la == lb && a ≤ b)

/-- The order of children. -/
def childLe (a b : Node) : Bool := nameLe a.name b.name

/-- The order of members: by name, then by id. -/
def memberLe (a b : Placement) : Bool :=
  if a.name == b.name then a.itemId ≤ b.itemId else nameLe a.name b.name

def Growth.node (g : Growth) (id : Id) (path : List String) : Node :=
  .mk id path (g.children.mergeSort childLe) (g.members.mergeSort memberLe) g.reexports

/-- Places candidates at a node. The stack holds the module of the node and those above. -/
def place (x : Export) (includePrivate : Bool) (stack : List Id) (path : List String)
    (g : Growth) : List Candidate → Growth
  | [] => g
  | .reexport r :: rest =>
    place x includePrivate stack path { g with reexports := g.reexports ++ [r] } rest
  | .member id name via :: rest =>
    place x includePrivate stack path (g.addMember ⟨id, path ++ [name], via⟩) rest
  | .module id name via :: rest =>
    let childPath := path ++ [name]
    if _h : id ∈ x.items.ids ∧ id ∉ stack then
      if g.hasChild childPath then place x includePrivate stack path g rest
      else
        let inner := place x includePrivate (id :: stack) childPath
          { placements := g.placements.add ⟨id, childPath, via⟩ }
          (candidates x includePrivate (id :: stack) id)
        place x includePrivate stack path
          { g with
            placements := inner.placements
            children := g.children ++ [inner.node id childPath] } rest
    else place x includePrivate stack path g rest
termination_by cs => (unseen x.items stack, cs.length)
decreasing_by
  all_goals first
    | exact Prod.Lex.right _ (by simp)
    | exact Prod.Lex.left _ _ (unseen_cons_lt _h.1 _h.2)

/-- The module tree of an export. -/
def ofExport (x : Export) (includePrivate : Bool) : Tree :=
  let id := x.package.rootId
  let path := [x.package.name]
  let g := place x includePrivate [id] path
    { placements := ({} : PlacementMap).add ⟨id, path, false⟩ }
    (candidates x includePrivate [id] id)
  ⟨g.placements, g.node id path⟩

end CrateBook.Tree
