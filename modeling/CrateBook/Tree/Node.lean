import CrateBook.Placement

/-!
# The module tree

A node is a module at one path, with the items and child modules that are shown in it. One
module can stand at several nodes.
-/
namespace CrateBook

/-- A re-export whose target is not documented here. -/
structure ReExport where
  /-- The id of the re-export itself. -/
  itemId : Id
  name : String
  source : String
  target : Option Id
  isGlob : Bool := false
deriving DecidableEq, Repr

/-- A module at a path. -/
inductive Node where
  | mk (id : Id) (path : List String) (children : List Node) (members : List Placement)
      (reexports : List ReExport)

namespace Node

def id : Node → Id
  | mk i _ _ _ _ => i

def path : Node → List String
  | mk _ p _ _ _ => p

/-- The child modules, by name. -/
def children : Node → List Node
  | mk _ _ cs _ _ => cs

/-- The items shown in the module, by name. -/
def members : Node → List Placement
  | mk _ _ _ ms _ => ms

/-- The re-exports that lead out of the package. -/
def reexports : Node → List ReExport
  | mk _ _ _ _ rs => rs

def name (n : Node) : String := n.path.getLastD ""

mutual

/-- The node and all nodes below it, each before its children. -/
def walk : Node → List Node
  | mk i p cs ms rs => mk i p cs ms rs :: walkAll cs

/-- The nodes of several trees, one tree after the other. -/
def walkAll : List Node → List Node
  | [] => []
  | n :: ns => n.walk ++ walkAll ns

end

/-- The first node with a path. -/
def find? (root : Node) (path : List String) : Option Node :=
  root.walk.find? fun n => n.path == path

theorem self_mem_walk (n : Node) : n ∈ n.walk := by
  obtain ⟨⟩ := n
  simp [walk]

end Node

/-- A module tree, and every placement that was made while it grew. -/
structure Tree where
  placements : PlacementMap
  root : Node

namespace Tree

/-- All nodes of the tree, each before its children. -/
def modules (t : Tree) : List Node := t.root.walk

/-- The node stands at the primary placement of its module. -/
def isPrimaryNode (t : Tree) (n : Node) : Bool :=
  (t.placements.primary? n.id).any fun p => p.path == n.path

end Tree

end CrateBook
