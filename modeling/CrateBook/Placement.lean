import CrateBook.Export.Id
import CrateBook.Table

/-!
# Placements

One item can be shown under several paths. The placement with the fewest segments is its
primary one, and the least path among those of one length.
-/
namespace CrateBook

/-- One path under which an item is shown: the package's name first, the item's last. -/
structure Placement where
  itemId : Id
  path : List String
  viaReexport : Bool := false
deriving DecidableEq, Repr

namespace Placement

/-- The name under which the item is shown. -/
def name (p : Placement) : String := p.path.getLastD ""

/-- The path of the module in which the item is shown. -/
def modulePath (p : Placement) : List String := p.path.dropLast

/-- The order of paths: by the first segment in which they differ, a path before those that go on
from it. -/
def pathLe : List String → List String → Bool
  | [], _ => true
  | _ :: _, [] => false
  | a :: as, b :: bs => a < b || (a == b && pathLe as bs)

/-- The order of placements: fewer segments first, then the lesser path. -/
def le (p q : Placement) : Bool :=
  p.path.length < q.path.length || (p.path.length == q.path.length && pathLe p.path q.path)

end Placement

/-- The placements of each item, in the order in which they came in. -/
structure PlacementMap where
  byId : Table Id (List Placement) := .empty

namespace PlacementMap

/-- The placements of an item, in the order in which they came in. -/
def recorded (m : PlacementMap) (id : Id) : List Placement := (m.byId.get? id).getD []

/-- The map holds an item under a path. -/
def holds (m : PlacementMap) (id : Id) (path : List String) : Bool :=
  (m.recorded id).any fun p => p.path == path

/-- Records a placement, unless the item has one with the same path. -/
def add (m : PlacementMap) (p : Placement) : PlacementMap :=
  if m.holds p.itemId p.path then m else ⟨m.byId.push p.itemId p⟩

def isNew (m : PlacementMap) (p : Placement) : Bool := !m.holds p.itemId p.path

def contains (m : PlacementMap) (id : Id) : Bool := m.byId.contains id

/-- How many items have a placement. -/
def size (m : PlacementMap) : Nat := m.byId.size

/-- The items with a placement, in the order of their texts. -/
def ids (m : PlacementMap) : List Id := m.byId.keys.mergeSort fun a b => a ≤ b

/-- The placements of an item, the primary one first. -/
def placements (m : PlacementMap) (id : Id) : List Placement :=
  (m.recorded id).mergeSort Placement.le

/-- The primary placement of an item. -/
def primary? (m : PlacementMap) (id : Id) : Option Placement := (m.placements id).head?

def isPrimary (m : PlacementMap) (p : Placement) : Bool := m.primary? p.itemId == some p

@[simp] theorem recorded_empty (id : Id) : ({} : PlacementMap).recorded id = [] := rfl

theorem recorded_add (m : PlacementMap) (p : Placement) (id : Id) :
    (m.add p).recorded id =
      if id = p.itemId ∧ m.isNew p = true then m.recorded id ++ [p] else m.recorded id := by
  unfold add isNew
  by_cases h : m.holds p.itemId p.path = true
  · simp [h]
  · by_cases hid : id = p.itemId
    · subst hid
      simp [h, recorded, Table.push]
    · simp [h, hid, recorded, Table.push]

end PlacementMap

end CrateBook
