import CrateBook.Setting.Basic

/-!
# Settings that share their parts

A file can name a value and use it in several places, even inside itself. Its values are the
cells of a graph, and a cell with parts names them by number. A cell from which some path
never ends has no tree of values; as a setting it is known by its literal form, in which a
cell that is met inside itself stands as three points.
-/
namespace CrateBook

/-- The number of a cell. -/
abbrev CellId := Nat

/-- A value whose parts are known by number. -/
inductive Cell where
  | scalar (s : Scalar)
  | list (items : List CellId)
  | mapping (entries : List (Scalar × CellId))
  | set (keys : List Scalar)
  | pair (first second : CellId)
deriving Inhabited

namespace Cell

/-- The cells that a cell names. -/
def parts : Cell → List CellId
  | scalar _ => []
  | list xs => xs
  | mapping es => es.map (·.2)
  | set _ => []
  | pair a b => [a, b]

/-- The word for the kind of a cell. -/
def kind : Cell → String
  | scalar s => s.kind
  | list _ => "list"
  | mapping _ => "dict"
  | set _ => "set"
  | pair _ _ => "tuple"

/-- The brackets around the parts of a cell. -/
def brackets : Cell → String × String
  | list _ => ("[", "]")
  | pair _ _ => ("(", ")")
  | _ => ("\x7b", "\x7d")

/-- Text between the brackets of a cell. -/
def bracketed (c : Cell) (text : String) : String := c.brackets.1 ++ text ++ c.brackets.2

end Cell

/-- The cells of a file by their numbers. -/
abbrev Graph := Array Cell

namespace Graph

/-- The cell of a number; a number without a cell stands for null. -/
def cell (g : Graph) (id : CellId) : Cell := (g[id]?).getD (.scalar .null)

/-- The literal form of a cell inside some others. No path is longer than there are cells
before it meets one of them again. -/
def literal (g : Graph) : Nat → List CellId → CellId → String
  | 0, _, id => (g.cell id).bracketed "..."
  | n + 1, outer, id =>
    let c := g.cell id
    if outer.contains id then c.bracketed "..."
    else
      let part := g.literal n (id :: outer)
      match c with
      | .scalar s => s.literal
      | .set ks => Setting.setLiteral ks
      | .list xs => c.bracketed (", ".intercalate (xs.map part))
      | .pair a b => c.bracketed (part a ++ ", " ++ part b)
      | .mapping es =>
        c.bracketed (", ".intercalate (es.map fun e => e.1.literal ++ ": " ++ part e.2))

/-- One more look at which cells have an end: those whose parts all have one. -/
def spread (g : Graph) (ended : Array Bool) : Array Bool :=
  (List.range g.size).reverse.foldl (fun ended id =>
    ended.setIfInBounds id ((g.cell id).parts.all fun p => ended.getD p true)) ended

/-- Looks again until nothing changes. -/
def settle (g : Graph) : Nat → Array Bool → Array Bool
  | 0, ended => ended
  | n + 1, ended =>
    let next := g.spread ended
    if next == ended then ended else settle g n next

/-- Which cells have an end. -/
def ended (g : Graph) : Array Bool := g.settle g.size (Array.replicate g.size false)

/-- How many levels of a file are always told apart: sections, their entries, and the parts
of these. -/
def openLevels : Nat := 3

/-- The setting of a cell at some depth. Below the open levels a cell without an end is one
setting without parts. -/
def setting (g : Graph) (ended : Array Bool) : Nat → Nat → CellId → Setting
  | 0, _, id => .endless (g.cell id).kind (g.literal (g.size + 1) [] id)
  | n + 1, depth, id =>
    let part := g.setting ended n (depth + 1)
    if openLevels ≤ depth && !ended.getD id true then
      .endless (g.cell id).kind (g.literal (g.size + 1) [] id)
    else match g.cell id with
      | .scalar s => .scalar s
      | .list xs => .list (xs.map part)
      | .mapping es => .mapping (es.map fun e => (e.1, part e.2))
      | .set ks => .set ks
      | .pair a b => .pair (part a) (part b)

/-- The setting of a whole file. -/
def toSetting (g : Graph) (root : CellId) : Setting :=
  g.setting g.ended (g.size + openLevels + 1) 0 root

end Graph

end CrateBook
