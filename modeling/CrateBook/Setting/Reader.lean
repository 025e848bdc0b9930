import CrateBook.Setting.Graph
import CrateBook.Setting.Members
import CrateBook.Setting.ScalarReader

/-!
# Settings from a configuration file

The setting that a YAML text writes. A mapping takes in the entries of the mappings that it
merges, in front of its own; of several entries with one key the last one counts. A key has
to be a scalar. A node is read once, however many others it is part of; the parts of a node
with parts are read after all nodes that were met before it.
-/
namespace CrateBook.Setting

open Yaml (ReadFault NodeId)

/-- Nodes that are being read as cells. -/
structure Draft where
  nodes : Array Yaml.Node
  cells : Graph := #[]
  /-- The cells of the nodes that have been met. -/
  made : Array (Option CellId)
  /-- The nodes whose parts have not been read yet, with their cells. -/
  waiting : List (NodeId × CellId) := []
  /-- The cell of the one float that is no number and has a word of its own. -/
  nan : Option CellId := none

/-- A step that reads nodes. -/
abbrev Reading := StateT Draft (Except ReadFault)

namespace Reading

def refuse {α : Type} : Reading α := throw .malformed

def node (id : NodeId) : Reading Yaml.Node := do return ((← get).nodes[id]?).getD default

/-- Gives a number another node. -/
def setNode (id : NodeId) (n : Yaml.Node) : Reading Unit :=
  modify fun d => { d with nodes := d.nodes.setIfInBounds id n }

/-- The short name of a node's tag. -/
def tagName (id : NodeId) : Reading String := do return Yaml.Node.shortName (← node id).tag

def add (c : Cell) : Reading CellId := do
  let id := (← get).cells.size
  modify fun d => { d with cells := d.cells.push c }
  return id

/-- Gives a number another cell. -/
def setCell (id : CellId) (c : Cell) : Reading Unit :=
  modify fun d => { d with cells := d.cells.setIfInBounds id c }

/-- The text of a node that is read as a scalar. A mapping stands for the value behind its
equals sign; one that leads back to itself has no text. -/
def textOf : Nat → NodeId → Reading String
  | 0, _ => throw .tooDeep
  | fuel + 1, id => do
    match ← node id with
    | .scalar _ text => return text
    | .sequence _ _ => refuse
    | .mapping _ es =>
      match ← es.findM? fun e => return (← tagName e.1) == "value" with
      | some e => textOf fuel e.2
      | none => refuse

/-- The scalar of a node with a tag. A time has to be written in one piece. -/
def scalarOf (name : String) (id : NodeId) : Reading Scalar := do
  if !Scalar.tagNames.contains name then refuse
  let text ← textOf ((← get).nodes.size + 1) id
  match name, ← node id with
  | "timestamp", .mapping _ _ => throw .wrongKind
  | _, _ => Scalar.read name text

/-- The cell of a scalar. The word for the float that is no number stands for the same cell
everywhere. -/
def scalarCell (name : String) (id : NodeId) : Reading CellId := do
  let s ← scalarOf name id
  let isNan := match s with
    | .float x => x.isNaN
    | _ => false
  if isNan && Scalar.isNanWord (← textOf ((← get).nodes.size + 1) id) then
    match (← get).nan with
    | some c => return c
    | none =>
      let c ← add (.scalar s)
      modify fun d => { d with nan := some c }
      return c
  else add (.scalar s)

/-- The cell of a node with parts before these are read, by the short name of its tag. -/
def emptyCell? : String → Option Cell
  | "seq" => some (.list [])
  | "omap" => some (.list [])
  | "pairs" => some (.list [])
  | "map" => some (.mapping [])
  | "set" => some (.set [])
  | _ => none

/-- The cell of a node. The parts of a node with parts have to wait. -/
def cellOf (id : NodeId) : Reading CellId := do
  match ((← get).made[id]?).join with
  | some c => return c
  | none =>
    let name ← tagName id
    let c ← match emptyCell? name with
      | some empty => do
        let c ← add empty
        modify fun d => { d with waiting := d.waiting ++ [(id, c)] }
        pure c
      | none => scalarCell name id
    modify fun d => { d with made := d.made.setIfInBounds id (some c) }
    return c

/-! ## Merging mappings -/

def entriesOf (id : NodeId) : Reading (List (NodeId × NodeId)) := do
  match ← node id with
  | .mapping _ es => return es
  | _ => refuse

/-- Gives a mapping other entries. -/
def setEntries (id : NodeId) (es : List (NodeId × NodeId)) : Reading Unit := do
  setNode id (.mapping (← node id).tag es)

/-- The first entry with a tag among some, and those around it. -/
def splitAt? (name : String) :
    List (NodeId × NodeId) → List (NodeId × NodeId) →
      Reading (Option (List (NodeId × NodeId) × NodeId × List (NodeId × NodeId)))
  | _, [] => return none
  | before, e :: es => do
    if (← tagName e.1) == name then return some (before.reverse, e.2, es)
    else splitAt? name (e :: before) es

/-- Makes an equals sign that is a key a text. -/
def plainKey (id : NodeId) : Reading Unit := do
  if (← tagName id) == "value" then
    setNode id ((← node id).withTag (Yaml.Node.core "str"))

/-- Puts the entries of the mappings that a mapping merges in front of its own, first those
gathered before. Each step takes one entry that merges out of some mapping, so as many steps
as there are entries are enough. -/
def flatten : Nat → NodeId → List (NodeId × NodeId) → Reading Unit
  | 0, _, _ => return
  | fuel + 1, id, merged => do
    match ← splitAt? "merge" [] (← entriesOf id) with
    | none =>
      let es ← entriesOf id
      es.forM fun e => plainKey e.1
      setEntries id (merged ++ es)
    | some (before, source, after) =>
      setEntries id (before ++ after)
      match ← node source with
      | .mapping _ _ =>
        flatten fuel source []
        flatten fuel id (merged ++ (← entriesOf source))
      | .sequence _ items =>
        let lists ← items.mapM fun item => do
          match ← node item with
          | .mapping _ _ =>
            flatten fuel item []
            entriesOf item
          | _ => refuse
        flatten fuel id (merged ++ lists.reverse.flatten)
      | .scalar _ _ => refuse

/-! ## Nodes with parts -/

/-- The key of an entry is the same as a new one. A cell is the same as itself, whatever
it holds. -/
def isSameKey (new : CellId × Scalar) (old : CellId × Scalar) : Bool :=
  new.1 == old.1 || new.2.sameKey old.2

/-- An entry that is being read: the cell of its key, the key, the cell of its value. -/
abbrev KeyedCell := (CellId × Scalar) × CellId

/-- Gives a key a value: in its old place and form, or at the end. -/
def putEntry (k : CellId × Scalar) (v : CellId) : List KeyedCell → List KeyedCell
  | [] => [(k, v)]
  | e :: es => if isSameKey k e.1 then (e.1, v) :: es else e :: putEntry k v es

/-- The entries of a mapping as cells. -/
def keyedCells (id : NodeId) : Reading (List KeyedCell) := do
  let d ← get
  match ← node id with
  | .mapping _ _ => flatten (d.nodes.foldl (fun n x => n + x.entryCount) 1) id []
  | _ => refuse
  (← entriesOf id).foldlM (fun es e => do
    let k ← cellOf e.1
    match (← get).cells.cell k with
    | .scalar s => do
      let v ← cellOf e.2
      return putEntry (k, s) v es
    | _ => refuse) []

/-- The pair that a mapping of one entry writes. -/
def pairCell (id : NodeId) : Reading CellId := do
  match ← node id with
  | .mapping _ [(k, v)] => do
    let first ← cellOf k
    let second ← cellOf v
    add (.pair first second)
  | _ => refuse

def itemsOf (id : NodeId) : Reading (List NodeId) := do
  match ← node id with
  | .sequence _ xs => return xs
  | _ => refuse

/-- A cell with its parts, by the short name of its node's tag. -/
def filled (name : String) (id : NodeId) : Reading Cell := do
  match name with
  | "seq" => return .list (← (← itemsOf id).mapM cellOf)
  | "map" => return .mapping ((← keyedCells id).map fun e => (e.1.2, e.2))
  | "set" => return .set (Scalar.listed ((← keyedCells id).map (·.1.2)))
  | _ => return .list (← (← itemsOf id).mapM pairCell)

/-- Reads the parts of the nodes that wait, the first one first. Each node waits once. -/
def fill : Nat → Reading Unit
  | 0 => return
  | fuel + 1 => do
    match (← get).waiting with
    | [] => return
    | (id, c) :: rest =>
      modify fun d => { d with waiting := rest }
      setCell c (← filled (← tagName id) id)
      fill fuel

def file (root : NodeId) : Reading CellId := do
  let c ← cellOf root
  fill ((← get).nodes.size + 1)
  return c

end Reading

/-- The setting that nodes write. -/
def ofNodes (ns : Yaml.Nodes) : Except ReadFault Setting := do
  let (root, d) ← (Reading.file ns.root).run
    { nodes := ns.all, made := Array.replicate ns.all.size none }
  return d.cells.toSetting root

/-- A text whose line breaks are all line feeds. -/
def normalizeBreaks : List Char → List Char
  | [] => []
  | '\r' :: '\n' :: rest => '\n' :: normalizeBreaks rest
  | '\r' :: rest => '\n' :: normalizeBreaks rest
  | c :: rest => c :: normalizeBreaks rest

/-- The setting that a YAML text writes; an empty text writes null. -/
def parse (text : String) : Except ReadFault Setting := do
  let cs := normalizeBreaks text.toList
  if cs.all Yaml.isAllowed then
    match ← Yaml.Nodes.ofText? cs with
    | some ns => ofNodes ns
    | none => return null
  else .error .malformed

end CrateBook.Setting
