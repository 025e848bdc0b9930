import CrateBook.Text.Lines
import CrateBook.Yaml.Lexer
import CrateBook.Yaml.Scalar

/-!
# Nodes of YAML

The tokens of a text form scalars, sequences and mappings. Each node has a tag, its own or
the one that its form suggests. An alias stands for the node with its anchor, so that one
node can be part of several others, and even of itself: nodes are numbered, and those with
parts name their parts by number.
-/
namespace CrateBook.Yaml

/-- The number of a node. -/
abbrev NodeId := Nat

/-- A node with its tag. -/
inductive Node where
  | scalar (tag text : String)
  | sequence (tag : String) (items : List NodeId)
  | mapping (tag : String) (entries : List (NodeId × NodeId))
deriving Inhabited

namespace Node

def tag : Node → String
  | scalar t _ => t
  | sequence t _ => t
  | mapping t _ => t

def withTag (t : String) : Node → Node
  | scalar _ text => scalar t text
  | sequence _ items => sequence t items
  | mapping _ entries => mapping t entries

/-- How many entries a node has. -/
def entryCount : Node → Nat
  | mapping _ es => es.length
  | _ => 0

/-- The front of the tags that are known by short names. -/
def coreFront : String := "tag:yaml.org,2002:"

/-- A tag that is known by a short name. -/
def core (name : String) : String := coreFront ++ name

/-- The short name of a tag; other tags have none. -/
def shortName (tag : String) : String :=
  if Text.startsWith coreFront tag then String.ofList (tag.toList.drop coreFront.length) else ""

/-- The short name of a kind of plain scalar. -/
def kindName : Kind → String
  | .bool => "bool"
  | .float => "float"
  | .int => "int"
  | .merge => "merge"
  | .null => "null"
  | .timestamp => "timestamp"
  | .default => "value"
  | .indicator => "yaml"
  | .text => "str"

/-- A scalar whose tag is told by its text. -/
def plain (text : String) : Node := scalar (core (kindName (kindOf text))) text

/-- A tag that decides over a node's kind; a lone exclamation mark does not. -/
def ownTag (tag : Option String) : Option String := tag.filter (· != "!")

/-- A scalar with the tag in front of it. A plain one, and one behind a lone exclamation
mark, goes by its text. -/
def ofScalar (tag : Option String) (text : String) (isPlain : Bool) : Node :=
  match ownTag tag with
  | some t => scalar t text
  | none => if isPlain || tag.isSome then plain text else scalar (core "str") text

end Node

/-- The nodes of a text by their numbers, and the one that stands for the whole text. -/
structure Nodes where
  all : Array Node
  root : NodeId

namespace Nodes

/-! ## Reading nodes -/

/-- A text that is being read: what is left of it, the handles of tags, the nodes of
anchors, and all nodes so far. -/
structure Stream where
  lexer : Lexer
  handles : List (String × String) := []
  anchors : List (String × NodeId) := []
  nodes : Array Node := #[]

/-- A step that reads tokens. -/
abbrev Reading := StateT Stream (Except ReadFault)

/-- The handles of tags in every text. -/
def commonHandles : List (String × String) := [("!", "!"), ("!!", Node.coreFront)]

/-- How deep nodes may be nested. -/
def maxDepth : Nat := 490

def refuse {α : Type} : Reading α := throw .malformed

def peek? : Reading (Option Token) := do
  let s ← get
  match s.lexer.ready with
  | .ok lexer =>
    set { s with lexer }
    return lexer.tokens.head?
  | .error e => throw e

/-- Passes over a token. -/
def skip : Reading Unit := modify fun s => { s with lexer := s.lexer.pop }

/-- Passes over the next token if it is a given one. -/
def accept (t : Token) : Reading Bool := do
  if (← peek?) == some t then
    skip
    return true
  else return false

/-- Passes over a token that must come next. -/
def expect (t : Token) : Reading Unit := do
  if !(← accept t) then refuse

def isNext (ts : List Token) : Reading Bool := do return (← peek?).any ts.contains

/-- The properties in front of a node. -/
structure Properties where
  anchor : Option String := none
  tag : Option (Option String × String) := none

/-- The properties in front of a node: an anchor, a tag, or both in either order. -/
def properties : Reading Properties := do
  match ← peek? with
  | some (.anchor a) =>
    skip
    match ← peek? with
    | some (.tag h s) =>
      skip
      return { anchor := a, tag := (h, s) }
    | _ => return { anchor := a }
  | some (.tag h s) =>
    skip
    match ← peek? with
    | some (.anchor a) =>
      skip
      return { anchor := a, tag := (h, s) }
    | _ => return { tag := (h, s) }
  | _ => return {}

/-- The whole tag for its parts. -/
def tagOf (p : Properties) : Reading (Option String) := do
  match p.tag with
  | none => return none
  | some (none, s) => return some s
  | some (some h, s) =>
    match (← get).handles.lookup h with
    | some front => return some (front ++ s)
    | none => refuse

/-- Adds a node, under the name of its anchor, which no other node may have. -/
def add (anchor : Option String) (n : Node) : Reading NodeId := do
  let s ← get
  let id := s.nodes.size
  let anchors ← match anchor with
    | none => pure s.anchors
    | some a => if (s.anchors.lookup a).isSome then refuse else pure ((a, id) :: s.anchors)
  set { s with nodes := s.nodes.push n, anchors }
  return id

/-- Gives a number the node with all its parts. -/
def complete (id : NodeId) (n : Node) : Reading NodeId := do
  modify fun s => { s with nodes := s.nodes.setIfInBounds id n }
  return id

/-- Adds a sequence whose items are read next. -/
def sequence (anchor : Option String) (tag : String) (items : Reading (List NodeId)) :
    Reading NodeId := do
  let id ← add anchor (.sequence tag [])
  complete id (.sequence tag (← items))

/-- Adds a mapping whose entries are read next. -/
def mapping (anchor : Option String) (tag : String)
    (entries : Reading (List (NodeId × NodeId))) : Reading NodeId := do
  let id ← add anchor (.mapping tag [])
  complete id (.mapping tag (← entries))

/-- A node without any text. -/
def empty : Reading NodeId := add none (.plain "")

def aliased (name : String) : Reading NodeId := do
  match (← get).anchors.lookup name with
  | some id => return id
  | none => refuse

mutual

/-- A node at some depth; in a block it may start a block of its own, and under a key that
block may be a sequence that is not indented. -/
def node (inBlock noIndent : Bool) (depth : Nat) : Nat → Reading NodeId
  | 0 => refuse
  | n + 1 => do
    if maxDepth < depth then throw .tooDeep
    match ← peek? with
    | some (.alias_ name) =>
      skip
      aliased name
    | _ => do
      let p ← properties
      body inBlock noIndent p (← tagOf p) depth n
termination_by structural fuel => fuel

def body (inBlock noIndent : Bool) (p : Properties) (tag : Option String) (depth : Nat) :
    Nat → Reading NodeId
  | 0 => refuse
  | n + 1 => do
    let seq := (Node.ownTag tag).getD (Node.core "seq")
    let map := (Node.ownTag tag).getD (Node.core "map")
    let bare : Reading NodeId :=
      if p.anchor.isSome || p.tag.isSome then add p.anchor (.ofScalar tag "" true) else refuse
    match ← peek? with
    | some .entry => if noIndent then sequence p.anchor seq (looseItems depth n) else bare
    | some (.scalar text isPlain) => do
      skip
      add p.anchor (.ofScalar tag text (isPlain && tag.isNone))
    | some .flowSequence => do
      skip
      sequence p.anchor seq (flowItems true depth n)
    | some .flowMapping => do
      skip
      mapping p.anchor map (flowEntries true depth n)
    | some .blockSequence =>
      if inBlock then do
        skip
        sequence p.anchor seq (blockItems depth n)
      else bare
    | some .blockMapping =>
      if inBlock then do
        skip
        mapping p.anchor map (blockEntries depth n)
      else bare
    | _ => bare
termination_by structural fuel => fuel

/-- A node one deeper that may be left out in front of some tokens. -/
def nodeUnless (stops : List Token) (inBlock noIndent : Bool) (depth : Nat) :
    Nat → Reading NodeId
  | 0 => refuse
  | n + 1 => do
    if ← isNext stops then empty else node inBlock noIndent (depth + 1) n
termination_by structural fuel => fuel

def blockItems (depth : Nat) : Nat → Reading (List NodeId)
  | 0 => refuse
  | n + 1 => do
    if ← accept .entry then
      let item ← nodeUnless [.entry, .blockEnd] true false depth n
      return item :: (← blockItems depth n)
    else
      expect .blockEnd
      return []
termination_by structural fuel => fuel

/-- The items of a sequence that is not indented. -/
def looseItems (depth : Nat) : Nat → Reading (List NodeId)
  | 0 => refuse
  | n + 1 => do
    if ← accept .entry then
      let item ← nodeUnless [.entry, .key, .value, .blockEnd] true false depth n
      return item :: (← looseItems depth n)
    else return []
termination_by structural fuel => fuel

def blockEntries (depth : Nat) : Nat → Reading (List (NodeId × NodeId))
  | 0 => refuse
  | n + 1 => do
    if ← accept .key then
      let k ← nodeUnless [.key, .value, .blockEnd] true true depth n
      let v ←
        if ← accept .value then nodeUnless [.key, .value, .blockEnd] true true depth n
        else empty
      return (k, v) :: (← blockEntries depth n)
    else
      expect .blockEnd
      return []
termination_by structural fuel => fuel

/-- The entry of a mapping between brackets, behind the sign of its key. -/
def flowEntry (close : Token) (depth : Nat) : Nat → Reading (NodeId × NodeId)
  | 0 => refuse
  | n + 1 => do
    let k ← nodeUnless [.value, .flowEntry, close] false false depth n
    let v ←
      if ← accept .value then nodeUnless [.flowEntry, close] false false depth n else empty
    return (k, v)
termination_by structural fuel => fuel

/-- The items of a sequence between brackets; a key makes a mapping of one entry. -/
def flowItems (first : Bool) (depth : Nat) : Nat → Reading (List NodeId)
  | 0 => refuse
  | n + 1 => do
    if ← accept .flowSequenceEnd then return []
    else
      if !first then expect .flowEntry
      if ← accept .key then
        let item ← mapping none (Node.core "map") do
          return [← flowEntry .flowSequenceEnd (depth + 1) n]
        return item :: (← flowItems false depth n)
      else if ← accept .flowSequenceEnd then return []
      else
        let item ← node false false (depth + 1) n
        return item :: (← flowItems false depth n)
termination_by structural fuel => fuel

/-- The entries of a mapping between braces. -/
def flowEntries (first : Bool) (depth : Nat) : Nat → Reading (List (NodeId × NodeId))
  | 0 => refuse
  | n + 1 => do
    if ← accept .flowMappingEnd then return []
    else
      if !first then expect .flowEntry
      if ← accept .key then
        let e ← flowEntry .flowMappingEnd depth n
        return e :: (← flowEntries false depth n)
      else if ← accept .flowMappingEnd then return []
      else
        let k ← node false false (depth + 1) n
        let e := (k, ← empty)
        return e :: (← flowEntries false depth n)
termination_by structural fuel => fuel

end

/-- The directives in front of a document: one version at most, each handle once. -/
def directives : Nat → Bool → List (String × String) → Reading Unit
  | 0, _, _ => refuse
  | n + 1, hasVersion, handles => do
    match ← peek? with
    | some .directive =>
      skip
      directives n hasVersion handles
    | some (.version major _) =>
      if hasVersion || major != 1 then refuse
      skip
      directives n true handles
    | some (.tagHandle h front) =>
      if (handles.lookup h).isSome then refuse
      skip
      directives n hasVersion (handles ++ [(h, front)])
    | _ => modify fun s => { s with handles := handles ++ commonHandles }

/-- Passes over the ends of documents. -/
def skipEnds : Nat → Reading Unit
  | 0 => return
  | n + 1 => do
    if ← accept .documentEnd then skipEnds n

def isDirective : Token → Bool
  | .directive => true
  | .version _ _ => true
  | .tagHandle _ _ => true
  | _ => false

/-- The text of a document ends before it has started. -/
def isDocumentEdge (t : Option Token) : Bool :=
  match t with
  | none => true
  | some .documentStart => true
  | some .documentEnd => true
  | some t => isDirective t

/-- The one document of a text; a text without any has none. -/
def document (fuel : Nat) : Reading (Option NodeId) := do
  let bare := match ← peek? with
    | some .documentStart => false
    | some t => !isDirective t
    | none => false
  if bare then
    modify fun s => { s with handles := commonHandles }
    return some (← node true false 0 fuel)
  else
    skipEnds fuel
    if (← peek?).isNone then return none
    directives fuel false []
    expect .documentStart
    if isDocumentEdge (← peek?) then return some (← empty)
    else return some (← node true false 0 fuel)

/-- The end of the only document. -/
def finish (fuel : Nat) : Reading Unit := do
  skipEnds fuel
  if (← peek?).isSome then
    directives fuel false []
    refuse

/-- The nodes that a text writes; none where it writes no document. A text has at most a few
tokens for each character, and reading takes a few steps for each token. -/
def ofText? (cs : List Char) : Except ReadFault (Option Nodes) := do
  let fuel := 16 * cs.length + 64
  let read : Reading (Option NodeId) := do
    let root ← document fuel
    finish fuel
    return root
  let (root, s) ← read.run { lexer := .ofText cs }
  return root.map (⟨s.nodes, ·⟩)

end Nodes

end CrateBook.Yaml
