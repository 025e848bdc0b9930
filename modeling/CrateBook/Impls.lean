import CrateBook.Export.Index

/-!
# Implementation blocks by type

The blocks that are for one type, in three groups: inherent blocks, implementations of
traits, and noise that is not shown. Noise is what the compiler makes up, what a trait does
for all types, and what implements one of a list of traits.
-/
namespace CrateBook

/-- The full path of the trait that a block implements, as precise as the export allows. -/
def Export.traitPath (x : Export) (b : ImplBody) : String :=
  match b.traitRef with
  | none => ""
  | some _ =>
    match b.traitId.bind x.external.get? with
    | some s =>
      if s.path.isEmpty then (b.traitField "path").textOr "" else "::".intercalate s.path
    | none => (b.traitField "path").textOr ""

/-- The name of the trait that a block implements. -/
def Export.traitName (x : Export) (b : ImplBody) : String := Text.lastSegment (x.traitPath b)

/-- The block is noise: compiler-made, blanket, or of a noise trait. -/
def Export.isNoise (x : Export) (noise : List String) (b : ImplBody) : Bool :=
  b.isSynthetic || !b.blanket.isNull || noise.contains (x.traitName b)

/-- One implementation of a trait. -/
structure TraitImpl where
  implId : Id
  traitId : Option Id
  traitPath : String
  /-- The functions, constants and types that stand in the block. -/
  members : List Id
  /-- The provided methods that no member overrides, in order. -/
  defaults : List String
  isNegative : Bool := false
deriving DecidableEq, Repr

namespace TraitImpl

def name (t : TraitImpl) : String := Text.lastSegment t.traitPath

/-- The block says no more than that the type has the trait. -/
def isMarker (t : TraitImpl) : Bool := t.members.isEmpty && t.defaults.isEmpty

/-- The order of implementations: by trait path, then by id. -/
def le (a b : TraitImpl) : Bool :=
  a.traitPath < b.traitPath || (a.traitPath == b.traitPath && a.implId.key.le b.implId.key)

end TraitImpl

/-- The blocks for one type. -/
structure ImplGroup where
  inherent : List Id := []
  inherentMembers : List Id := []
  /-- The implementations of each trait; a trait without an id goes by its block. -/
  traits : Table Id (List TraitImpl) := .empty
  dropped : List Id := []

namespace ImplGroup

/-- All trait implementations, in order. -/
def traitImpls (g : ImplGroup) : List TraitImpl :=
  g.traits.values.flatten.mergeSort TraitImpl.le

/-- The blocks that are shown. -/
def renderedIds (g : ImplGroup) : List Id := g.inherent ++ g.traitImpls.map (·.implId)

end ImplGroup

namespace Export

/-- The implementation blocks of an export, each with its id, in the export's order. -/
def impls (x : Export) : List (Id × ImplBody) :=
  x.items.toList.filterMap fun i =>
    match i.payload with
    | .impl b => some (i.id, b)
    | _ => none

/-- The blocks for a type, in the order of their ids. -/
def implsFor (x : Export) (typeId : Id) : List (Id × ImplBody) :=
  sortById (·.1) (x.impls.filter fun i => i.2.target? == some typeId)

/-- Blocks can only be grouped if their ids can be ordered. -/
def checkImpls (x : Export) : Checked Unit :=
  Id.checkKeys ((x.impls.filter fun i => i.2.target?.isSome).map (·.1))

/-- The members that stand in a block. -/
def implMembers (x : Export) (b : ImplBody) : List Id :=
  b.items.filter fun id => ((x.items.payload? id).map Payload.isAssociated).getD false

/-- The provided methods of a block that no member overrides, in order. -/
def defaultsOf (x : Export) (b : ImplBody) : List String :=
  let names := (x.implMembers b).map fun id => (x.items.get? id).bind (·.name)
  (b.providedMethods.filter fun m => !names.contains (some m)).mergeSort fun a b => a ≤ b

/-- A block as an implementation of its trait. -/
def traitImpl (x : Export) (id : Id) (b : ImplBody) : TraitImpl :=
  ⟨id, b.traitId, x.traitPath b, x.implMembers b, x.defaultsOf b, b.isNegative⟩

/-- Puts a block into its group. -/
def sortImpl (x : Export) (noise : List String) (g : ImplGroup) (i : Id × ImplBody) :
    ImplGroup :=
  if x.isNoise noise i.2 then { g with dropped := g.dropped ++ [i.1] }
  else if i.2.traitRef.isNone then
    { g with
      inherent := g.inherent ++ [i.1]
      inherentMembers := g.inherentMembers ++ x.implMembers i.2 }
  else { g with traits := g.traits.push (i.2.traitId.getD i.1) (x.traitImpl i.1 i.2) }

/-- The blocks for a type, in groups. -/
def classify (x : Export) (noise : List String) (typeId : Id) : ImplGroup :=
  (x.implsFor typeId).foldl (x.sortImpl noise) {}

end Export

end CrateBook
