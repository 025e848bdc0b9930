import CrateBook.Export.Index

/-!
# Inclusion

Which items belong in the output. Public items do; private ones only if they are asked for,
and then a stripped module still does not. Members without a visibility of their own follow
the item that lists them.
-/
namespace CrateBook

/-- The item belongs in the output. -/
def Item.isIncluded (includePrivate : Bool) (x : Item) : Bool :=
  x.visibility.isPublic ||
    includePrivate &&
      match x.payload with
      | .module b => !b.isStripped
      | _ => true

/-- A member that is not included itself follows the item that lists it. -/
def Item.followsContainer (x : Item) (container : Option Item) : Bool :=
  match container with
  | none => false
  | some c =>
    if x.kind == "struct_field" then c.kind == "variant"
    else if x.visibility != .default then false
    else match c.payload with
      | .impl b => b.traitRef.isSome
      | _ => c.kind == "enum" || c.kind == "variant" || c.kind == "trait"

/-- A field, variant or associated item is shown on its owner's page. -/
def Export.showsMember (x : Export) (includePrivate : Bool) (id : Id) : Bool :=
  match x.items.get? id with
  | none => false
  | some m => m.isIncluded includePrivate || m.followsContainer (x.container? id)

end CrateBook
