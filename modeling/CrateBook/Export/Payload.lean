import CrateBook.Export.Id

/-!
# Payloads

What an item is, by kind. Every item has one payload; one that is not read is kept under
its tag. Types inside payloads stay the values that the export gives.
-/
namespace CrateBook

/-- The parameters and the where clause of a declaration. -/
structure Generics where
  params : List Value := []
  wherePredicates : List Value := []
deriving Inhabited

/-- A module lists its items. -/
structure ModuleBody where
  items : List Id
  isCrate : Bool := false
  isStripped : Bool := false

/-- A struct; a field of a tuple may be left out of the export. -/
structure StructBody where
  shape : String
  fields : List (Option Id)
  generics : Generics
  hasStrippedFields : Bool := false
  impls : List Id := []

/-- An enum lists its variants. -/
structure EnumBody where
  variants : List Id
  generics : Generics
  hasStrippedVariants : Bool := false
  impls : List Id := []

/-- A variant of an enum. -/
structure VariantBody where
  shape : String
  fields : List (Option Id)
  discriminant : Value

/-- A function or method. -/
structure FunctionBody where
  inputs : List (String × Value)
  output : Value
  generics : Generics
  isConst : Bool := false
  isAsync : Bool := false
  isUnsafe : Bool := false
  abi : String := "Rust"
  hasBody : Bool := true
  isVariadic : Bool := false

/-- A trait lists its items. -/
structure TraitBody where
  items : List Id
  bounds : List Value
  generics : Generics
  isAuto : Bool := false
  isUnsafe : Bool := false
  implementations : List Id := []

/-- A name for a type. -/
structure AliasBody where
  type : Value
  generics : Generics

structure ConstantBody where
  type : Value
  expr : Value
  value : Value

structure StaticBody where
  type : Value
  expr : Value
  isMutable : Bool := false
  isUnsafe : Bool := false

/-- An implementation block, of a trait or inherent. -/
structure ImplBody where
  forType : Value
  /-- The members of the trait reference, for an implementation of a trait. -/
  traitRef : Option (List (String × Value))
  items : List Id
  generics : Generics
  isSynthetic : Bool := false
  blanket : Value
  isNegative : Bool := false
  isUnsafe : Bool := false
  providedMethods : List String := []

/-- A procedural macro. -/
structure ProcMacroBody where
  kind : String
  helpers : List String := []

/-- A primitive type. -/
structure PrimitiveBody where
  name : String
  impls : List Id := []

/-- A re-export. -/
structure UseBody where
  source : String
  name : String
  target : Option Id
  isGlob : Bool := false

/-- An associated constant. -/
structure AssocConstBody where
  type : Value
  value : Value

/-- An associated type. -/
structure AssocTypeBody where
  bounds : List Value
  generics : Generics
  type : Value

/-- What an item is. -/
inductive Payload where
  | module (b : ModuleBody)
  | struct (b : StructBody)
  | structField (type : Value)
  | enum (b : EnumBody)
  | variant (b : VariantBody)
  | function (b : FunctionBody)
  | trait (b : TraitBody)
  | typeAlias (b : AliasBody)
  | constant (b : ConstantBody)
  | static (b : StaticBody)
  | impl (b : ImplBody)
  | macroRules (source : String)
  | procMacro (b : ProcMacroBody)
  | primitive (b : PrimitiveBody)
  | use (b : UseBody)
  | assocConst (b : AssocConstBody)
  | assocType (b : AssocTypeBody)
  | unknown (tag : String) (raw : Value)

namespace Payload

def isModule : Payload → Bool
  | module _ => true
  | _ => false

/-- An implementation block can hold this as a member. -/
def isAssociated : Payload → Bool
  | function _ => true
  | assocConst _ => true
  | assocType _ => true
  | _ => false

end Payload

/-- The value of a trait reference's member, null where it is missing. -/
def ImplBody.traitField (b : ImplBody) (k : String) : Value :=
  ((b.traitRef.getD []).lookup k).getD .null

/-- The id of the trait that a block implements. -/
def ImplBody.traitId (b : ImplBody) : Option Id := Id.ofValue? (b.traitField "id")

/-- The id of the type that a block is for, if it names one. -/
def ImplBody.target (b : ImplBody) : Checked (Option Id) :=
  match b.forType with
  | .object ms =>
    match ms.lookup "resolved_path" with
    | some path => do return Id.ofValue? (← path.orObject.field "id")
    | none => .ok none
  | _ => .ok none

/-- The id of the type that a block is for; none also where the type has no readable form. -/
def ImplBody.target? (b : ImplBody) : Option Id :=
  match b.target with
  | .ok id => id
  | .error _ => none

end CrateBook
