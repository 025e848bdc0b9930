import CrateBook.Export.Payload

/-!
# Reading payloads

A payload is an object with one member, whose key is the kind. Missing parts read as empty.
A kind that is not known, and a body that is no object, become an unknown payload.
-/
namespace CrateBook

/-- The ids among the values that a value runs through. -/
def Id.listOf (v : Value) : Checked (List Id) := do
  return (← v.elementsOrNone).filterMap Id.ofValue?

/-- The values that a value runs through as ids, with a gap for each that gives none. -/
def Id.optionsOf (v : Value) : Checked (List (Option Id)) := do
  return (← v.elementsOrNone).map Id.ofValue?

/-- Generics; a value that is no object has none. -/
def Generics.ofValue (v : Value) : Checked Generics :=
  match v with
  | .object _ => do
    let params ← (← v.field "params").elementsOrNone
    let preds ← (← v.field "where_predicates").elementsOrNone
    return ⟨params, preds⟩
  | _ => .ok {}

/-- The tag and the body of a shape. -/
def shapeOf : Value → String × Value
  | .str s => (s, .null)
  | .object [(tag, body)] => (tag, body)
  | _ => ("unit", .null)

/-- The name of a calling convention. -/
def abiName : Value → String
  | .str s => s
  | .object (("Other", .str s) :: _) => s
  | .object ((tag, _) :: _) => tag
  | _ => "Rust"

namespace Payload

/-- The member of a body, null where it is missing. -/
def part (body : List (String × Value)) (k : String) : Value := (body.lookup k).getD .null

/-- The member of a body is set. -/
def flag (body : List (String × Value)) (k : String) : Bool := (part body k).isSet

/-- A member that is null or missing gives way to another one. -/
def partOr (body : List (String × Value)) (k other : String) : Value :=
  if (part body k).isNull then part body other else part body k

def readModule (body : List (String × Value)) : Checked ModuleBody := do
  return ⟨← Id.listOf (part body "items"), flag body "is_crate", flag body "is_stripped"⟩

def readStruct (body : List (String × Value)) : Checked StructBody := do
  let (shape, inner) := shapeOf (part body "kind")
  let (fields, stripped) ←
    if shape == "tuple" then do
      let fields ← Id.optionsOf inner
      pure (fields, fields.any Option.isNone)
    else if shape == "plain" then do
      let fields ← Id.listOf (← inner.orObject.field "fields")
      let stripped ← inner.orObject.field "has_stripped_fields"
      pure (fields.map some, stripped.isSet)
    else pure ([], false)
  let generics ← Generics.ofValue (part body "generics")
  return ⟨shape, fields, generics, stripped, ← Id.listOf (part body "impls")⟩

def readEnum (body : List (String × Value)) : Checked EnumBody := do
  let variants ← Id.listOf (part body "variants")
  let generics ← Generics.ofValue (part body "generics")
  return ⟨variants, generics, flag body "has_stripped_variants",
    ← Id.listOf (part body "impls")⟩

def readVariant (body : List (String × Value)) : Checked VariantBody := do
  let (shape, inner) := shapeOf (part body "kind")
  let fields ←
    if shape == "tuple" then Id.optionsOf inner
    else if shape == "struct" then do
      pure ((← Id.listOf (← inner.orObject.field "fields")).map some)
    else pure []
  let expr := match part body "discriminant" with
    | .object d => part d "expr"
    | _ => .null
  return ⟨shape, fields, expr⟩

/-- The inputs of a function: the pairs of a name and a type. -/
def readInputs (v : Value) : Checked (List (String × Value)) := do
  return (← v.elementsOrNone).filterMap fun
    | .list [name, type] => some (name.text, type)
    | _ => none

def readFunction (body : List (String × Value)) : Checked FunctionBody := do
  let sig := (part body "sig").orObject
  let header := (part body "header").orObject
  let inputs ← readInputs (← sig.field "inputs")
  let output ← sig.field "output"
  let generics ← Generics.ofValue (part body "generics")
  let isConst ← header.field "is_const"
  let isAsync ← header.field "is_async"
  let isUnsafe ← header.field "is_unsafe"
  let abi ← header.field "abi"
  let variadic ← sig.field "is_c_variadic"
  return ⟨inputs, output, generics, isConst.isSet, isAsync.isSet, isUnsafe.isSet, abiName abi,
    ((body.lookup "has_body").getD (.bool true)).isSet, variadic.isSet⟩

def readTrait (body : List (String × Value)) : Checked TraitBody := do
  let items ← Id.listOf (part body "items")
  let bounds ← (part body "bounds").elementsOrNone
  let generics ← Generics.ofValue (part body "generics")
  return ⟨items, bounds, generics, flag body "is_auto", flag body "is_unsafe",
    ← Id.listOf (part body "implementations")⟩

def readConstant (body : List (String × Value)) : Checked ConstantBody := do
  let const := (part body "const").orObject
  return ⟨part body "type", ← const.field "expr", ← const.field "value"⟩

/-- An implementation block's body. -/
def readImpl (body : List (String × Value)) : Checked ImplBody := do
  let traitRef := match part body "trait" with
    | .object ms => some ms
    | _ => none
  let items ← Id.listOf (part body "items")
  let generics ← Generics.ofValue (part body "generics")
  let provided ← (part body "provided_trait_methods").elementsOrNone
  return ⟨part body "for", traitRef, items, generics, flag body "is_synthetic",
    part body "blanket_impl", flag body "is_negative", flag body "is_unsafe",
    provided.map Value.text⟩

/-- A re-export's body. -/
def readUse (body : List (String × Value)) : UseBody :=
  let source := (part body "source").textOr ""
  ⟨source, (part body "name").textOr (Text.lastSegment source),
    Id.ofValue? (part body "id"), flag body "is_glob"⟩

/-- A procedural macro's body. -/
def readProcMacro (body : List (String × Value)) : Checked ProcMacroBody := do
  let helpers ← (part body "helpers").elementsOrNone
  return ⟨(part body "kind").textOr "bang", helpers.map Value.text⟩

/-- An associated type's body. -/
def readAssocType (body : List (String × Value)) : Checked AssocTypeBody := do
  let bounds ← (part body "bounds").elementsOrNone
  let generics ← Generics.ofValue (part body "generics")
  return ⟨bounds, generics, partOr body "type" "default"⟩

/-- The payload of a kind whose body is an object. -/
def ofBody (tag : String) (body : List (String × Value)) : Checked Payload :=
  match tag with
  | "module" => do return module (← readModule body)
  | "struct" => do return struct (← readStruct body)
  | "enum" => do return enum (← readEnum body)
  | "variant" => do return variant (← readVariant body)
  | "function" => do return function (← readFunction body)
  | "trait" => do return trait (← readTrait body)
  | "type_alias" => do
    return typeAlias ⟨part body "type", ← Generics.ofValue (part body "generics")⟩
  | "constant" => do return constant (← readConstant body)
  | "static" => .ok (static ⟨part body "type", part body "expr", flag body "is_mutable",
      flag body "is_unsafe"⟩)
  | "impl" => do return impl (← readImpl body)
  | "use" => .ok (use (readUse body))
  | "proc_macro" => do return procMacro (← readProcMacro body)
  | "primitive" => do
    return primitive ⟨(part body "name").textOr "", ← Id.listOf (part body "impls")⟩
  | "assoc_const" => .ok (assocConst ⟨part body "type", partOr body "value" "default"⟩)
  | "assoc_type" => do return assocType (← readAssocType body)
  | _ => .ok (unknown tag (.object body))

/-- The payload that an item's inner value gives. -/
def ofValue (inner : Value) : Checked Payload :=
  match inner with
  | .str s => .ok (unknown s .null)
  | .object [(tag, body)] =>
    if tag == "struct_field" then .ok (structField body)
    else if tag == "macro" then .ok (macroRules (body.textOr ""))
    else
      match body with
      | .object ms => ofBody tag ms
      | _ => .ok (unknown tag body)
  | _ => .ok (unknown "<malformed>" inner)

end Payload

end CrateBook
