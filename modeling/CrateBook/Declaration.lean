import CrateBook.Inclusion
import CrateBook.TypeText.Basic

/-!
# Declarations

The declaration of an item as source code. Every kind of item has one form; an item of an
unknown kind gets a comment in its place, and leaves a note.
-/
namespace CrateBook

/-- A declaration and the links in it. -/
structure RenderedCode where
  code : String
  links : List Link

/-- What declarations are made from: the export, which ids lead where, and whether private
items are shown. -/
structure Declaration where
  source : Export
  types : TypeText := {}
  includePrivate : Bool := false

namespace Declaration

/-- How many arguments a function may have on one line. -/
def maxInlineArgs : Nat := 3

/-- How wide a function's signature on one line may be. -/
def maxWidth : Nat := 80

/-- The indentation of the lines of a body. -/
def indent : String := "    "

def plain (x : Noting (List Segment)) : Noting String := do
  return Segment.writeAll .plain (← x)

variable (d : Declaration)

/-- A type as plain text. -/
def type (v : Value) : Noting String := plain (d.types.type v)

/-- Generic parameters as plain text. -/
def params (g : Generics) : Noting String := plain (d.types.genericParams g.params)

/-- A where clause, on lines of its own; empty if it says nothing. -/
def whereClause (g : Generics) : Noting String := do
  let preds ← d.types.wherePredicates .plain g.wherePredicates
  if preds.isEmpty then return ""
  else
    let lines := preds.map fun p => indent ++ Segment.writeAll .plain p ++ ","
    return "\nwhere\n" ++ Text.joinLines lines

/-- The brace that opens a body, on a line of its own behind a where clause. -/
def openBrace (clause : String) : String :=
  if clause.isEmpty then " \x7b" else clause ++ "\n\x7b"

/-- A head with a body of lines; without lines the braces stay on the head's line. -/
def withBody (head clause : String) (lines : List String) : String :=
  if lines.isEmpty then head ++ clause ++ " \x7b\x7d"
  else head ++ openBrace clause ++ "\n" ++ Text.joinLines lines ++ "\n\x7d"

/-- The item of an id, if it is shown. -/
def visible? (id : Option Id) : Option Item :=
  (d.source.find? id).filter fun x => x.isIncluded d.includePrivate

def moduleText (x : Item) (b : ModuleBody) : String :=
  if b.isCrate then "crate " ++ x.displayName
  else x.visibility.keyword ++ "mod " ++ x.displayName

/-- A field with its name; an item that is no field has no type. -/
def fieldText (x : Item) : Noting String := do
  let t := match x.payload with
    | .structField t => t
    | _ => .null
  return x.visibility.keyword ++ x.displayName ++ ": " ++ (← d.type t)

/-- A field of a tuple that is shown, with its type. -/
def tupleField? (id : Option Id) : Option (Item × Value) :=
  match d.visible? id with
  | some x =>
    match x.payload with
    | .structField t => some (x, t)
    | _ => none
  | none => none

/-- The fields that the declaration of a tuple struct shows, with their types. -/
def tupleFields (b : StructBody) : List (Item × Value) := b.fields.filterMap d.tupleField?

/-- The fields that the declaration of a struct with named fields shows. -/
def namedFields (b : StructBody) : List Item := b.fields.filterMap d.visible?

def tupleFieldText (f : Item × Value) : Noting String := do
  return f.1.visibility.keyword ++ (← d.type f.2)

/-- A named field as a line of its struct. -/
def fieldLine (x : Item) : Noting String := do
  return indent ++ (← d.fieldText x) ++ ","

/-- What stands for the fields that are not shown. -/
def privateFields : String := "/* private fields */"

/-- A struct. Fields that are not shown leave a comment. -/
def structText (x : Item) (b : StructBody) : Noting String := do
  let head := x.visibility.keyword ++ "struct " ++ x.displayName ++ (← d.params b.generics)
  let clause ← d.whereClause b.generics
  if b.shape == "tuple" then
    let fields ← (d.tupleFields b).mapM d.tupleFieldText
    let hidden := if b.fields.all fun f => (d.tupleField? f).isSome then [] else [privateFields]
    return head ++ "(" ++ ", ".intercalate (fields ++ hidden) ++ ")" ++ clause ++ ";"
  else if b.shape == "plain" then
    let fields ← (d.namedFields b).mapM d.fieldLine
    let hidden :=
      if !b.hasStrippedFields && b.fields.all fun f => (d.visible? f).isSome then []
      else [indent ++ privateFields]
    return withBody head clause (fields ++ hidden)
  else return head ++ clause ++ ";"

/-- The type of a field, or an underscore. -/
def positionalField (x : Option Item) : Noting String :=
  match x with
  | some f =>
    match f.payload with
    | .structField t => d.type t
    | _ => return "_"
  | none => return "_"

/-- A field of a variant with its name; none for an item that is no field. -/
def variantField (x : Option Item) : Noting (Option String) := do
  match x with
  | some f =>
    match f.payload with
    | .structField t => return some (f.displayName ++ ": " ++ (← d.type t))
    | _ => return none
  | none => return none

def variantText (x : Item) (b : VariantBody) : Noting String := do
  let fields := b.fields.map d.source.find?
  if b.shape == "tuple" then
    let shown ← fields.mapM d.positionalField
    return x.displayName ++ "(" ++ ", ".intercalate shown ++ ")"
  else if b.shape == "struct" then
    let shown := (← fields.mapM d.variantField).filterMap id
    if shown.isEmpty then return x.displayName ++ " \x7b\x7d"
    else return x.displayName ++ " \x7b " ++ ", ".intercalate shown ++ " \x7d"
  else if b.discriminant.isSet then return x.displayName ++ " = " ++ b.discriminant.text
  else return x.displayName

/-- The variant of an id; none for an item that is no variant. -/
def variant? (id : Id) : Option (Item × VariantBody) :=
  match d.source.items.get? id with
  | some x =>
    match x.payload with
    | .variant b => some (x, b)
    | _ => none
  | none => none

/-- The variants that the declaration of an enum shows. -/
def variants (b : EnumBody) : List (Item × VariantBody) := b.variants.filterMap d.variant?

def variantLine (v : Item × VariantBody) : Noting String := do
  return indent ++ (← d.variantText v.1 v.2) ++ ","

def enumText (x : Item) (b : EnumBody) : Noting String := do
  let head := x.visibility.keyword ++ "enum " ++ x.displayName ++ (← d.params b.generics)
  let clause ← d.whereClause b.generics
  let lines ← (d.variants b).mapM d.variantLine
  let omitted := if b.hasStrippedVariants then [indent ++ "// some variants omitted"] else []
  return withBody head clause (lines ++ omitted)

/-- The receiver of a method in its short form, if the type has one. -/
def receiver? (type : Value) : Checked (Option String) :=
  if type.isSelfType then .ok (some "self")
  else match type with
    | .object ms =>
      match ms.lookup "borrowed_ref" with
      | some ref => do
        if (← ref.orObject.field "type").isSelfType then
          return some ((← TypeText.referenceText ref.orObject) ++ "self")
        else return none
      | none => .ok none
    | _ => .ok none

def argument (input : String × Value) : Noting String := do
  let (name, type) := input
  if name == "self" then
    match ← receiver? type with
    | some short => return short
    | none => return "self: " ++ (← d.type type)
  else return name ++ ": " ++ (← d.type type)

/-- A function. Its arguments get a line each where one line would be too long. -/
def functionText (x : Item) (b : FunctionBody) : Noting String := do
  let qualifiers := x.visibility.keyword ++ (if b.isConst then "const " else "") ++
    (if b.isAsync then "async " else "") ++ (if b.isUnsafe then "unsafe " else "") ++
    (if b.abi.isEmpty || b.abi == "Rust" then "" else "extern \"" ++ b.abi ++ "\" ")
  let head := qualifiers ++ "fn " ++ x.displayName ++ (← d.params b.generics)
  let inputs ← b.inputs.mapM d.argument
  let args := inputs ++ (if b.isVariadic then ["..."] else [])
  let ret ← if b.output.isNull then pure "" else do pure (" -> " ++ (← d.type b.output))
  let short := head ++ "(" ++ ", ".intercalate args ++ ")" ++ ret
  let sig :=
    if maxInlineArgs < args.length || maxWidth < short.length then
      head ++ "(\n" ++ String.join (args.map fun a => indent ++ a ++ ",\n") ++ ")" ++ ret
    else short
  return sig ++ (← d.whereClause b.generics)

/-- An associated constant. -/
def assocConstText (x : Item) (b : AssocConstBody) : Noting String := do
  let out := "const " ++ x.displayName ++ ": " ++ (← d.type b.type)
  return out ++ (if b.value.isSet then " = " ++ b.value.text else "") ++ ";"

/-- Bounds behind a colon, where there are any. -/
def boundsText (bounds : List Value) : Noting String :=
  if bounds.isEmpty then return ""
  else do return ": " ++ (← plain (d.types.bounds (.list bounds)))

def assocTypeText (x : Item) (b : AssocTypeBody) : Noting String := do
  let head := "type " ++ x.displayName ++ (← d.params b.generics)
  let bounded ← d.boundsText b.bounds
  let type ← if b.type.isNull then pure "" else do pure (" = " ++ (← d.type b.type))
  return head ++ bounded ++ type ++ ";"

/-- What stands in a trait's body. -/
inductive TraitMember where
  | type (b : AssocTypeBody)
  | const (b : AssocConstBody)
  | method (b : FunctionBody)

/-- Types come before constants, and constants before methods. -/
def TraitMember.rank : TraitMember → Nat
  | type _ => 0
  | const _ => 1
  | method _ => 2

/-- The item of an id as a member of a trait; none for a kind that a trait does not hold. -/
def traitMember? (id : Id) : Option (Item × TraitMember) :=
  match d.source.items.get? id with
  | some x =>
    match x.payload with
    | .assocType b => some (x, .type b)
    | .assocConst b => some (x, .const b)
    | .function b => some (x, .method b)
    | _ => none
  | none => none

/-- The items that the declaration of a trait shows. -/
def traitMembers (b : TraitBody) : List (Item × TraitMember) :=
  b.items.filterMap d.traitMember?

/-- A member of a trait; a method with a body shows that it has one. -/
def traitMemberText (m : Item × TraitMember) : Noting String :=
  match m.2 with
  | .type b => d.assocTypeText m.1 b
  | .const b => d.assocConstText m.1 b
  | .method b => do
    return (← d.functionText m.1 b) ++ (if b.hasBody then " \x7b ... \x7d" else ";")

def rankedText (m : Item × TraitMember) : Noting (Nat × String) := do
  return (m.2.rank, ← d.traitMemberText m)

def traitText (x : Item) (b : TraitBody) : Noting String := do
  let words := x.visibility.keyword ++ (if b.isUnsafe then "unsafe " else "") ++
    (if b.isAuto then "auto " else "")
  let head := words ++ "trait " ++ x.displayName ++ (← d.params b.generics)
  let bounded ← d.boundsText b.bounds
  let clause ← d.whereClause b.generics
  let ranked ← (d.traitMembers b).mapM d.rankedText
  let ordered := [0, 1, 2].flatMap fun r => (ranked.filter (·.1 == r)).map (·.2)
  return withBody (head ++ bounded) clause (ordered.map fun text =>
    Text.joinLines ((Text.lines text).map (indent ++ ·)))

/-- A name for a type. -/
def aliasText (x : Item) (b : AliasBody) : Noting String := do
  let head := x.visibility.keyword ++ "type " ++ x.displayName ++ (← d.params b.generics)
  let clause ← d.whereClause b.generics
  return head ++ clause ++ " = " ++ (← d.type b.type) ++ ";"

/-- A constant with its value, where the export gives one. -/
def constantText (x : Item) (b : ConstantBody) : Noting String := do
  let out := x.visibility.keyword ++ "const " ++ x.displayName ++ ": " ++ (← d.type b.type)
  let init := b.expr.orElse b.value
  return out ++ (if init.isSet then " = " ++ init.text else "") ++ ";"

def staticText (x : Item) (b : StaticBody) : Noting String := do
  let words := x.visibility.keyword ++ (if b.isUnsafe then "unsafe " else "") ++ "static " ++
    (if b.isMutable then "mut " else "")
  let out := words ++ x.displayName ++ ": " ++ (← d.type b.type)
  return out ++ (if b.expr.isSet then " = " ++ b.expr.text else "") ++ ";"

/-- The head of an implementation block. -/
def implText (b : ImplBody) : Noting String := do
  let words := (if b.isUnsafe then "unsafe impl" else "impl") ++ (← d.params b.generics) ++ " "
  let traitPart ← match b.traitRef with
    | some ms => do
      let path ← plain (d.types.path (.object ms))
      pure ((if b.isNegative then "!" else "") ++ path ++ " for ")
    | none => pure ""
  let type ← d.type b.forType
  return words ++ traitPart ++ type ++ (← d.whereClause b.generics)

/-- A macro by its source, or by its name if the export has no source. -/
def macroText (x : Item) (source : String) : String :=
  let s := Text.trim source
  if s.isEmpty then "macro_rules! " ++ x.displayName ++ " \x7b ... \x7d" else s

/-- A procedural macro by its use. -/
def procMacroText (x : Item) (b : ProcMacroBody) : String :=
  match b.kind with
  | "derive" => "#[derive(" ++ x.displayName ++ ")]" ++
      (if b.helpers.isEmpty then ""
        else "\n// helper attributes: " ++ ", ".intercalate b.helpers)
  | "attr" => "#[" ++ x.displayName ++ "]"
  | _ => x.displayName ++ "!() \x7b /* proc-macro */ \x7d"

/-- A re-export. -/
def useText (x : Item) (b : UseBody) : String :=
  let words := x.visibility.keyword ++ "use " ++ b.source
  if b.isGlob then words ++ "::*;"
  else if b.name != Text.lastSegment b.source then words ++ " as " ++ b.name ++ ";"
  else words ++ ";"

def text (x : Item) : Noting String :=
  match x.payload with
  | .module b => return moduleText x b
  | .struct b => d.structText x b
  | .structField _ => d.fieldText x
  | .enum b => d.enumText x b
  | .variant b => d.variantText x b
  | .function b => d.functionText x b
  | .trait b => d.traitText x b
  | .typeAlias b => d.aliasText x b
  | .constant b => d.constantText x b
  | .static b => d.staticText x b
  | .impl b => d.implText b
  | .macroRules s => return macroText x s
  | .procMacro b => return procMacroText x b
  | .primitive b => return "primitive " ++ (if b.name.isEmpty then x.displayName else b.name)
  | .use b => return useText x b
  | .assocConst b => d.assocConstText x b
  | .assocType b => d.assocTypeText x b
  | .unknown tag _ => do
    Noting.note (.unsupported x.id tag)
    return "/* unsupported item kind: " ++ tag ++ " */"

/-- The declaration of an item, with the links found in it. -/
def render (x : Item) : Noting RenderedCode := do
  let (code, links) ← (d.text x).withLinks
  return ⟨code, Link.distinct links⟩

end Declaration

end CrateBook
