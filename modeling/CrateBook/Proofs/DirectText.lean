import CrateBook.TypeText.Basic

/-!
# Text written at once

The rules for types put rows of segments together, and a row is written in the end. A formatter
follows the same rules with texts: each literal text takes its written form where it is met,
each link is written where its name is, and no row is kept. Only how literal texts and names are
written tells the modes apart.
-/
namespace CrateBook

namespace Markup

/-- The written form of a literal text. -/
def text (m : Markup) (s : String) : String :=
  match m with
  | plain => s
  | markdown => Markdown.escape s

/-- The written form of a name with a link. -/
def link (m : Markup) (name href : String) : String :=
  match m with
  | plain => name
  | markdown => "[" ++ Markdown.escape name ++ "](" ++ href ++ ")"

end Markup

/-- How a formatter writes literal texts and names, and how deep it writes types. -/
structure Formatter where
  text : String → String
  name : Option Id → String → Noting String
  maxDepth : Int

namespace Formatter

open TypeText

/-- Written texts with a literal text between them. -/
def join (F : Formatter) (sep : String) (texts : List String) : String :=
  (F.text sep).intercalate texts

/-- The binder of lifetimes in front of a bound. -/
def binder (F : Formatter) (params : Value) : Checked String := do
  let ps ← params.elementsOrNone
  let lifetimes ← ps.filterM isLifetimeParam
  let names ← lifetimes.mapM fun p => do return (← p.field "name").text
  if names.isEmpty then return ""
  else return F.text ("for<" ++ ", ".intercalate names ++ "> ")

/-- The calling convention of a function pointer. -/
def pointerAbi (F : Formatter) (abi : Value) : Checked String := do
  if !abi.isSet then return ""
  else match abi with
    | .str "Rust" => return ""
    | .str s => return F.text ("extern \"" ++ s ++ "\" ")
    | v => do
      let first ← v.elements
      return F.text ("extern \"" ++ (first.headD (.str "C")).text ++ "\" ")

mutual

def typeAt (F : Formatter) : Nat → Nat → Value → Noting String
  | 0, _, _ => return F.text "..."
  | fuel + 1, depth, v =>
    if F.maxDepth < depth then return F.text "..."
    else match v with
      | .str s => return F.text (if s == "infer" then "_" else s)
      | .object [(tag, body)] =>
        let depth := depth + 1
        match tag with
        | "resolved_path" => F.pathAt fuel depth body
        | "dyn_trait" => F.dynTrait fuel depth body.orObject
        | "generic" => return F.text body.text
        | "primitive" => return F.text body.text
        | "function_pointer" => F.functionPointer fuel depth body.orObject
        | "tuple" => do
          let elems ← F.typesAt fuel depth (← body.elementsOrNone)
          match elems with
          | [e] => return F.text "(" ++ e ++ F.text ",)"
          | es => return F.text "(" ++ F.join ", " es ++ F.text ")"
        | "slice" => do return F.text "[" ++ (← F.typeAt fuel depth body) ++ F.text "]"
        | "array" => do
          let inner ← F.typeAt fuel depth (← body.orObject.field "type")
          let len := match body.orObject with
            | .object ms => ((ms.lookup "len").getD (.str "_")).text
            | _ => "_"
          return F.text "[" ++ inner ++ F.text ("; " ++ len ++ "]")
        | "pat" => do F.typeAt fuel depth (← body.orObject.field "type")
        | "impl_trait" => do return F.text "impl " ++ (← F.boundsAt fuel depth body)
        | "raw_pointer" => do
          let isMutable ← body.orObject.field "is_mutable"
          let inner ← F.typeAt fuel depth (← body.orObject.field "type")
          return F.text (if isMutable.isSet then "*mut " else "*const ") ++ inner
        | "borrowed_ref" => do
          let ref ← referenceText body.orObject
          return F.text ref ++ (← F.typeAt fuel depth (← body.orObject.field "type"))
        | "qualified_path" => F.qualifiedPath fuel depth body.orObject
        | _ => return F.text "_"
      | _ => return F.text "_"

def typesAt (F : Formatter) : Nat → Nat → List Value → Noting (List String)
  | 0, _, _ => return []
  | fuel + 1, depth, vs => vs.mapM (F.typeAt fuel depth)

/-- A path with its generic arguments. -/
def pathAt (F : Formatter) : Nat → Nat → Value → Noting String
  | 0, _, _ => return F.text "..."
  | fuel + 1, depth, v =>
    match v with
    | .object ms => do
      let part (k : String) : Value := (ms.lookup k).getD .null
      let shown ← F.name (Id.ofValue? (part "id")) (shownName ((part "path").textOr ""))
      return shown ++ (← F.argsAt fuel depth (part "args"))
    | _ => return F.text "_"

/-- The generic arguments of a path. -/
def argsAt (F : Formatter) : Nat → Nat → Value → Noting String
  | 0, _, _ => return F.text "..."
  | fuel + 1, depth, v =>
    match v with
    | .object [("angle_bracketed", body)] => do
      let args ← (← (← body.orObject.field "args").elementsOrNone).mapM (F.argAt fuel depth)
      let bounds ← (← body.orObject.field "constraints").elementsOrNone
      let constraints ← bounds.mapM (F.constraintAt fuel depth)
      let parts := args ++ constraints
      if parts.isEmpty then return ""
      else return F.text "<" ++ F.join ", " parts ++ F.text ">"
    | .object [("parenthesized", body)] => do
      let inputs ← F.typesAt fuel depth (← (← body.orObject.field "inputs").elementsOrNone)
      let out := F.text "(" ++ F.join ", " inputs ++ F.text ")"
      let output ← body.orObject.field "output"
      if output.isNull then return out
      else return out ++ F.text " -> " ++ (← F.typeAt fuel depth output)
    | _ => return ""

/-- One generic argument. -/
def argAt (F : Formatter) : Nat → Nat → Value → Noting String
  | 0, _, _ => return F.text "..."
  | fuel + 1, depth, v =>
    match v with
    | .str s => return F.text (if s == "infer" then "_" else s)
    | .object [("type", body)] => F.typeAt fuel depth body
    | .object [("lifetime", body)] => return F.text body.text
    | .object [("const", body)] => return F.text (constText body)
    | _ => return F.text "_"

/-- A constraint on an associated item. -/
def constraintAt (F : Formatter) : Nat → Nat → Value → Noting String
  | 0, _, _ => return F.text "..."
  | fuel + 1, depth, v =>
    match v with
    | .object ms => do
      let part (k : String) : Value := (ms.lookup k).getD .null
      let shown := F.text ((part "name").textOr "_") ++ (← F.argsAt fuel depth (part "args"))
      let binding := (part "binding").orObject
      if ← binding.mentions "equality" then
        let term := (← binding.member "equality").orObject
        if ← term.mentions "type" then
          return shown ++ F.text " = " ++ (← F.typeAt fuel depth (← term.member "type"))
        else return shown ++ F.text (" = " ++ constText (← term.field "constant"))
      else if ← binding.mentions "constraint" then
        return shown ++ F.text ": " ++
          (← F.boundsAt fuel depth (← binding.member "constraint"))
      else return shown
    | _ => return F.text "_"

/-- Bounds with plus signs between them. -/
def boundsAt (F : Formatter) : Nat → Nat → Value → Noting String
  | 0, _, _ => return F.text "..."
  | fuel + 1, depth, v => do
    let bounds := (← v.elementsOrNone).filter fun b => !b.isNull
    return F.join " + " (← bounds.mapM (F.boundAt fuel depth))

/-- One bound: a trait, a lifetime to outlive, or a capture list. -/
def boundAt (F : Formatter) : Nat → Nat → Value → Noting String
  | 0, _, _ => return F.text "..."
  | fuel + 1, depth, v =>
    match v with
    | .object [("trait_bound", body)] => do
      let modifier := modifierText (← body.orObject.field "modifier")
      let forall_ ← F.binder (← body.orObject.field "generic_params")
      return forall_ ++ F.text modifier ++
        (← F.pathAt fuel depth (← body.orObject.field "trait"))
    | .object [("outlives", body)] => return F.text body.text
    | .object [("use", body)] => do
      return F.text ("use<" ++ ", ".intercalate ((← body.elementsOrNone).map captured) ++ ">")
    | _ => return F.text "_"

def polyTrait (F : Formatter) : Nat → Nat → Value → Noting String
  | 0, _, _ => return F.text "..."
  | fuel + 1, depth, v => do
    let forall_ ← F.binder (← v.orObject.field "generic_params")
    return forall_ ++ (← F.pathAt fuel depth (← v.orObject.field "trait"))

def dynTrait (F : Formatter) : Nat → Nat → Value → Noting String
  | 0, _, _ => return F.text "..."
  | fuel + 1, depth, body => do
    let traits ← (← (← body.field "traits").elementsOrNone).mapM (F.polyTrait fuel depth)
    let lifetime ← body.field "lifetime"
    let parts := traits ++ (if lifetime.isSet then [F.text lifetime.text] else [])
    return F.text "dyn " ++ F.join " + " parts

def functionPointer (F : Formatter) : Nat → Nat → Value → Noting String
  | 0, _, _ => return F.text "..."
  | fuel + 1, depth, body => do
    let sig := (← body.field "sig").orObject
    let header := (← body.field "header").orObject
    let forall_ ← F.binder (← body.field "generic_params")
    let isUnsafe ← header.field "is_unsafe"
    let abi ← F.pointerAbi (← header.field "abi")
    let inputs ← (← (← sig.field "inputs").elementsOrNone).mapM fun pair => do
      F.typeAt fuel depth (← pair.element 1)
    let variadic ← sig.field "is_c_variadic"
    let args := inputs ++ (if variadic.isSet then [F.text "..."] else [])
    let out := forall_ ++ (if isUnsafe.isSet then F.text "unsafe " else "") ++ abi ++
      F.text "fn(" ++ F.join ", " args ++ F.text ")"
    let output ← sig.field "output"
    if output.isNull then return out
    else return out ++ F.text " -> " ++ (← F.typeAt fuel depth output)

/-- The associated type of a type or of a trait's implementation. -/
def qualifiedPath (F : Formatter) : Nat → Nat → Value → Noting String
  | 0, _, _ => return F.text "..."
  | fuel + 1, depth, body => do
    let shown := F.text ((← body.field "name").textOr "_")
    let args ← F.argsAt fuel depth (← body.field "args")
    let selfType ← body.field "self_type"
    let trait_ ← body.field "trait"
    let self ← F.typeAt fuel depth selfType
    if trait_.isNull || selfType.isSelfType then
      return self ++ F.text "::" ++ shown ++ args
    else
      return F.text "<" ++ self ++ F.text " as " ++ (← F.pathAt fuel depth trait_) ++
        F.text ">::" ++ shown ++ args

end

/-- A lifetime parameter with the lifetimes it outlives. -/
def lifetimeParam (F : Formatter) (name : String) (kind : Value) : Checked String := do
  let outlives ← (← (← kind.member "lifetime").orObject.field "outlives").elementsOrNone
  if outlives.isEmpty then return F.text name
  else return F.text (name ++ ": " ++ (← Value.joinTexts " + " outlives))

/-- A type parameter with its bounds and its default. -/
def typeParam (F : Formatter) (fuel : Nat) (name : String) (body : Value) : Noting String := do
  let bounds ← body.field "bounds"
  let bounded ←
    if bounds.isSet then do pure (F.text ": " ++ (← F.boundsAt fuel 0 bounds)) else pure ""
  let default ← body.field "default"
  let defaulted ←
    if default.isNull then pure "" else do pure (F.text " = " ++ (← F.typeAt fuel 0 default))
  return F.text name ++ bounded ++ defaulted

/-- A constant parameter with its type and its default. -/
def constParam (F : Formatter) (fuel : Nat) (name : String) (body : Value) : Noting String := do
  let type ← F.typeAt fuel 0 (← body.field "type")
  let default ← body.field "default"
  return F.text ("const " ++ name ++ ": ") ++ type ++
    (if default.isSet then F.text (" = " ++ default.text) else "")

/-- One generic parameter; an empty text for one that the compiler made up. -/
def genericParam (F : Formatter) (fuel : Nat) (p : Value) : Noting String := do
  match p with
  | .object ms => do
    let part (k : String) : Value := (ms.lookup k).getD .null
    let name := (part "name").textOr "_"
    let kind := (part "kind").orObject
    if ← kind.mentions "lifetime" then
      if isSyntheticLifetime name then return ""
      else F.lifetimeParam name kind
    else if ← kind.mentions "type" then
      let body := (← kind.member "type").orObject
      if (← body.field "is_synthetic").isSet then return ""
      else F.typeParam fuel name body
    else if ← kind.mentions "const" then
      F.constParam fuel name (← kind.member "const").orObject
    else return F.text name
  | _ => return ""

/-- A list of generic parameters, without those that are written as nothing. -/
def genericParams (F : Formatter) (fuel : Nat) (params : List Value) : Noting String := do
  let shown := (← params.mapM (F.genericParam fuel)).filter fun s => !s.isEmpty
  if shown.isEmpty then return ""
  else return F.text "<" ++ F.join ", " shown ++ F.text ">"

end Formatter

/-- What a formatter can be asked to write. -/
inductive Piece where
  | type (depth : Nat) (v : Value)
  | path (depth : Nat) (v : Value)
  | bounds (depth : Nat) (v : Value)
  | bound (depth : Nat) (v : Value)
  | param (p : Value)
  | params (ps : List Value)

/-- Fuel for all rules on a piece. -/
def Piece.fuel : Piece → Nat
  | type _ v | path _ v | bounds _ v | bound _ v | param v => TypeText.fuelFor v
  | params ps => 4 * Value.heights ps + 4

def Formatter.write (F : Formatter) (fuel : Nat) : Piece → Noting String
  | .type depth v => F.typeAt fuel depth v
  | .path depth v => F.pathAt fuel depth v
  | .bounds depth v => F.boundsAt fuel depth v
  | .bound depth v => F.boundAt fuel depth v
  | .param p => F.genericParam fuel p
  | .params ps => F.genericParams fuel ps

namespace TypeText

/-- A name in a mode, with a link where it leads somewhere. -/
def nameIn (t : TypeText) (m : Markup) (id : Option Id) (s : String) : Noting String := do
  match t.resolve with
  | none => return m.text s
  | some resolve => do
    Noting.noteAll (id.toList.map fun i => .asked i s)
    match resolve id s with
    | some href => do
      Noting.note (.linked ⟨s, href⟩)
      return m.link s href
    | none => return m.text s

def formatter (t : TypeText) (m : Markup) : Formatter where
  text := m.text
  name := t.nameIn m
  maxDepth := t.maxDepth

def row (t : TypeText) : Piece → Writing
  | .type depth v => t.typeAt (fuelFor v) depth v
  | .path depth v => t.pathAt (fuelFor v) depth v
  | .bounds depth v => t.boundsAt (fuelFor v) depth v
  | .bound depth v => t.boundAt (fuelFor v) depth v
  | .param p => do return (← t.genericParam p).getD []
  | .params ps => t.genericParams ps

end TypeText

end CrateBook
