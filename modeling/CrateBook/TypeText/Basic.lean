import CrateBook.Json.Access
import CrateBook.Note
import CrateBook.TypeText.Lifetime
import CrateBook.TypeText.Segment

/-!
# Types as source text

Types, paths, bounds and generics of an export, written the way they stand in source code.
The rules follow the values of the export; a value that they do not know is written as an
underscore. Names of paths become links where their ids lead somewhere. The height of a
value bounds how deep the rules can go into it.
-/
namespace CrateBook

namespace Value

mutual

/-- How deep values are nested. -/
def height : Value → Nat
  | list xs => heights xs + 1
  | object ms => memberHeights ms + 1
  | _ => 0

/-- The greatest height among values. -/
def heights : List Value → Nat
  | [] => 0
  | v :: vs => max (height v) (heights vs)

/-- The greatest height among the values of members. -/
def memberHeights : List (String × Value) → Nat
  | [] => 0
  | (_, v) :: ms => max (height v) (memberHeights ms)

end

def isSelfType : Value → Bool
  | object [("generic", str "Self")] => true
  | _ => false

/-- Texts joined by a separator; only texts can be joined. -/
def joinTexts (sep : String) (vs : List Value) : Checked String := do
  let ss ← vs.mapM fun
    | str s => Except.ok s
    | _ => Except.error Fault.wrongKind
  return sep.intercalate ss

end Value

/-- How type text is made: where names lead, if links are made at all, and how deep types are
written. A name leads where its id does, unless something else is said. -/
structure TypeText where
  hrefOf : Option (Id → Option String) := none
  maxDepth : Int := 50
  resolve : Option (Option Id → String → Option String) := hrefOf.map fun f id _ => id.bind f

namespace TypeText

open Segment (lit joined)

/-- A row of segments under way. -/
abbrev Writing := Noting (List Segment)

/-- A name, with a link where it leads somewhere. -/
def name (t : TypeText) (id : Option Id) (s : String) : Writing := do
  match t.resolve with
  | none => return lit s
  | some resolve => do
    Noting.noteAll (id.toList.map fun i => .asked i s)
    match resolve id s with
    | some href => do
      Noting.note (.linked ⟨s, href⟩)
      return [.link s href]
    | none => return lit s

def constText : Value → String
  | .object ms =>
    let part (k : String) : Value := (ms.lookup k).getD .null
    ((part "expr").orElse (part "value")).textOr "_"
  | .null => "_"
  | v => v.text

/-- An argument of a capture list. -/
def captured : Value → String
  | .str s => s
  | .object [(_, v)] => v.text
  | _ => "_"

/-- The parameter stands for a lifetime. -/
def isLifetimeParam (p : Value) : Checked Bool :=
  match p with
  | .object ms => ((ms.lookup "kind").getD .null).orObject.mentions "lifetime"
  | _ => .ok false

/-- The binder of lifetimes in front of a bound. -/
def binder (params : Value) : Checked (List Segment) := do
  let ps ← params.elementsOrNone
  let lifetimes ← ps.filterM isLifetimeParam
  let names ← lifetimes.mapM fun p => do return (← p.field "name").text
  if names.isEmpty then return []
  else return lit ("for<" ++ ", ".intercalate names ++ "> ")

/-- The sign of a bound that is not a plain one. -/
def modifierText (v : Value) : String :=
  match v.textOr "none" with
  | "maybe" => "?"
  | "maybe_const" => "~const "
  | _ => ""

/-- The calling convention of a function pointer. -/
def pointerAbi (abi : Value) : Checked (List Segment) := do
  if !abi.isSet then return []
  else match abi with
    | .str "Rust" => return []
    | .str s => return lit ("extern \"" ++ s ++ "\" ")
    | v => do
      let first ← v.elements
      return lit ("extern \"" ++ (first.headD (.str "C")).text ++ "\" ")

/-- The ampersand of a reference, with its lifetime and mutability. -/
def referenceText (body : Value) : Checked String := do
  let lifetime ← body.field "lifetime"
  let shown ←
    if !lifetime.isSet then pure ""
    else match lifetime with
      | .str s => pure (if isSyntheticLifetime s then "" else s ++ " ")
      | _ => .error .noSuchField
  let isMutable ← body.field "is_mutable"
  return "&" ++ shown ++ (if isMutable.isSet then "mut " else "")

/-- The last name of a path, the whole path if that is empty. -/
def shownName (path : String) : String :=
  let last := Text.lastSegment path
  if last.isEmpty then path else last

mutual

def typeAt (t : TypeText) : Nat → Nat → Value → Writing
  | 0, _, _ => return lit "..."
  | fuel + 1, depth, v =>
    if t.maxDepth < depth then return lit "..."
    else match v with
      | .str s => return lit (if s == "infer" then "_" else s)
      | .object [(tag, body)] =>
        let depth := depth + 1
        match tag with
        | "resolved_path" => t.pathAt fuel depth body
        | "dyn_trait" => t.dynTrait fuel depth body.orObject
        | "generic" => return lit body.text
        | "primitive" => return lit body.text
        | "function_pointer" => t.functionPointer fuel depth body.orObject
        | "tuple" => do
          let elems ← t.typesAt fuel depth (← body.elementsOrNone)
          match elems with
          | [e] => return lit "(" ++ e ++ lit ",)"
          | es => return lit "(" ++ joined ", " es ++ lit ")"
        | "slice" => do return lit "[" ++ (← t.typeAt fuel depth body) ++ lit "]"
        | "array" => do
          let inner ← t.typeAt fuel depth (← body.orObject.field "type")
          let len := match body.orObject with
            | .object ms => ((ms.lookup "len").getD (.str "_")).text
            | _ => "_"
          return lit "[" ++ inner ++ lit ("; " ++ len ++ "]")
        | "pat" => do t.typeAt fuel depth (← body.orObject.field "type")
        | "impl_trait" => do return lit "impl " ++ (← t.boundsAt fuel depth body)
        | "raw_pointer" => do
          let isMutable ← body.orObject.field "is_mutable"
          let inner ← t.typeAt fuel depth (← body.orObject.field "type")
          return lit (if isMutable.isSet then "*mut " else "*const ") ++ inner
        | "borrowed_ref" => do
          let ref ← referenceText body.orObject
          return lit ref ++ (← t.typeAt fuel depth (← body.orObject.field "type"))
        | "qualified_path" => t.qualifiedPath fuel depth body.orObject
        | _ => return lit "_"
      | _ => return lit "_"

def typesAt (t : TypeText) : Nat → Nat → List Value → Noting (List (List Segment))
  | 0, _, _ => return []
  | fuel + 1, depth, vs => vs.mapM (t.typeAt fuel depth)

/-- A path with its generic arguments. -/
def pathAt (t : TypeText) : Nat → Nat → Value → Writing
  | 0, _, _ => return lit "..."
  | fuel + 1, depth, v =>
    match v with
    | .object ms => do
      let part (k : String) : Value := (ms.lookup k).getD .null
      let shown ← t.name (Id.ofValue? (part "id")) (shownName ((part "path").textOr ""))
      return shown ++ (← t.argsAt fuel depth (part "args"))
    | _ => return lit "_"

/-- The generic arguments of a path. -/
def argsAt (t : TypeText) : Nat → Nat → Value → Writing
  | 0, _, _ => return lit "..."
  | fuel + 1, depth, v =>
    match v with
    | .object [("angle_bracketed", body)] => do
      let args ← (← (← body.orObject.field "args").elementsOrNone).mapM (t.argAt fuel depth)
      let bounds ← (← body.orObject.field "constraints").elementsOrNone
      let constraints ← bounds.mapM (t.constraintAt fuel depth)
      let parts := args ++ constraints
      if parts.isEmpty then return []
      else return lit "<" ++ joined ", " parts ++ lit ">"
    | .object [("parenthesized", body)] => do
      let inputs ← t.typesAt fuel depth (← (← body.orObject.field "inputs").elementsOrNone)
      let out := lit "(" ++ joined ", " inputs ++ lit ")"
      let output ← body.orObject.field "output"
      if output.isNull then return out
      else return out ++ lit " -> " ++ (← t.typeAt fuel depth output)
    | _ => return []

/-- One generic argument. -/
def argAt (t : TypeText) : Nat → Nat → Value → Writing
  | 0, _, _ => return lit "..."
  | fuel + 1, depth, v =>
    match v with
    | .str s => return lit (if s == "infer" then "_" else s)
    | .object [("type", body)] => t.typeAt fuel depth body
    | .object [("lifetime", body)] => return lit body.text
    | .object [("const", body)] => return lit (constText body)
    | _ => return lit "_"

/-- A constraint on an associated item. -/
def constraintAt (t : TypeText) : Nat → Nat → Value → Writing
  | 0, _, _ => return lit "..."
  | fuel + 1, depth, v =>
    match v with
    | .object ms => do
      let part (k : String) : Value := (ms.lookup k).getD .null
      let shown := lit ((part "name").textOr "_") ++ (← t.argsAt fuel depth (part "args"))
      let binding := (part "binding").orObject
      if ← binding.mentions "equality" then
        let term := (← binding.member "equality").orObject
        if ← term.mentions "type" then
          return shown ++ lit " = " ++ (← t.typeAt fuel depth (← term.member "type"))
        else return shown ++ lit (" = " ++ constText (← term.field "constant"))
      else if ← binding.mentions "constraint" then
        return shown ++ lit ": " ++
          (← t.boundsAt fuel depth (← binding.member "constraint"))
      else return shown
    | _ => return lit "_"

/-- Bounds with plus signs between them. -/
def boundsAt (t : TypeText) : Nat → Nat → Value → Writing
  | 0, _, _ => return lit "..."
  | fuel + 1, depth, v => do
    let bounds := (← v.elementsOrNone).filter fun b => !b.isNull
    return joined " + " (← bounds.mapM (t.boundAt fuel depth))

/-- One bound: a trait, a lifetime to outlive, or a capture list. -/
def boundAt (t : TypeText) : Nat → Nat → Value → Writing
  | 0, _, _ => return lit "..."
  | fuel + 1, depth, v =>
    match v with
    | .object [("trait_bound", body)] => do
      let modifier := modifierText (← body.orObject.field "modifier")
      let forall_ ← binder (← body.orObject.field "generic_params")
      return forall_ ++ lit modifier ++
        (← t.pathAt fuel depth (← body.orObject.field "trait"))
    | .object [("outlives", body)] => return lit body.text
    | .object [("use", body)] => do
      return lit ("use<" ++ ", ".intercalate ((← body.elementsOrNone).map captured) ++ ">")
    | _ => return lit "_"

def polyTrait (t : TypeText) : Nat → Nat → Value → Writing
  | 0, _, _ => return lit "..."
  | fuel + 1, depth, v => do
    let forall_ ← binder (← v.orObject.field "generic_params")
    return forall_ ++ (← t.pathAt fuel depth (← v.orObject.field "trait"))

def dynTrait (t : TypeText) : Nat → Nat → Value → Writing
  | 0, _, _ => return lit "..."
  | fuel + 1, depth, body => do
    let traits ← (← (← body.field "traits").elementsOrNone).mapM (t.polyTrait fuel depth)
    let lifetime ← body.field "lifetime"
    let parts := traits ++ (if lifetime.isSet then [lit lifetime.text] else [])
    return lit "dyn " ++ joined " + " parts

def functionPointer (t : TypeText) : Nat → Nat → Value → Writing
  | 0, _, _ => return lit "..."
  | fuel + 1, depth, body => do
    let sig := (← body.field "sig").orObject
    let header := (← body.field "header").orObject
    let forall_ ← binder (← body.field "generic_params")
    let isUnsafe ← header.field "is_unsafe"
    let abi ← pointerAbi (← header.field "abi")
    let inputs ← (← (← sig.field "inputs").elementsOrNone).mapM fun pair => do
      t.typeAt fuel depth (← pair.element 1)
    let variadic ← sig.field "is_c_variadic"
    let args := inputs ++ (if variadic.isSet then [lit "..."] else [])
    let out := forall_ ++ (if isUnsafe.isSet then lit "unsafe " else []) ++ abi ++ lit "fn(" ++
      joined ", " args ++ lit ")"
    let output ← sig.field "output"
    if output.isNull then return out
    else return out ++ lit " -> " ++ (← t.typeAt fuel depth output)

/-- The associated type of a type or of a trait's implementation. -/
def qualifiedPath (t : TypeText) : Nat → Nat → Value → Writing
  | 0, _, _ => return lit "..."
  | fuel + 1, depth, body => do
    let shown := lit ((← body.field "name").textOr "_")
    let args ← t.argsAt fuel depth (← body.field "args")
    let selfType ← body.field "self_type"
    let trait_ ← body.field "trait"
    let self ← t.typeAt fuel depth selfType
    if trait_.isNull || selfType.isSelfType then
      return self ++ lit "::" ++ shown ++ args
    else
      return lit "<" ++ self ++ lit " as " ++ (← t.pathAt fuel depth trait_) ++ lit ">::" ++
        shown ++ args

end

/-- Fuel for all rules on a value: each level of nesting takes a few steps. -/
def fuelFor (v : Value) : Nat := 4 * v.height + 4

def type (t : TypeText) (v : Value) : Writing := t.typeAt (fuelFor v) 0 v

def path (t : TypeText) (v : Value) : Writing := t.pathAt (fuelFor v) 0 v

def bounds (t : TypeText) (v : Value) : Writing := t.boundsAt (fuelFor v) 0 v

def bound (t : TypeText) (v : Value) : Writing := t.boundAt (fuelFor v) 0 v

/-- A lifetime parameter with the lifetimes it outlives. -/
def lifetimeParam (name : String) (kind : Value) : Checked (List Segment) := do
  let outlives ← (← (← kind.member "lifetime").orObject.field "outlives").elementsOrNone
  if outlives.isEmpty then return lit name
  else return lit (name ++ ": " ++ (← Value.joinTexts " + " outlives))

/-- A type parameter with its bounds and its default. -/
def typeParam (t : TypeText) (name : String) (body : Value) : Writing := do
  let bounds ← body.field "bounds"
  let bounded ← if bounds.isSet then do pure (lit ": " ++ (← t.bounds bounds)) else pure []
  let default ← body.field "default"
  let defaulted ←
    if default.isNull then pure [] else do pure (lit " = " ++ (← t.type default))
  return lit name ++ bounded ++ defaulted

/-- A constant parameter with its type and its default. -/
def constParam (t : TypeText) (name : String) (body : Value) : Writing := do
  let type ← t.type (← body.field "type")
  let default ← body.field "default"
  return lit ("const " ++ name ++ ": ") ++ type ++
    (if default.isSet then lit (" = " ++ default.text) else [])

/-- One generic parameter; none for one that the compiler made up. -/
def genericParam (t : TypeText) (p : Value) : Noting (Option (List Segment)) := do
  match p with
  | .object ms => do
    let part (k : String) : Value := (ms.lookup k).getD .null
    let name := (part "name").textOr "_"
    let kind := (part "kind").orObject
    if ← kind.mentions "lifetime" then
      if isSyntheticLifetime name then return none
      else return some (← lifetimeParam name kind)
    else if ← kind.mentions "type" then
      let body := (← kind.member "type").orObject
      if (← body.field "is_synthetic").isSet then return none
      else return some (← t.typeParam name body)
    else if ← kind.mentions "const" then
      return some (← t.constParam name (← kind.member "const").orObject)
    else return some (lit name)
  | _ => return none

def genericParams (t : TypeText) (params : List Value) : Writing := do
  let shown := (← params.mapM t.genericParam).filterMap id
  if shown.isEmpty then return []
  else return lit "<" ++ joined ", " shown ++ lit ">"

/-- One predicate of a where clause; none where it says nothing in the way it is written. -/
def wherePredicate (t : TypeText) (m : Markup) (p : Value) :
    Noting (Option (List Segment)) := do
  match p with
  | .object [("bound_predicate", body)] => do
    let bounds ← t.bounds (← body.orObject.field "bounds")
    if (Segment.writeAll m bounds).isEmpty then return none
    else do
      let forall_ ← binder (← body.orObject.field "generic_params")
      let type ← t.type (← body.orObject.field "type")
      return some (forall_ ++ type ++ lit ": " ++ bounds)
  | .object [("lifetime_predicate", body)] => do
    let outlives ← (← body.orObject.field "outlives").elementsOrNone
    let shown ← Value.joinTexts " + " outlives
    return some (lit ((← body.orObject.field "lifetime").text ++ ": " ++ shown))
  | .object [("eq_predicate", body)] => do
    let rhs := (← body.orObject.field "rhs").orObject
    let right ←
      if ← rhs.mentions "type" then t.type (← rhs.member "type")
      else pure (lit (constText (← rhs.field "constant")))
    let left ← t.type (← body.orObject.field "lhs")
    return some (left ++ lit " = " ++ right)
  | _ => return none

def wherePredicates (t : TypeText) (m : Markup) (ps : List Value) :
    Noting (List (List Segment)) := do
  return (← ps.mapM (t.wherePredicate m)).filterMap id

end TypeText

end CrateBook
