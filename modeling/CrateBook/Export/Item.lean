import CrateBook.Export.PayloadReader
import CrateBook.Export.Visibility

/-!
# Items

An item of an export: its name, docs and declaration.
-/
namespace CrateBook

/-- The note that an item is deprecated. -/
structure Deprecation where
  since : Option String
  note : Option String

/-- A documented item. -/
structure Item where
  id : Id
  /-- The tag of the payload. -/
  kind : String
  /-- The declared name; never empty. -/
  name : Option String
  visibility : Visibility
  docs : String
  deprecation : Option Deprecation
  /-- The id that each link text of the docs refers to. -/
  links : List (String × Id)
  attrs : List String
  payload : Payload
  crateId : Int := 0

namespace Item

/-- The name under which an item is shown. -/
def displayName (x : Item) : String := x.name.getD ("<" ++ x.kind ++ ">")

/-- The kind that an item's inner value gives. -/
def kindOf : Value → String
  | .object [(tag, _)] => tag
  | .str s => s
  | _ => "unknown"

def deprecationOf : Value → Option Deprecation
  | .object ms =>
    some ⟨((ms.lookup "since").getD .null).text?, ((ms.lookup "note").getD .null).text?⟩
  | _ => none

def attributeText : Value → String
  | .str s => if Text.startsWith "#" s then s else "#[" ++ s ++ "]"
  | .object [("other", v)] => v.text
  | .object [("repr", .object ms)] =>
    let kind := ((ms.lookup "kind").getD .null).textOr "rust"
    "#[repr(" ++ (if kind == "c" then "C" else kind) ++ ")]"
  | .object [(tag, _)] => "#[" ++ tag ++ "]"
  | v => v.text

/-- Reads the item with a given id from the members of its value. -/
def read (id : Id) (raw : List (String × Value)) : Checked Item := do
  let part (k : String) : Value := (raw.lookup k).getD .null
  let inner := part "inner"
  let links ← (part "links").orObject.members
  let attrs ← (part "attrs").elementsOrNone
  let payload ← Payload.ofValue inner
  let crateId ← ((part "crate_id").orElse (.int 0)).toInt
  return {
    id
    kind := kindOf inner
    name := (part "name").text?
    visibility := Visibility.ofValue (part "visibility")
    docs := Text.trim ((part "docs").textOr "")
    deprecation := deprecationOf (part "deprecation")
    links := links.filterMap fun l => (Id.ofValue? l.2).map fun target => (l.1, target)
    attrs := attrs.map attributeText
    payload
    crateId }

theorem id_read {id : Id} {raw : List (String × Value)} {x : Item}
    (h : read id raw = .ok x) : x.id = id := by
  unfold read at h
  simp only [bind, Except.bind, pure, Except.pure] at h
  repeat' split at h
  all_goals cases h <;> rfl

end Item

end CrateBook
