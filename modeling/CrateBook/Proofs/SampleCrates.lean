import CrateBook.Export.Reader
import CrateBook.Json.Writer
import CrateBook.Proofs.Tables
import CrateBook.Proofs.ValueEquality

/-!
# Sample crates

The crates on which statements are tried differ in a few items. All of them are named `demo`, have
a root with the id `0`, and are made here: from a list of items, and as the text from which
exactly this export is read.

A text is written from the entries of its index character by character, in the shortest form, so
that the kernel can read it back; the strings of `Json.render` are too slow for that.

## Main definitions

* `Sample.crate`: the export with given items.
* `Sample.text`: the text of an export with given entries in its index.
-/
namespace CrateBook.Sample

/-! ## Items and their export -/

/-- An item without docs, links and attributes. -/
def item (id : Id) (kind : String) (name : Option String) (payload : Payload)
    (visibility : Visibility := .pub) (docs : String := "") : Item :=
  { id, kind, name, visibility, docs, deprecation := none, links := [], attrs := [], payload }

@[simp] theorem id_item (id : Id) (kind : String) (name : Option String) (payload : Payload)
    (visibility : Visibility) (docs : String) :
    (item id kind name payload visibility docs).id = id := rfl

def module (id : Id) (name : String) (items : List Id) : Item :=
  item id "module" (some name) (.module { items })

def reexport (id : Id) (source name : String) (target : Option Id) (isGlob : Bool := false) :
    Item :=
  item id "use" none (.use { source, name, target, isGlob })

/-- A function without parameters, which gives nothing. -/
def function (id : Id) (name : String) (visibility : Visibility := .pub) : Item :=
  item id "function" (some name) (.function { inputs := [], output := .null, generics := {} })
    visibility

def struct (id : Id) (name : String) (fields : List Id) : Item :=
  item id "struct" (some name)
    (.struct { shape := "plain", fields := fields.map some, generics := {} })

def field (id : Id) (name primitive : String) (visibility : Visibility := .pub) : Item :=
  item id "struct_field" (some name) (.structField (.object [("primitive", .str primitive)]))
    visibility

/-- The crate of these items, where each member is told its owner and its container. -/
def crate (xs : List Item) (owners containers : Table Id Id := .empty)
    (external : Table Id Summary := .empty) : Export where
  package :=
    { name := "demo", version := .null, rootId := "0", includesPrivate := false
      formatVersion := 56 }
  items := xs.foldl Items.insert .empty
  external
  owners
  containers

section

variable {xs : List Item} {owners containers : Table Id Id} {external : Table Id Summary}

/-- What holds of the items of a sample crate holds of all that is found in it. -/
theorem forall_crate {P : Item → Prop} (h : ∀ x ∈ xs, P x) :
    ∀ id y, (crate xs owners containers external).items.get? id = some y → P y := by
  have hall : ∀ ys : Items, (∀ id y, ys.get? id = some y → P y) →
      ∀ id y, (xs.foldl Items.insert ys).get? id = some y → P y := by
    induction xs with
    | nil => exact fun ys hys => hys
    | cons x xs ih =>
      obtain ⟨hx, hxs⟩ := List.forall_mem_cons.1 h
      exact fun ys hys => ih hxs _ (Items.forall_insert hx hys)
  exact hall .empty Items.forall_empty

theorem mem_of_get?_crate {id : Id} {y : Item}
    (h : (crate xs owners containers external).items.get? id = some y) : y ∈ xs :=
  forall_crate (fun _ hx => hx) id y h

theorem forall_ids_crate {P : Id → Prop} (h : ∀ x ∈ xs, P x.id) :
    ∀ id ∈ (crate xs owners containers external).items.ids, P id := by
  intro id hid
  obtain ⟨y, hy⟩ := Table.mem_keys_iff.1 hid
  exact Items.id_of_get? hy ▸ h y (mem_of_get?_crate hy)

end

/-! ## Entries and their text -/

/-- An entry of an index: members in front, then what the item holds. -/
def entry (front : List (String × Value)) (tag : String) (body : Value) : Value :=
  .object (front ++ [("inner", .object [(tag, body)])])

def publicEntry (name tag : String) (body : Value) : Value :=
  entry [("name", .str name), ("visibility", .str "public")] tag body

def privateEntry (name tag : String) (body : Value) : Value :=
  entry [("name", .str name), ("visibility", .str "default")] tag body

def moduleEntry (name : String) (items : List Int) : Value :=
  publicEntry name "module" (.object [("items", .list (items.map .int))])

def functionEntry (name : String) : Value := publicEntry name "function" (.object [])

def reexportEntry (source name : String) (target : Value) : Value :=
  entry [("visibility", .str "public")] "use"
    (.object [("source", .str source), ("name", .str name), ("id", target)])

def structEntry (name : String) (fields : List Int) : Value :=
  publicEntry name "struct"
    (.object [("kind", .object [("plain", .object [("fields", .list (fields.map .int))])])])

/-- The members of a document with this index. -/
def members (index : List (String × Value)) : List (String × Value) :=
  [("format_version", .int 56), ("root", .int 0), ("index", .object index)]

def quoted (s : String) : List Char := '"' :: s.toList.flatMap (Json.stringChar true) ++ ['"']

mutual

/-- The characters of a value on one line. -/
def chars : Value → List Char
  | .null => "null".toList
  | .bool true => "true".toList
  | .bool false => "false".toList
  | .int n => (toString n).toList
  | .float x => (Decimal.text Json.floatWords x).toList
  | .str s => quoted s
  | .list [] => ['[', ']']
  | .list (v :: vs) => '[' :: chars v ++ restOfList vs
  | .object [] => ['{', '}']
  | .object ((k, v) :: ms) => '{' :: quoted k ++ ':' :: chars v ++ restOfObject ms

def restOfList : List Value → List Char
  | [] => [']']
  | v :: vs => ',' :: chars v ++ restOfList vs

def restOfObject : List (String × Value) → List Char
  | [] => ['}']
  | (k, v) :: ms => ',' :: quoted k ++ ':' :: chars v ++ restOfObject ms

end

def textOf (document : List (String × Value)) : String := String.ofList (chars (.object document))

/-- The text of an export with this index. -/
def text (index : List (String × Value)) : String := textOf (members index)

/-- A document whose text is read as that document. -/
def Rereads (document : List (String × Value)) : Prop :=
  (Json.document (chars (.object document))).toOption.any (·.same (.object document)) = true
deriving Decidable

theorem parse_textOf {document : List (String × Value)} (h : Rereads document) :
    Json.parse (textOf document) = .ok (.object document) :=
  Json.parse_eq_ok ⟨_, rfl, h⟩

/-- From the text of a document, the export of that document is read. -/
theorem read_textOf {document : List (String × Value)} {x : Export} (h : Rereads document)
    (hread : Export.ofDocument (.object document) = .ok x) :
    Export.parse (textOf document) = .ok x := by
  rw [Export.parse, parse_textOf h]
  exact hread

end CrateBook.Sample
