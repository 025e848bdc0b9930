import CrateBook.Export.Item
import CrateBook.Table

/-!
# The index of an export

The items of a package under their ids, what the export tells about items of other
packages, and which item each member belongs to.
-/
namespace CrateBook

/-- A package that the export refers to. -/
structure ExternalPackage where
  name : String
  htmlRoot : Option String

/-- What an export tells about an item that is not among its own. -/
structure Summary where
  id : Id
  crateId : Int
  crateName : String
  path : List String
  kind : String

/-- The last name of a summary's path. -/
def Summary.name (s : Summary) : String := s.path.getLastD s.id

/-- The package that an export documents. -/
structure Package where
  name : String
  version : Value
  rootId : Id
  includesPrivate : Bool
  formatVersion : Int
  externalPackages : Table Int ExternalPackage := .empty

/-- The items of an export; each one stands under its own id. -/
structure Items where
  table : Table Id Item
  keyed : ∀ e ∈ table.entries, e.2.id = e.1

theorem mem_setEntry {κ α : Type} [DecidableEq κ] {k : κ} {v : α} {es : List (κ × α)}
    {e : κ × α} (h : e ∈ setEntry k v es) : e = (k, v) ∨ e ∈ es := by
  induction es with
  | nil => simpa [setEntry] using h
  | cons d ds ih =>
    by_cases hk : d.1 = k
    · simp only [setEntry, hk, if_true, List.mem_cons] at h
      rcases h with h | h <;> simp [h]
    · simp only [setEntry, hk, if_false, List.mem_cons] at h
      rcases h with h | h
      · simp [h]
      · rcases ih h with h | h <;> simp [h]

theorem mem_of_lookup_eq_some {κ α : Type} [DecidableEq κ] {k : κ} {v : α}
    {es : List (κ × α)} (h : es.lookup k = some v) : (k, v) ∈ es := by
  induction es with
  | nil => simp at h
  | cons e es ih =>
    obtain ⟨a, b⟩ := e
    by_cases hk : k = a
    · subst hk; simp at h; simp [h]
    · have hb : (k == a) = false := by simpa using hk
      simp [List.lookup_cons, hb] at h
      exact List.mem_cons_of_mem _ (ih h)

namespace Items

def empty : Items where
  table := .empty
  keyed := List.forall_mem_nil _

def get? (xs : Items) (id : Id) : Option Item := xs.table.get? id

def payload? (xs : Items) (id : Id) : Option Payload := (xs.get? id).map (·.payload)

def contains (xs : Items) (id : Id) : Bool := (xs.get? id).isSome

/-- The items in the order of the export. -/
def toList (xs : Items) : List Item := xs.table.values

/-- The ids in the order of the export. -/
def ids (xs : Items) : List Id := xs.table.keys

/-- Adds an item; it takes the place of one with the same id. -/
def insert (xs : Items) (x : Item) : Items where
  table := xs.table.insert x.id x
  keyed e he := by
    rcases mem_setEntry he with h | h
    · subst h; rfl
    · exact xs.keyed e h

/-- An item is found under its own id. -/
theorem id_of_get? {xs : Items} {id : Id} {x : Item} (h : xs.get? id = some x) :
    x.id = id := xs.keyed _ (mem_of_lookup_eq_some h)

theorem mem_ids_of_get? {xs : Items} {id : Id} {x : Item} (h : xs.get? id = some x) :
    id ∈ xs.ids := Table.mem_keys_iff.2 ⟨x, h⟩

@[simp] theorem get?_insert (xs : Items) (x : Item) (id : Id) :
    (xs.insert x).get? id = if id = x.id then some x else xs.get? id :=
  Table.get?_insert ..

end Items

/-- An export: its package and the tables that look-ups go through. -/
structure Export where
  package : Package
  items : Items
  external : Table Id Summary
  /-- The item on whose page a member is shown. -/
  owners : Table Id Id
  /-- The item that lists a member: a block, where the owner is the type it is for. -/
  containers : Table Id Id

namespace Export

/-- The item of an id that may be missing. -/
def find? (x : Export) (id : Option Id) : Option Item := id.bind x.items.get?

/-- The item that lists a member. -/
def container? (x : Export) (member : Id) : Option Item := x.find? (x.containers.get? member)

end Export

end CrateBook
