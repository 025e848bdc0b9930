import CrateBook.Json.Access

/-!
# Item ids

An id is a text; exports write it as a text or as a number. Ids are ordered by number where
they are digits, and come before all other ids, which are ordered as texts.
-/
namespace CrateBook

/-- The id of an item, without blanks around it and never empty. -/
abbrev Id := String

/-- The id that a value gives, if it gives one. -/
def Id.ofValue? : Value → Option Id
  | .int n => some (toString n)
  | .str s => let t := Text.trim s; if t.isEmpty then none else some t
  | _ => none

/-- What ids are ordered by. -/
inductive IdKey where
  | number (n : Int)
  | text (s : String)
deriving DecidableEq

def IdKey.le : IdKey → IdKey → Bool
  | number m, number n => m ≤ n
  | number _, text _ => true
  | text _, number _ => false
  | text s, text t => s ≤ t

/-- The key of an id. An id of digits that make up no number has none. -/
def Id.key? (id : Id) : Option IdKey :=
  if Text.isDigits id then (Text.readInt? id).map .number else some (.text id)

/-- The key of an id, its text where it has none. -/
def Id.key (id : Id) : IdKey := (Id.key? id).getD (.text id)

/-- Ids can only be ordered if each of them has a key. -/
def Id.checkKeys (ids : List Id) : Checked Unit :=
  if ids.all fun i => (Id.key? i).isSome then .ok () else .error .notANumber

/-- Sorts by the order of ids; what has one id keeps its order. -/
def sortById {α : Type} (id : α → Id) (xs : List α) : List α :=
  xs.mergeSort fun a b => (id a).key.le (id b).key

end CrateBook
