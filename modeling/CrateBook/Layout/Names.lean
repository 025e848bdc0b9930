import CrateBook.Report
import CrateBook.Text.Letter

/-!
# Names without clashes

Items that share a directory or a page need names that differ, also in lower case. Names
that clash, with each other or with a reserved one, are qualified by kind; of those that
still agree all but the first get a number. Ids decide which one is first.
-/
namespace CrateBook.Layout

/-- An item that asks for a name: the plain one, or the qualified one if that clashes. -/
structure Request where
  id : Id
  base : String
  qualified : String
deriving DecidableEq, Repr

/-- Requests by the lower-case form of their plain names, in order of appearance. -/
def groupByBase (requests : List Request) : Table String (List Request) :=
  requests.foldl (fun t r => t.push (Text.lower r.base) r) .empty

/-- The plain name clashes with another one, or with a reserved one. -/
def clashes (reserved : List String) (requests : List Request) (r : Request) : Bool :=
  let key := Text.lower r.base
  1 < requests.countP (fun q => Text.lower q.base == key) || reserved.contains key

/-- The name of a request before numbers are added. -/
def firstName (reserved : List String) (requests : List Request) (r : Request) : String :=
  if clashes reserved requests r then r.qualified else r.base

/-- The names of requests behind others that are named already, in order. -/
def numbered (first : Request → String) (before : List Request) :
    List Request → List (Id × String)
  | [] => []
  | r :: rest =>
    let key := Text.lower (first r)
    let n := before.countP fun q => Text.lower (first q) == key
    (r.id, if n = 0 then first r else first r ++ "-" ++ toString (n + 1)) ::
      numbered first (r :: before) rest

/-- The clashes among requests, by plain name, with the names that settle them. -/
def collisionsOf (directory : String) (reserved : List String) (requests : List Request)
    (names : Table Id String) : List Collision :=
  let groups := (groupByBase requests).entries.mergeSort fun a b => a.1 ≤ b.1
  groups.filterMap fun g =>
    match g.2 with
    | [] => none
    | r :: _ =>
      if clashes reserved requests r then
        some ⟨directory, r.base,
          Table.ofList (g.2.map fun q => (q.id, (names.get? q.id).getD ""))⟩
      else none

/-- Gives every request a name; the second part lists the clashes. -/
def allocate (directory : String) (reserved : List String) (requests : List Request) :
    Checked (Table Id String × List Collision) := do
  Id.checkKeys (requests.map (·.id))
  let sorted := sortById (·.id) requests
  let names := Table.ofList (numbered (firstName reserved sorted) [] sorted)
  return (names, collisionsOf directory reserved sorted names)

end CrateBook.Layout
