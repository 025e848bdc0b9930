import CrateBook.Json.Value

/-!
# Navigation

A navigation tree has a category for each module and an entry for each document. A category
goes by the path of its module.
-/
namespace CrateBook

/-- An entry of a navigation tree. -/
inductive Navigation where
  | category (label : String) (href : Option String) (collapsed : Bool)
      (modulePath : List String) (entries : List Navigation)
  | page (label href docId : String)

namespace Navigation

/-- The shown text. -/
def label : Navigation → String
  | category l _ _ _ _ => l
  | page l _ _ => l

def entries : Navigation → List Navigation
  | category _ _ _ _ es => es
  | page _ _ _ => []

def modulePath : Navigation → List String
  | category _ _ _ p _ => p
  | page _ _ _ => []

def isCategory : Navigation → Bool
  | category _ _ _ _ _ => true
  | page _ _ _ => false

mutual

/-- The entry and all entries below it, each before those below it. -/
def walk : Navigation → List Navigation
  | category l h c p es => category l h c p es :: walkAll es
  | page l h d => [page l h d]

/-- The entries of several trees, one tree after the other. -/
def walkAll : List Navigation → List Navigation
  | [] => []
  | n :: ns => n.walk ++ walkAll ns

end

/-- All categories, each before those below it. -/
def categories (n : Navigation) : List Navigation := n.walk.filter isCategory

/-- All entries of documents. -/
def pages (n : Navigation) : List Navigation := n.walk.filter fun m => !m.isCategory

/-- The category of the module at a path. -/
def subtree? (n : Navigation) (path : List String) : Option Navigation :=
  n.categories.find? fun c => c.modulePath == path

/-- The address of a category, if it has one. -/
def hrefEntry (href : Option String) : List (String × Value) :=
  match href with
  | some h => if h.isEmpty then [] else [("href", .str h)]
  | none => []

mutual

/-- The tree in the form that site generators read. -/
def toValue : Navigation → Value
  | category label href collapsed _ es =>
    .object ([("type", .str "category"), ("label", .str label), ("collapsed", .bool collapsed)] ++
      hrefEntry href ++ [("items", .list (toValues es))])
  | page label href docId =>
    .object [("type", .str "doc"), ("id", .str docId), ("label", .str label),
      ("href", .str href)]

/-- Several trees in the form that site generators read. -/
def toValues : List Navigation → List Value
  | [] => []
  | n :: ns => n.toValue :: toValues ns

end

end Navigation

end CrateBook
