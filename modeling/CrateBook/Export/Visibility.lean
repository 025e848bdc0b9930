import CrateBook.Json.Access

/-!
# Visibility

How far an item can be seen, as its declaration says it.
-/
namespace CrateBook

/-- The declared visibility of an item. -/
inductive Visibility where
  | pub
  | default
  | crate
  | restricted (path : Option String)
deriving DecidableEq, Repr, Inhabited

namespace Visibility

def kind : Visibility → String
  | pub => "public"
  | default => "default"
  | crate => "crate"
  | restricted _ => "restricted"

def path : Visibility → Option String
  | restricted p => p
  | _ => none

def isPublic : Visibility → Bool
  | pub => true
  | _ => false

/-- The keyword in front of a declaration, with a space behind it. -/
def keyword : Visibility → String
  | pub => "pub "
  | crate => "pub(crate) "
  | restricted (some p) => if p.isEmpty then "" else "pub(in " ++ p ++ ") "
  | _ => ""

/-- The visibility that an export's value gives; the default where it gives none. -/
def ofValue : Value → Visibility
  | .str "public" => pub
  | .str "crate" => crate
  | .object ms =>
    match ms.lookup "restricted" with
    | some (.object r) => restricted (((r.lookup "path").getD .null).text?)
    | some _ => restricted none
    | none => default
  | _ => default

end Visibility

end CrateBook
