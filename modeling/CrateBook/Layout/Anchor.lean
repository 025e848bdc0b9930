import CrateBook.Markdown

/-!
# Anchors of members

A member's anchor is made of its owner's anchor, the trait that it belongs to, a word for
its kind, and its name.
-/
namespace CrateBook.Layout

/-- The words for the kinds of members. -/
def memberPrefixes : List (String × String) :=
  [("struct_field", "field"), ("variant", "variant"), ("function", "method"),
   ("assoc_const", "const"), ("assoc_type", "type")]

/-- The anchor of a member on its owner's page. -/
def memberAnchor (owner : Option String) (kind name : String) (scope : Option String) :
    String :=
  let word := (memberPrefixes.lookup kind).getD kind
  let parts := [owner.getD "", scope.getD "", word, name].filter fun p => !p.isEmpty
  Markdown.headerSlug ("-".intercalate parts)

/-- The part of an anchor that keeps the members of different traits apart. -/
def implScope (traitName : String) : String := "impl-" ++ traitName

end CrateBook.Layout
