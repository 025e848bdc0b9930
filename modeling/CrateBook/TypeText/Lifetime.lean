import CrateBook.Text.Blank
import CrateBook.Text.Digit
import CrateBook.Text.Lines

/-!
# Synthetic lifetimes

Lifetimes that the compiler or a code generator has made up are not shown.
-/
namespace CrateBook

/-- The name of a lifetime is elided or made up: an underscore with digits or without, the word
`life` with digits, or `async_trait`, behind an apostrophe. -/
def isSyntheticLifetime (name : String) : Bool :=
  match Text.dropAround Text.isBlank name.toList with
  | '\'' :: '_' :: ds => ds.all Text.isDecimal
  | '\'' :: 'l' :: 'i' :: 'f' :: 'e' :: ds => !ds.isEmpty && ds.all Text.isDecimal
  | '\'' :: cs => String.ofList cs == "async_trait"
  | _ => false

end CrateBook
