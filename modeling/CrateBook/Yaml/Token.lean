/-!
# Tokens of YAML

The pieces that a YAML text is cut into. Where a block of entries starts and ends is told
by its indentation alone, and a mapping key by the colon that follows it; both are tokens
of their own, so that the tokens of a text form a context-free language.
-/
namespace CrateBook.Yaml

/-- Why a text cannot be read: it is not well formed, or a scalar has no value of the kind
that its tag names. -/
inductive ReadFault where
  | malformed
  /-- A tag asks for a number or time that the scalar does not write. -/
  | notANumber
  /-- A tag asks for a truth value that the scalar does not name. -/
  | noSuchWord
  /-- A tag asks for a time, and the scalar has not the form of one. -/
  | notATime
  /-- A tag asks for a number, and the scalar is empty. -/
  | noDigits
  /-- A number is out of all bounds. -/
  | unbounded
  /-- A tag asks for a time, and the node is a mapping. -/
  | wrongKind
  /-- Nodes are nested too deep, or a scalar stands for itself. -/
  | tooDeep
deriving DecidableEq, Repr

/-- A piece of a YAML text. -/
inductive Token where
  | version (major minor : Nat)
  | tagHandle (handle front : String)
  | directive
  | documentStart
  | documentEnd
  | blockSequence
  | blockMapping
  | blockEnd
  | flowSequence
  | flowSequenceEnd
  | flowMapping
  | flowMappingEnd
  | flowEntry
  | entry
  | key
  | value
  | alias_ (name : String)
  | anchor (name : String)
  | tag (handle : Option String) (suffix : String)
  | scalar (text : String) (isPlain : Bool)
deriving DecidableEq, Repr

end CrateBook.Yaml
