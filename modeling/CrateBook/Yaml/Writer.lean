import CrateBook.Json.Value
import CrateBook.Yaml.Character
import CrateBook.Yaml.Scalar

/-!
# Writing YAML

Mappings and sequences are written as blocks, a sequence under a key at the key's own
indentation. A text is plain where that is read back as the same text, else between single
quotes, else between double quotes with escapes. Lines are folded at a space once they are
wider than eighty characters.
-/
namespace CrateBook.Yaml

/-- The width beyond which a line is folded. -/
def lineWidth : Nat := 80

/-- The longest key, with five characters for its tag, that stands on one line with its
value. -/
def maxKeyLength : Nat := 122

/-- Characters that only an escape can write. -/
def isSpecial (c : Char) : Bool :=
  let n := c.toNat
  !(c == '\n' || (0x20 ≤ n && n ≤ 0x7E) || n == 0x85 || (0xA0 ≤ n && n ≤ 0xD7FF) ||
    (0xE000 ≤ n && n ≤ 0xFFFD) || (0x10000 ≤ n && n < 0x10FFFF)) || n == 0xFEFF

/-- An indicator stands at the start of the text. -/
def startsWithIndicator : List Char → Bool
  | [] => false
  | c :: rest =>
    let gap := match rest with
      | [] => true
      | d :: _ => isGap d
    "#,[]\x7b\x7d&*!|>'\"%@\x60".toList.contains c ||
      ((c == '?' || c == ':' || c == '-') && gap)

/-- An indicator stands behind the first character. `before` is the character before. -/
def holdsIndicator (before : Char) : List Char → Bool
  | [] => false
  | c :: rest =>
    let gap := match rest with
      | [] => true
      | d :: _ => isGap d
    (c == ':' && gap) || (c == '#' && isGap before) || holdsIndicator c rest

/-- A plain form of the text would be taken for structure. -/
def hasIndicator (cs : List Char) : Bool :=
  "---".toList.isPrefixOf cs || "...".toList.isPrefixOf cs || startsWithIndicator cs ||
    match cs with
    | [] => false
    | c :: rest => holdsIndicator c rest

/-- A character of the first kind comes right before one of the second. -/
def hasPair (p q : Char → Bool) : List Char → Bool
  | a :: b :: rest => (p a && q b) || hasPair p q (b :: rest)
  | _ => false

def isMultiline (cs : List Char) : Bool := cs.any isBreak

/-- How a scalar is written. -/
inductive Quoting where
  | plain
  | single
  | double
deriving DecidableEq, Repr

/-- The text may be written plain, whatever it would be read as. -/
def allowsPlain (cs : List Char) : Bool :=
  let ends (o : Option Char) := o.any fun c => isSpace c || isBreak c
  !(ends cs.head? || ends cs.getLast? || isMultiline cs || cs.any isSpecial || hasIndicator cs)

/-- The text may stand between single quotes. -/
def allowsSingle (cs : List Char) : Bool :=
  !(hasPair isBreak isSpace cs || hasPair isSpace isBreak cs || cs.any isSpecial)

/-- How a text is written, as a key on one line with its value or elsewhere. -/
def quotingFor (isKey : Bool) (s : String) : Quoting :=
  let cs := s.toList
  if kindOf s == .text && !(isKey && (cs.isEmpty || isMultiline cs)) && allowsPlain cs then
    .plain
  else if allowsSingle cs && !(isKey && isMultiline cs) then .single
  else .double

/-- A line feed and the blanks of an indentation. -/
def newline (indent : Nat) : List Char := '\n' :: List.replicate indent ' '

/-- A plain text from a column on; a single space may become a line break. `spaces` counts
the spaces that wait to be written. -/
def plainText (fold : Bool) (indent : Nat) : Nat → Nat → List Char → List Char
  | _, spaces, [] => List.replicate spaces ' '
  | column, spaces, c :: rest =>
    if c = ' ' then plainText fold indent column (spaces + 1) rest
    else if spaces = 1 ∧ lineWidth < column ∧ fold = true then
      newline indent ++ c :: plainText fold indent (indent + 1) 0 rest
    else
      List.replicate spaces ' ' ++
        c :: plainText fold indent (column + spaces + 1) 0 rest

/-- A run of line breaks between single quotes: one line feed more than the text has, where
the run starts with one, and the indentation of the line that follows. -/
def singleBreaks (indent : Nat) (breaks : List Char) : List Char :=
  (if breaks.head? = some '\n' then ['\n'] else []) ++ breaks ++ List.replicate indent ' '

/-- The text between single quotes, from a column on. `spaces` counts the spaces and
`breaks` holds the line breaks that wait to be written; `first` tells that nothing of the
text is written yet. -/
def singleText (fold : Bool) (indent : Nat) :
    Bool → Nat → Nat → List Char → List Char → List Char
  | _, _, spaces, breaks, [] =>
    if breaks.isEmpty then List.replicate spaces ' ' else singleBreaks indent breaks
  | first, column, spaces, breaks, c :: rest =>
    if isBreak c then
      List.replicate spaces ' ' ++
        singleText fold indent false (column + spaces) 0 (breaks ++ [c]) rest
    else
      let (lead, column) :=
        if breaks.isEmpty then ([], column) else (singleBreaks indent breaks, indent)
      if c = ' ' then
        lead ++ singleText fold indent (first && breaks.isEmpty) column (spaces + 1) [] rest
      else
        let out := if c = '\'' then ['\'', '\''] else [c]
        if spaces = 1 ∧ lineWidth < column ∧ fold = true ∧ first = false then
          lead ++ newline indent ++ out ++
            singleText fold indent false (indent + out.length) 0 [] rest
        else
          lead ++ List.replicate spaces ' ' ++ out ++
            singleText fold indent false (column + spaces + out.length) 0 [] rest

/-- The letter of an escape that has one. -/
def escapeLetters : List (Char × Char) :=
  [('\x00', '0'), ('\x07', 'a'), ('\x08', 'b'), ('\t', 't'), ('\n', 'n'), ('\x0b', 'v'),
   ('\x0c', 'f'), ('\r', 'r'), ('\x1b', 'e'), ('"', '"'), ('\\', '\\'), ('\x85', 'N'),
   ('\xa0', '_'), ('\u2028', 'L'), ('\u2029', 'P')]

/-- A text between double quotes shows the character as itself. -/
def isDirect (c : Char) : Bool :=
  let n := c.toNat
  ((0x20 ≤ n && n ≤ 0x7E) || (0xA0 ≤ n && n ≤ 0xD7FF) || (0xE000 ≤ n && n ≤ 0xFFFD)) &&
    !(c == '"' || c == '\\' || c == '\u2028' || c == '\u2029' || n == 0xFEFF)

/-- A hexadecimal number of a fixed width, in capital letters. -/
def hexUpper (width n : Nat) : List Char :=
  let ds := (Nat.toDigits 16 n).map Char.toUpper
  List.replicate (width - ds.length) '0' ++ ds

/-- One character between double quotes, as an escape. -/
def escape (c : Char) : List Char :=
  match escapeLetters.lookup c with
  | some l => ['\\', l]
  | none =>
    let n := c.toNat
    if n ≤ 0xFF then '\\' :: 'x' :: hexUpper 2 n
    else if n ≤ 0xFFFF then '\\' :: 'u' :: hexUpper 4 n
    else '\\' :: 'U' :: hexUpper 8 n

/-- The text between double quotes, from a column on. A line may be folded before a space,
behind an escape, and before the character that follows an escape, but neither at the first
nor at the last character. `fresh` tells that an escape was written last. -/
def doubleText (fold : Bool) (indent : Nat) : Bool → Bool → Nat → List Char → List Char
  | _, _, _, [] => []
  | first, fresh, column, c :: rest =>
    let mayFold := fold && !first && !rest.isEmpty
    if isDirect c then
      if mayFold && (c == ' ' || fresh) && lineWidth < column then
        let out := if c = ' ' then ['\\', ' '] else [c]
        '\\' :: newline indent ++ out ++
          doubleText fold indent false false (indent + out.length) rest
      else c :: doubleText fold indent false false (column + 1) rest
    else
      let out := escape c
      if mayFold && lineWidth + 1 < column + out.length then
        let lead := if rest.head? = some ' ' then ['\\'] else []
        out ++ '\\' :: newline indent ++ lead ++
          doubleText fold indent false true (indent + lead.length) rest
      else out ++ doubleText fold indent false true (column + out.length) rest

/-- A text from a column on; lines that follow are indented. -/
def scalarText (isKey : Bool) (indent column : Nat) (s : String) : List Char :=
  let cs := s.toList
  match quotingFor isKey s with
  | .plain => plainText (!isKey) indent column 0 cs
  | .single => '\'' :: singleText (!isKey) indent true (column + 1) 0 [] cs ++ ['\'']
  | .double => '"' :: doubleText (!isKey) indent true false (column + 1) cs ++ ['"']

/-- A key may stand on one line with its value. -/
def isSimpleKey (k : String) : Bool :=
  !k.isEmpty && !isMultiline k.toList && k.length ≤ maxKeyLength

/-- A number, always with a point: the digits `1e+100` alone would be read as a text. -/
def floatText (x : Float) : List Char :=
  let cs := (Decimal.text ⟨".nan", ".inf"⟩ x).toList
  if cs.contains '.' then cs
  else cs.takeWhile (· ≠ 'e') ++ '.' :: '0' :: cs.dropWhile (· ≠ 'e')

mutual

/-- A value on the line of a dash, a colon or a question mark, its own lines at an
indentation. -/
def inline (indent : Nat) : Value → List Char
  | .null => "null".toList
  | .bool true => "true".toList
  | .bool false => "false".toList
  | .int n => (toString n).toList
  | .float x => floatText x
  | .str s => scalarText false indent indent s
  | .list [] => "[]".toList
  | .list (v :: vs) => '-' :: ' ' :: inline (indent + 2) v ++ items indent vs
  | .object [] => "\x7b\x7d".toList
  | .object ((k, v) :: ms) => entry indent k v ++ entries indent ms

/-- The items of a sequence behind the first one. -/
def items (indent : Nat) : List Value → List Char
  | [] => []
  | v :: vs => newline indent ++ '-' :: ' ' :: inline (indent + 2) v ++ items indent vs

/-- The entries of a mapping behind the first one. -/
def entries (indent : Nat) : List (String × Value) → List Char
  | [] => []
  | (k, v) :: ms => newline indent ++ entry indent k v ++ entries indent ms

def entry (indent : Nat) (k : String) : Value → List Char
  | .str s =>
    if isSimpleKey k then
      let key := scalarText true (indent + 2) indent k
      key ++ ':' :: ' ' :: scalarText false (indent + 2) (indent + key.length + 2) s
    else
      '?' :: ' ' :: scalarText false (indent + 2) (indent + 2) k ++ newline indent ++
        ':' :: ' ' :: scalarText false (indent + 2) (indent + 2) s
  | .list (v :: vs) =>
    if isSimpleKey k then
      scalarText true (indent + 2) indent k ++ ':' :: newline indent ++
        '-' :: ' ' :: inline (indent + 2) v ++ items indent vs
    else
      '?' :: ' ' :: scalarText false (indent + 2) (indent + 2) k ++ newline indent ++
        ':' :: ' ' :: '-' :: ' ' :: inline (indent + 4) v ++ items (indent + 2) vs
  | .object ((k', v) :: ms) =>
    if isSimpleKey k then
      scalarText true (indent + 2) indent k ++ ':' :: newline (indent + 2) ++
        entry (indent + 2) k' v ++ entries (indent + 2) ms
    else
      '?' :: ' ' :: scalarText false (indent + 2) (indent + 2) k ++ newline indent ++
        ':' :: ' ' :: entry (indent + 2) k' v ++ entries (indent + 2) ms
  | v =>
    if isSimpleKey k then
      scalarText true (indent + 2) indent k ++ ':' :: ' ' :: inline (indent + 2) v
    else
      '?' :: ' ' :: scalarText false (indent + 2) (indent + 2) k ++ newline indent ++
        ':' :: ' ' :: inline (indent + 2) v

end

/-- A value as a YAML document. -/
def render (v : Value) : String := String.ofList (inline 0 v ++ ['\n'])

/-- A document of one value under two plain keys. A list or a mapping is written once, under
an anchor, and the second key refers to it. -/
def renderTwice (k k' : String) (v : Value) : String :=
  let shared :=
    let written := (entry 0 k v).drop (k.length + 1)
    String.ofList (k.toList ++ ": &id001".toList ++ written ++
      newline 0 ++ k'.toList ++ ": *id001\n".toList)
  match v with
  | .list _ | .object _ => shared
  | _ => render (.object [(k, v), (k', v)])

end CrateBook.Yaml
