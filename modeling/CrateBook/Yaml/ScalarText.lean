import CrateBook.Yaml.Cursor

/-!
# Scalars in a YAML text

How the text of a scalar is read in its three forms: plain, between quotes, and as a block.
A single line break within a plain or quoted scalar reads as a space, and further ones as
line feeds. A literal block keeps its breaks; a folded one joins lines that start with no
blank.
-/
namespace CrateBook.Yaml

/-! ## Plain scalars -/

/-- The part of a plain scalar up to the next gap or indicator. -/
def plainChunk (inFlow : Bool) : List Char → List Char
  | [] => []
  | ch :: rest =>
    let closes := match rest with
      | [] => true
      | d :: _ => isGap d || (inFlow && ",[]\x7b\x7d".toList.contains d)
    if isGap ch || (ch == ':' && closes) || (inFlow && ",?[]\x7b\x7d".toList.contains ch) then []
    else ch :: plainChunk inFlow rest

/-- The breaks and blanks at the start of a line, and the cursor behind them; none where a
marker between documents follows a break. -/
def breaksAndSpaces : Nat → List Char → Cursor → Option (List Char) × Cursor
  | 0, breaks, c => (some breaks, c)
  | n + 1, breaks, c =>
    if c.sees isSpace then breaksAndSpaces n breaks c.advance
    else if c.sees isBreak then
      let (b, c) := c.lineBreak
      if c.atMarker then (none, c) else breaksAndSpaces n (breaks ++ b) c
    else (some breaks, c)

/-- A break and further ones, as they read in a scalar that folds them. -/
def foldedBreaks (first more : List Char) : List Char :=
  if first != ['\n'] then first ++ more
  else if more.isEmpty then [' ']
  else more

/-- What stands between two parts of a plain scalar, and whether it crosses a line. -/
def plainGap (c : Cursor) : List Char × Bool × Cursor :=
  let (blanks, c) := c.takeWhile isSpace
  if c.sees isBreak then
    let (first, c) := c.lineBreak
    if c.atMarker then ([], true, c)
    else match breaksAndSpaces c.rest.length [] c with
      | (none, c) => ([], true, c)
      | (some more, c) => (foldedBreaks first more, true, c)
  else (blanks, false, c)

/-- A plain scalar at a cursor, and whether a line was crossed behind its last part. -/
def plainFrom (inFlow : Bool) (indent : Int) :
    Nat → List Char → List Char → Bool → Cursor → List Char × Bool × Cursor
  | 0, _, text, crossed, c => (text, crossed, c)
  | n + 1, gap, text, crossed, c =>
    let chunk := plainChunk inFlow c.rest
    if c.sees (· == '#') || chunk.isEmpty then (text, crossed, c)
    else
      let text := text ++ gap ++ chunk
      let (gap, crossed, c) := plainGap (c.advanceBy chunk.length)
      if gap.isEmpty || c.sees (· == '#') || (!inFlow && c.column < indent) then
        (text, crossed, c)
      else plainFrom inFlow indent n gap text crossed c

/-- A plain scalar inside a block of the given indentation. -/
def plainScalar (inFlow : Bool) (indent : Int) (c : Cursor) : List Char × Bool × Cursor :=
  plainFrom inFlow (indent + 1) (c.rest.length + 1) [] [] false c

/-! ## Quoted scalars -/

/-- The characters that escapes of one letter stand for. -/
def escapedLetters : List (Char × Char) :=
  [('0', '\x00'), ('a', '\x07'), ('b', '\x08'), ('t', '\t'), ('\t', '\t'), ('n', '\n'),
   ('v', '\x0b'), ('f', '\x0c'), ('r', '\r'), ('e', '\x1b'), (' ', ' '), ('"', '"'),
   ('\\', '\\'), ('/', '/'), ('N', '\x85'), ('_', '\xa0'), ('L', '\u2028'), ('P', '\u2029')]

/-- How many digits follow the letter of a numeric escape. -/
def escapeWidths : List (Char × Nat) := [('x', 2), ('u', 4), ('U', 8)]

def isHexDigit (c : Char) : Bool :=
  c.isDigit || ('a' ≤ c && c ≤ 'f') || ('A' ≤ c && c ≤ 'F')

/-- The value of a digit to base sixteen. -/
def hexDigit (c : Char) : Nat :=
  if c.isDigit then c.toNat - 48
  else if 'a' ≤ c then c.toNat - 87
  else c.toNat - 55

/-- The number that hexadecimal digits write. -/
def hexNumber (cs : List Char) : Nat := cs.foldl (fun n c => 16 * n + hexDigit c) 0

/-- The number of so many hexadecimal digits at the start of a text. -/
def hexAt? (width : Nat) (cs : List Char) : Option Nat :=
  let ds := cs.take width
  if ds.length = width ∧ ds.all isHexDigit then some (hexNumber ds) else none

/-- The low half of a pair of sixteen-bit units, behind an escape of the high one. -/
def lowHalf? : List Char → Option Nat
  | '\\' :: 'u' :: rest =>
    (hexAt? 4 rest).filter fun n => 0xDC00 ≤ n && n < 0xE000
  | _ => none

/-- The character of a number. -/
def charOf (n : Nat) : Except ReadFault Char :=
  if 0x7FFFFFFF < n then .error .unbounded
  else if 0x10FFFF < n then .error .notANumber
  else if 0xD800 ≤ n ∧ n < 0xE000 then .ok '\uFFFD'
  else .ok (Char.ofNat n)

/-- A numeric escape behind its letter. Two escapes of halves make one character. -/
def numericEscape (width : Nat) (c : Cursor) : Except ReadFault (Char × Cursor) :=
  match hexAt? width c.rest with
  | none => .error .malformed
  | some n =>
    match if 0xD800 ≤ n ∧ n < 0xDC00 then lowHalf? (c.rest.drop width) else none with
    | some low =>
      .ok (Char.ofNat (0x10000 + (n - 0xD800) * 1024 + (low - 0xDC00)), c.advanceBy (width + 6))
    | none => do
      let ch ← charOf n
      return (ch, c.advanceBy width)

/-- The breaks behind a break in a quoted scalar, with the blanks around them. -/
def quotedBreaks : Nat → List Char → Cursor → Except ReadFault (List Char × Cursor)
  | 0, breaks, c => .ok (breaks, c)
  | n + 1, breaks, c =>
    if c.atMarker then .error .malformed
    else
      let c := c.skipWhile fun ch => ch == ' ' || ch == '\t'
      if c.sees isBreak then
        let (b, c) := c.lineBreak
        quotedBreaks n (breaks ++ b) c
      else .ok (breaks, c)

/-- The blanks or breaks at the cursor in a quoted scalar, as they read. -/
def quotedGap (c : Cursor) : Except ReadFault (List Char × Cursor) :=
  let (blanks, c) := c.takeWhile fun ch => ch == ' ' || ch == '\t'
  if c.atEnd then .error .malformed
  else if c.sees isBreak then do
    let (first, c) := c.lineBreak
    let (more, c) ← quotedBreaks (c.rest.length + 1) [] c
    return (foldedBreaks first more, c)
  else .ok (blanks, c)

/-- An escape behind its backslash. -/
def escapeAt (c : Cursor) : Except ReadFault (List Char × Cursor) :=
  match c.rest with
  | [] => .error .malformed
  | ch :: _ =>
    match escapedLetters.lookup ch with
    | some d => .ok ([d], c.advance)
    | none =>
      match escapeWidths.lookup ch with
      | some width => do
        let (d, c) ← numericEscape width c.advance
        return ([d], c)
      | none =>
        if isBreak ch then
          let (_, c) := c.lineBreak
          quotedBreaks (c.rest.length + 1) [] c
        else .error .malformed

def isSpaceOrBreak (c : Char) : Bool := c == ' ' || c == '\t' || isBreak c

/-- The character stands for itself in both kinds of quotes. -/
def isQuotedChar (c : Char) : Bool := !(c == '\'' || c == '"' || c == '\\' || isSpaceOrBreak c)

/-- A quoted scalar behind its opening quote. -/
def quotedFrom (isDouble : Bool) :
    Nat → List Char → Cursor → Except ReadFault (List Char × Cursor)
  | 0, _, _ => .error .malformed
  | n + 1, text, c =>
    match c.rest with
    | [] => .error .malformed
    | ch :: rest =>
      if isSpaceOrBreak ch then do
        let (gap, c) ← quotedGap c
        quotedFrom isDouble n (text ++ gap) c
      else if !isDouble && ch == '\'' then
        if rest.head? == some '\'' then quotedFrom isDouble n (text ++ ['\'']) (c.advanceBy 2)
        else .ok (text, c.advance)
      else if isDouble && ch == '"' then .ok (text, c.advance)
      else if isDouble && ch == '\\' then do
        let (cs, c) ← escapeAt c.advance
        quotedFrom isDouble n (text ++ cs) c
      else
        let (cs, next) := c.advance.takeWhile isQuotedChar
        quotedFrom isDouble n (text ++ ch :: cs) next

def quotedScalar (isDouble : Bool) (c : Cursor) : Except ReadFault (List Char × Cursor) :=
  quotedFrom isDouble (c.rest.length + 1) [] c.advance

/-! ## Block scalars -/

/-- What becomes of the breaks at the end of a block scalar. -/
inductive Chomping where
  | strip
  | clip
  | keep
deriving DecidableEq, Repr

/-- The sign of a chomping. -/
def chomping? : Char → Option Chomping
  | '+' => some .keep
  | '-' => some .strip
  | _ => none

/-- A digit that says how deep a block is indented; a zero says nothing. -/
def increment? (ch : Char) : Option (Except ReadFault Nat) :=
  if ch == '0' then some (.error .malformed)
  else if '1' ≤ ch ∧ ch ≤ '9' then some (.ok (ch.toNat - 48))
  else none

/-- The indicators behind the sign of a block scalar, in either order. -/
def blockIndicators (c : Cursor) : Except ReadFault ((Chomping × Option Nat) × Cursor) := do
  let sign (c : Cursor) : Option Chomping × Cursor :=
    match c.peek?.bind chomping? with
    | some s => (some s, c.advance)
    | none => (none, c)
  let depth (c : Cursor) : Except ReadFault (Option Nat × Cursor) :=
    match c.peek?.bind increment? with
    | some d => do return (some (← d), c.advance)
    | none => .ok (none, c)
  let (before, c) := sign c
  let (increment, c) ← depth c
  let (behind, c) := if before.isNone && increment.isSome then sign c else (none, c)
  if c.sees fun ch => !(ch == ' ' || isBreak ch) then .error .malformed
  else return ((((before.orElse fun _ => behind).getD .clip), increment), c)

/-- The breaks in front of a block whose depth is not given, and the deepest indentation. -/
def blockDepth : Nat → List Char → Nat → Cursor → List Char × Nat × Cursor
  | 0, breaks, depth, c => (breaks, depth, c)
  | n + 1, breaks, depth, c =>
    if c.sees isBreak then
      let (b, c) := c.lineBreak
      blockDepth n (breaks ++ b) depth c
    else if c.sees isSpace then
      let c := c.advance
      blockDepth n breaks (max depth c.column) c
    else (breaks, depth, c)

/-- The cursor behind the indentation of a line, as deep as the block at most. -/
def skipIndent (indent : Nat) (c : Cursor) : Cursor :=
  c.advanceBy ((c.rest.take (indent - c.column)).takeWhile isSpace).length

/-- The empty lines in front of a line of a block. -/
def blockBreaks (indent : Nat) : Nat → List Char → Cursor → List Char × Cursor
  | 0, breaks, c => (breaks, c)
  | n + 1, breaks, c =>
    let c := skipIndent indent c
    if c.sees isBreak then
      let (b, c) := c.lineBreak
      blockBreaks indent n (breaks ++ b) c
    else (breaks, c)

def startsBlank (c : Cursor) : Bool := c.sees fun ch => ch == ' ' || ch == '\t'

/-- The lines of a block: its text, the last break, the empty lines behind it. -/
def blockLines (folded : Bool) (indent : Nat) :
    Nat → List Char → List Char → List Char → Cursor →
      List Char × List Char × List Char × Cursor
  | 0, text, last, breaks, c => (text, last, breaks, c)
  | n + 1, text, last, breaks, c =>
    if c.column = indent ∧ !c.atEnd then
      let blank := startsBlank c
      let (line, c) := c.takeWhile fun ch => !isBreak ch
      let text := text ++ breaks ++ line
      let (last, c) := c.lineBreak
      let (breaks, c) := blockBreaks indent (c.rest.length + 1) [] c
      if c.column = indent ∧ !c.atEnd then
        if folded && last == ['\n'] && !blank && !startsBlank c then
          blockLines folded indent n (if breaks.isEmpty then text ++ [' '] else text) last breaks c
        else blockLines folded indent n (text ++ last) last breaks c
      else (text, last, breaks, c)
    else (text, last, breaks, c)

/-- A block scalar at its sign, inside a block of the given indentation. -/
def blockScalar (folded : Bool) (outer : Int) (c : Cursor) :
    Except ReadFault (List Char × Cursor) := do
  let ((chomping, increment), c) ← blockIndicators c.advance
  let c ← c.finishLine
  let least := (max (outer + 1) 1).toNat
  let (indent, breaks, c) :=
    match increment with
    | none =>
      let (breaks, depth, c) := blockDepth c.rest.length [] 0 c
      (max least depth, breaks, c)
    | some d =>
      let indent := least + d - 1
      let (breaks, c) := blockBreaks indent (c.rest.length + 1) [] c
      (indent, breaks, c)
  let (text, last, breaks, c) := blockLines folded indent (c.rest.length + 1) [] [] breaks c
  let text := if chomping = .strip then text else text ++ last
  return (if chomping = .keep then text ++ breaks else text, c)

end CrateBook.Yaml
