import CrateBook.Docs.Fence
import CrateBook.Note
import CrateBook.Text.Letter
import CrateBook.Text.Lines

/-!
# Links inside docs

Docs may link to items by path. A link whose destination is known gets the address of its
item, or is reduced to its text if the item has none. A definition of a label is treated
the same way; one that leads nowhere goes, and its references are reduced. Other links,
and everything inside fences, stay as they are.
-/
namespace CrateBook.Docs

/-- What links are resolved by: the id of each destination that the docs mention, and the
address of each id that has one, under a title. -/
structure Destinations where
  idOf : String → Option Id
  hrefOf : Id → String → Option String

/-- A label without blanks and backquotes around it. -/
def plainLabel (label : List Char) : String :=
  String.ofList (Text.dropAround (· == '\x60') (Text.dropAround Text.isBlank label))

/-- Where a destination leads. -/
inductive Resolution where
  /-- The destination is not one of the docs' items. -/
  | unknown
  /-- The destination is an item, with an address or without. -/
  | known (href : Option String)

/-- Looks up a destination under a label. -/
def Destinations.resolve (d : Destinations) (key label : List Char) :
    Resolution × List Note :=
  match d.idOf (String.ofList key) with
  | none => (.unknown, [])
  | some id =>
    let title := plainLabel label
    match d.hrefOf id title with
    | some href => (.known (some href), [.asked id title, .linked ⟨title, href⟩])
    | none => (.known none, [.asked id title])

/-- Characters that end the text of a link. -/
def isBracket (c : Char) : Bool := c == '[' || c == ']'

/-- A line that defines a label: what comes before the destination, the label, the
destination, and what comes behind it. -/
structure Definition where
  lead : List Char
  label : List Char
  dest : List Char
  rest : List Char

/-- The definition that a line makes, if it makes one. -/
def definition? (line : List Char) : Option Definition :=
  let indent := line.takeWhile Text.isBlank
  if 3 < indent.length then none
  else match line.dropWhile Text.isBlank with
    | '[' :: body =>
      let label := body.takeWhile (· != ']')
      match label, body.dropWhile (· != ']') with
      | _ :: _, ']' :: ':' :: more =>
        let gap := more.takeWhile Text.isBlank
        let behind := more.dropWhile Text.isBlank
        let dest := behind.takeWhile fun c => !Text.isBlank c
        let rest := behind.dropWhile fun c => !Text.isBlank c
        if dest.isEmpty || !endsLine rest then none
        else some ⟨indent ++ '[' :: label ++ ']' :: ':' :: gap, label, dest, rest⟩
      | _, _ => none
    | _ => none

/-- What follows the text of a link. -/
inductive LinkTail where
  | bare
  | dest (d : List Char)
  | label (l : List Char)

/-- The tail of a link as it was written. -/
def LinkTail.source : LinkTail → List Char
  | bare => []
  | dest d => '(' :: d ++ [')']
  | label l => '[' :: l ++ [']']

/-- Characters of a destination in parentheses. -/
def isDestChar (c : Char) : Bool := !(c == '(' || c == ')' || Text.isBlank c)

/-- The tail of a link, and the rest of the line. -/
def linkTail (cs : List Char) : LinkTail × List Char :=
  match cs with
  | '(' :: more =>
    match more.takeWhile isDestChar, more.dropWhile isDestChar with
    | c :: d, ')' :: rest => (.dest (c :: d), rest)
    | _, _ => (.bare, cs)
  | '[' :: more =>
    match more.dropWhile fun c => !isBracket c with
    | ']' :: rest => (.label (more.takeWhile fun c => !isBracket c), rest)
    | _ => (.bare, cs)
  | _ => (.bare, cs)

/-- The text of a link, its tail, and the rest of the line, read behind the bracket. -/
def link? (cs : List Char) : Option (List Char × LinkTail × List Char) :=
  match cs.takeWhile fun c => !isBracket c, cs.dropWhile fun c => !isBracket c with
  | c :: label, ']' :: more => some (c :: label, linkTail more)
  | _, _ => none

theorem length_linkTail_le (cs : List Char) : (linkTail cs).2.length ≤ cs.length := by
  have drop_le (p : Char → Bool) (l r : List Char) (c : Char)
      (h : l.dropWhile p = c :: r) : r.length ≤ l.length := by
    have := (List.dropWhile_suffix p (l := l)).length_le
    rw [h] at this
    simp at this
    omega
  unfold linkTail
  split
  · split
    · next h => simpa using Nat.le_succ_of_le (drop_le _ _ _ _ h)
    · simp
  · split
    · next h => simpa using Nat.le_succ_of_le (drop_le _ _ _ _ h)
    · simp
  · simp

theorem length_link?_lt {cs label rest : List Char} {tail : LinkTail}
    (h : link? cs = some (label, tail, rest)) : rest.length < cs.length := by
  unfold link? at h
  split at h
  · next c l more _ hd =>
    have h2 := length_linkTail_le more
    have h3 := (List.dropWhile_suffix (fun c => !isBracket c) (l := cs)).length_le
    rw [hd] at h3
    simp only [Option.some.injEq, Prod.mk.injEq] at h
    rw [h.2] at h2
    simp at h2 h3
    omega
  · simp at h

/-- The label is among dropped ones, whatever its case. -/
def isDropped (dropped : List String) (label : List Char) : Bool :=
  dropped.contains (Text.lower (String.ofList label))

def relinked (d : Destinations) (dropped : List String) (label : List Char)
    (tail : LinkTail) : List Char × List Note :=
  let source := '[' :: label ++ ']' :: tail.source
  let put (r : Resolution × List Note) : List Char × List Note :=
    match r.1 with
    | .unknown => (source, r.2)
    | .known href => ((Target.markdownLink (String.ofList label) href).toList, r.2)
  match tail with
  | .dest dest => put (d.resolve dest label)
  | .label l =>
    let key := if l.isEmpty then label else l
    if isDropped dropped key then (label, []) else put (d.resolve key label)
  | .bare => if isDropped dropped label then (label, []) else put (d.resolve label label)

/-- Resolves the links of a line, behind the character `before`. A bracket behind a
backslash or an exclamation mark opens no link. -/
def relinkLine (d : Destinations) (dropped : List String) (before : Char) :
    List Char → List Char × List Note
  | [] => ([], [])
  | c :: rest =>
    if c = '[' ∧ before ≠ '\\' ∧ before ≠ '!' then
      match _h : link? rest with
      | some (label, tail, after) =>
        let out := relinked d dropped label tail
        let more := relinkLine d dropped ']' after
        (out.1 ++ more.1, out.2 ++ more.2)
      | none =>
        let more := relinkLine d dropped c rest
        (c :: more.1, more.2)
    else
      let more := relinkLine d dropped c rest
      (c :: more.1, more.2)
termination_by cs => cs.length
decreasing_by
  · have := length_link?_lt _h; simp; omega
  · simp
  · simp

/-- Lines with their definitions resolved. -/
structure Defined where
  lines : List (List Char)
  /-- The labels, in lower case, whose definitions lead nowhere. -/
  dropped : List String
  notes : List Note

/-- Resolves the definition that a line outside fences makes. -/
def defineLine (d : Destinations) (line : List Char) : List Char × List String × List Note :=
  match definition? line with
  | none => (line, [], [])
  | some def_ =>
    match d.resolve def_.dest def_.label with
    | (.unknown, notes) => (line, [], notes)
    | (.known (some href), notes) => (def_.lead ++ href.toList ++ def_.rest, [], notes)
    | (.known none, notes) => ([], [Text.lower (String.ofList def_.label)], notes)

/-- Resolves the definitions outside fences. -/
def defineLines (d : Destinations) (fence : Option (List Char)) :
    List (List Char) → Defined
  | [] => ⟨[], [], []⟩
  | l :: ls =>
    let role := roleOf fence l
    let more := defineLines d (fenceAfter fence role) ls
    if role.isProse then
      let (line, dropped, notes) := defineLine d l
      ⟨line :: more.lines, dropped ++ more.dropped, notes ++ more.notes⟩
    else ⟨l :: more.lines, more.dropped, more.notes⟩

/-- Resolves the links of a line outside fences; a definition stays. -/
def linkLine (d : Destinations) (dropped : List String) (line : List Char) :
    List Char × List Note :=
  if (definition? line).isSome then (line, []) else relinkLine d dropped ' ' line

/-- Resolves the links outside fences. -/
def linkLines (d : Destinations) (dropped : List String) (fence : Option (List Char)) :
    List (List Char) → List (List Char) × List Note
  | [] => ([], [])
  | l :: ls =>
    let role := roleOf fence l
    let more := linkLines d dropped (fenceAfter fence role) ls
    if role.isProse then
      let out := linkLine d dropped l
      (out.1 :: more.1, out.2 ++ more.2)
    else (l :: more.1, more.2)

/-- Resolves the links of several lines, definitions first. -/
def relinkLines (d : Destinations) (ls : List (List Char)) : List (List Char) × List Note :=
  let defined := defineLines d none ls
  let linked := linkLines d defined.dropped none defined.lines
  (linked.1, defined.notes ++ linked.2)

/-- Resolves the links of a text; `links` gives the id of each destination, and `hrefOf` the
address of an id under a title. -/
def relinkBy (links : List (String × Id)) (hrefOf : Id → String → Option String)
    (text : String) : String × List Note :=
  if text.isEmpty || links.isEmpty then (text, [])
  else
    let out := relinkLines ⟨fun k => links.lookup k, hrefOf⟩ (Text.splitLines text.toList)
    (String.ofList (joinLines out.1), out.2)

/-- Resolves the links of a text, where titles have no say in addresses. -/
def relink (links : List (String × Id)) (hrefOf : Id → Option String) (text : String) :
    String × List Note := relinkBy links (fun id _ => hrefOf id) text

end CrateBook.Docs
