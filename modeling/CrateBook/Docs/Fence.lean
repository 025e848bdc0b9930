import CrateBook.Text.Blank

/-!
# Fenced code in docs

A line of three or more backquotes or tildes opens a fenced block; it ends at the next line
of the same sign that is at least as long, or at the end of the text.
-/
namespace CrateBook.Docs

/-- The marker of the fence at the start of a line, behind blanks. -/
def fenceMarker? (line : List Char) : Option (List Char) :=
  match line.dropWhile Text.isBlank with
  | [] => none
  | c :: rest =>
    if c = '\x60' ∨ c = '~' then
      let marker := c :: rest.takeWhile (· == c)
      if 3 ≤ marker.length then some marker else none
    else none

/-- What a line is to the fences around it. -/
inductive LineRole where
  | opening (marker : List Char)
  | code
  | closing
  | prose

/-- The line is outside fences, and no fence itself. -/
def LineRole.isProse : LineRole → Bool
  | prose => true
  | _ => false

/-- The role of a line, by the marker of the fence that is open. -/
def roleOf (fence : Option (List Char)) (line : List Char) : LineRole :=
  match fence, fenceMarker? line with
  | none, some marker => .opening marker
  | none, none => .prose
  | some open_, some marker => if open_.isPrefixOf marker then .closing else .code
  | some _, none => .code

/-- The marker of the fence that is open behind a line. -/
def fenceAfter (fence : Option (List Char)) : LineRole → Option (List Char)
  | .opening marker => some marker
  | .closing => none
  | .code => fence
  | .prose => fence

def roles (fence : Option (List Char)) : List (List Char) → List LineRole
  | [] => []
  | l :: ls =>
    let r := roleOf fence l
    r :: roles (fenceAfter fence r) ls

@[simp] theorem length_roles (fence : Option (List Char)) (ls : List (List Char)) :
    (roles fence ls).length = ls.length := by
  induction ls generalizing fence with
  | nil => rfl
  | cons l ls ih => simp [roles, ih]

/-- A line ends here, but for a line feed. -/
def endsLine (cs : List Char) : Bool :=
  match cs.dropWhile (· != '\n') with
  | [] => true
  | [_] => true
  | _ => false

/-- A text from lines, with line feeds between them. -/
def joinLines (ls : List (List Char)) : List Char := ['\n'].intercalate ls

end CrateBook.Docs
