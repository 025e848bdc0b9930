/-!
# Lines and parts of a text

A line ends at any of ten line boundaries, a carriage return and line feed counting as one.
The boundary at the end of a text opens no further line. The other functions of this module
cut a text at a separator.
-/
namespace CrateBook.Text

/-- The characters that end a line. -/
def isLineBreak (c : Char) : Bool :=
  let n := c.toNat
  (10 ≤ n && n ≤ 13) || (0x1C ≤ n && n ≤ 0x1E) || n == 0x85 || n == 0x2028 || n == 0x2029

/-- Puts a character in front of the first line. -/
def consFirst (c : Char) : List (List Char) → List (List Char)
  | [] => [[c]]
  | l :: ls => (c :: l) :: ls

/-- The lines of a text, without the boundaries that end them. -/
def splitLines : List Char → List (List Char)
  | [] => []
  | '\r' :: '\n' :: rest => [] :: splitLines rest
  | c :: rest =>
    if isLineBreak c then [] :: splitLines rest else consFirst c (splitLines rest)

def lines (s : String) : List String := (splitLines s.toList).map String.ofList

def joinLines (ls : List String) : String := "\n".intercalate ls

/-- The parts of a text between occurrences of one character; never empty. -/
def splitChars (sep : Char) : List Char → List (List Char)
  | [] => [[]]
  | c :: rest =>
    if c = sep then [] :: splitChars sep rest else consFirst c (splitChars sep rest)

/-- The parts of a text between occurrences of one character. -/
def splitAt (sep : Char) (s : String) : List String :=
  (splitChars sep s.toList).map String.ofList

theorem splitChars_eq_splitOn (sep : Char) (cs : List Char) :
    splitChars sep cs = cs.splitOn sep := by
  induction cs with
  | nil => rfl
  | cons c cs ih =>
    obtain ⟨part, parts, hparts⟩ := List.exists_cons_of_ne_nil (List.splitOn_ne_nil sep cs)
    simp only [splitChars, ih, List.splitOn_cons_eq_if_modifyHead, beq_iff_eq, hparts, consFirst,
      List.modifyHead_cons]

/-- No part holds the character at which a text was cut. -/
theorem notMem_of_mem_splitOn {sep : Char} {cs part : List Char} (h : part ∈ cs.splitOn sep) :
    sep ∉ part := by
  induction cs generalizing part with
  | nil =>
    obtain rfl := List.mem_singleton.1 h
    exact List.not_mem_nil
  | cons c cs ih =>
    obtain ⟨k, ks, hks⟩ := List.exists_cons_of_ne_nil (List.splitOn_ne_nil sep cs)
    rw [List.splitOn_cons_eq_if_modifyHead] at h
    split at h
    · rcases List.mem_cons.1 h with rfl | h
      · exact List.not_mem_nil
      · exact ih h
    · next hc =>
      rw [hks, List.modifyHead_cons] at h
      rw [hks] at ih
      rcases List.mem_cons.1 h with rfl | h
      · have hne : sep ≠ c := fun heq => hc (beq_iff_eq.2 heq.symm)
        exact List.not_mem_cons_of_ne_of_not_mem hne (ih List.mem_cons_self)
      · exact ih (List.mem_cons_of_mem k h)

/-- What follows the last `::`, if there is one. -/
def afterLastColons? : List Char → Option (List Char)
  | [] => none
  | c :: rest =>
    match afterLastColons? rest with
    | some tail => some tail
    | none =>
      match c, rest with
      | ':', ':' :: tail => some tail
      | _, _ => none

/-- The last segment of a path whose segments are separated by `::`. -/
def lastSegment (s : String) : String :=
  match afterLastColons? s.toList with
  | some tail => String.ofList tail
  | none => s

/-- What comes before the first occurrence of `sep`, and what comes after it. -/
def cutAt? (sep : List Char) : List Char → Option (List Char × List Char)
  | [] => if sep.isEmpty then some ([], []) else none
  | c :: rest =>
    if sep.isPrefixOf (c :: rest) then some ([], (c :: rest).drop sep.length)
    else (cutAt? sep rest).map fun parts => (c :: parts.1, parts.2)

def occursIn (sep s : String) : Bool := (cutAt? sep.toList s.toList).isSome

def startsWith (front s : String) : Bool := front.toList.isPrefixOf s.toList

def endsWith (back s : String) : Bool := back.toList.isSuffixOf s.toList

/-- The text without `back` at its end, if it ends so. -/
def dropSuffix (back s : String) : String :=
  if endsWith back s then String.ofList (s.toList.take (s.toList.length - back.toList.length))
  else s

/-- Every character of a text, as a text of its own. -/
def characters (s : String) : List String := s.toList.map String.singleton

/-- The text with one character put for another. -/
def replaceChar (old new : Char) (s : String) : String :=
  String.ofList (s.toList.map fun c => if c = old then new else c)

def times (n : Nat) (s : String) : String := String.join (List.replicate n s)

end CrateBook.Text
