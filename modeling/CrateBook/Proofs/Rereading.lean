import CrateBook.Proofs.Shapes
import Mathlib.Data.List.Basic
import Mathlib.Data.List.TakeWhile

/-!
# Reading types back

The text of a clear shape can be read back. The reader is told whether it stands where the output
of a trait ends, and then takes one trait only. Each part ends at a comma, at a bracket or at a plus
sign for the trait object around it, so what is read first does not depend on what comes behind. The
reader spends fuel, and reads the shape as soon as there is enough of it.
-/
namespace CrateBook

/-! ## The reader -/

namespace Reread

/-- The name that a text starts with. -/
def name (cs : List Char) : Option (TypeName × List Char) :=
  let word := cs.takeWhile fun c => !endsName c
  if h : String.ofList word ≠ "" ∧ String.ofList word ∉ keywords then
    some (⟨String.ofList word, h.1, fun c hc => by
      rw [String.toList_ofList] at hc
      simpa using List.mem_takeWhile_imp hc, h.2⟩, cs.dropWhile fun c => !endsName c)
  else none

/-- The calling convention that a text starts with, if it starts with one. -/
def abi (cs : List Char) : Option {s : String // '"' ∉ s.toList} × List Char :=
  match "extern \"".toList.isPrefixOf? cs with
  | some cs =>
    (some ⟨String.ofList (cs.takeWhile (· != '"')), fun h => by
      rw [String.toList_ofList] at h
      simpa using List.mem_takeWhile_imp h⟩, (cs.dropWhile (· != '"')).drop 2)
  | none => (none, cs)

/-- The head of a pointer that a text starts with. -/
def head (cs : List Char) : Option (PointerHead × List Char) :=
  let (isUnsafe, cs) := match "unsafe ".toList.isPrefixOf? cs with
    | some cs => (true, cs)
    | none => (false, cs)
  let (abi, cs) := abi cs
  ("fn(".toList.isPrefixOf? cs).map fun cs => (⟨isUnsafe, abi⟩, cs)

mutual

/-- The shape that a text starts with, and the rest of the text. -/
def shape : Nat → Bool → List Char → Option (Shape × List Char)
  | 0, _, _ => none
  | _ + 1, _, [] => none
  | fuel + 1, atEnd, c :: cs =>
    if c = '.' then some (.dots, cs.drop 2)
    else if c = '&' then
      match "mut ".toList.isPrefixOf? cs with
      | some cs => do
        let (t, cs) ← shape fuel atEnd cs
        return (.ref true t, cs)
      | none => do
        let (t, cs) ← shape fuel atEnd cs
        return (.ref false t, cs)
    else if c = '(' then do
      let (ts, cs) ← shapes fuel cs
      return (.tuple ts, cs)
    else if c = '[' then do
      let (t, cs) ← shape fuel false cs
      return (.slice t, cs.drop 1)
    else
      match "dyn ".toList.isPrefixOf? (c :: cs) with
      | some cs => do
        let (b, cs) ← bound fuel cs
        let (bs, cs) ← if atEnd then some ([], cs) else bounds fuel cs
        return (.dyn b bs, cs)
      | none =>
        match name (c :: cs) with
        | some (n, cs) => some (.name n, cs)
        | none => do
          let (h, cs) ← head (c :: cs)
          let (ts, out, cs) ← call fuel atEnd cs
          return (.pointer h ts out, cs)

/-- The shapes up to the parenthesis that closes them. -/
def shapes : Nat → List Char → Option (List Shape × List Char)
  | 0, _ => none
  | fuel + 1, cs =>
    if cs.head? = some ')' then some ([], cs.drop 1)
    else do
      let (t, cs) ← shape fuel false cs
      match cs with
      | ',' :: ')' :: cs => some ([t], cs)
      | ',' :: _ :: cs => do
        let (ts, cs) ← shapes fuel cs
        return (t :: ts, cs)
      | cs => some ([t], cs.drop 1)

/-- The inputs behind a parenthesis and the output, and the rest of the text. -/
def call : Nat → Bool → List Char → Option (List Shape × Option Shape × List Char)
  | 0, _, _ => none
  | fuel + 1, atEnd, cs => do
    let (ts, cs) ← shapes fuel cs
    match " -> ".toList.isPrefixOf? cs with
    | some cs => do
      let (t, cs) ← shape fuel atEnd cs
      return (ts, some t, cs)
    | none => some (ts, none, cs)

/-- The trait that a text starts with, and the rest of the text. -/
def bound : Nat → List Char → Option (Bound × List Char)
  | 0, _ => none
  | fuel + 1, cs => do
    let (n, cs) ← name cs
    if cs.head? = some '(' then do
      let (ts, out, cs) ← call fuel true (cs.drop 1)
      return (.called n ts out, cs)
    else some (.plain n, cs)

/-- The traits behind plus signs that a text starts with, and the rest of the text. -/
def bounds : Nat → List Char → Option (List Bound × List Char)
  | 0, _ => none
  | fuel + 1, cs =>
    match " + ".toList.isPrefixOf? cs with
    | some cs => do
      let (b, cs) ← bound fuel cs
      let (bs, cs) ← bounds fuel cs
      return (b :: bs, cs)
    | none => some ([], cs)

end

/-! ## Reading words -/

theorem isPrefixOf?_append (front cs : List Char) : front.isPrefixOf? (front ++ cs) = some cs :=
  List.isPrefixOf?_eq_some_iff_append_eq.2 rfl

theorem isPrefixOf?_eq_none {front cs : List Char} (h : ∀ rest, front ++ rest ≠ cs) :
    front.isPrefixOf? cs = none :=
  Option.eq_none_iff_forall_ne_some.2 fun rest hrest =>
    h rest (List.isPrefixOf?_eq_some_iff_append_eq.1 hrest)

/-- A name can end in front of this text. -/
def EndsName (rest : List Char) : Prop := ∀ c ∈ rest.head?, endsName c = true

theorem takeWhile_eq_nil_of_endsName {rest : List Char} (h : EndsName rest) :
    (rest.takeWhile fun c => !endsName c) = [] := by
  cases rest with
  | nil => rfl
  | cons c rest => rw [List.takeWhile_cons_of_neg (by simp [h c rfl])]

variable {n : TypeName} {rest : List Char}

theorem takeWhile_name (n : TypeName) (h : EndsName rest) :
    ((n.text.toList ++ rest).takeWhile fun c => !endsName c) = n.text.toList := by
  rw [List.takeWhile_append_of_pos fun c hc => by simp [n.unbroken c hc],
    takeWhile_eq_nil_of_endsName h, List.append_nil]

theorem name_text (n : TypeName) (h : EndsName rest) :
    name (n.text.toList ++ rest) = some (n, rest) := by
  have hword : String.ofList ((n.text.toList ++ rest).takeWhile fun c => !endsName c) = n.text := by
    rw [takeWhile_name n h, String.ofList_toList]
  have hdrop : ((n.text.toList ++ rest).dropWhile fun c => !endsName c) = rest := by
    rw [List.dropWhile_append_of_pos fun c hc => by simp [n.unbroken c hc]]
    cases rest with
    | nil => rfl
    | cons c rest => rw [List.dropWhile_cons_of_neg (by simp [h c rfl])]
  unfold name
  rw [dif_pos (by rw [hword]; exact ⟨n.nonempty, n.free⟩)]
  simp only [hdrop, hword]

theorem unbroken_keyword {word : String} (h : word ∈ keywords) :
    ∀ c ∈ word.toList, endsName c = false := by
  have hall : ∀ word ∈ keywords, (word.toList.all fun c => !endsName c) = true := by decide
  exact unbroken_of_all (hall word h)

/-- A name is not taken for a keyword. -/
theorem isPrefixOf?_name (word : String) (hword : word ∈ keywords) (n : TypeName)
    (h : EndsName rest) : (word.toList ++ [' ']).isPrefixOf? (n.text.toList ++ rest) = none := by
  refine isPrefixOf?_eq_none fun more hmore => ?_
  have heq := congrArg (List.takeWhile fun c => !endsName c) hmore
  have hend : EndsName (' ' :: more) := by
    rintro c ⟨⟩
    decide
  rw [takeWhile_name n h, List.append_assoc, List.takeWhile_append_of_pos fun c hc => by
    simp [unbroken_keyword hword c hc], List.singleton_append,
    takeWhile_eq_nil_of_endsName hend, List.append_nil] at heq
  exact n.free (String.toList_inj.1 heq ▸ hword)

theorem abi_text (s : {s : String // '"' ∉ s.toList}) (rest : List Char) :
    abi ("extern \"".toList ++ (s.val.toList ++ '"' :: ' ' :: rest)) = (some s, rest) := by
  have hquote : ∀ c ∈ s.val.toList, (c != '"') = true := fun c hc => by
    simpa using fun heq : c = '"' => s.property (heq ▸ hc)
  have htake : (s.val.toList ++ '"' :: ' ' :: rest).takeWhile (· != '"') = s.val.toList := by
    rw [List.takeWhile_append_of_pos hquote, List.takeWhile_cons_of_neg (by decide),
      List.append_nil]
  have hdrop : (s.val.toList ++ '"' :: ' ' :: rest).dropWhile (· != '"') = '"' :: ' ' :: rest := by
    rw [List.dropWhile_append_of_pos hquote, List.dropWhile_cons_of_neg (by decide)]
  unfold abi
  rw [isPrefixOf?_append]
  simp only [htake, hdrop, String.ofList_toList]
  rfl

theorem toList_head (h : PointerHead) : h.text.toList =
    (if h.isUnsafe then "unsafe ".toList else []) ++
      (h.abi.elim [] fun s => "extern \"".toList ++ (s.val.toList ++ ['"', ' '])) ++
      "fn".toList := by
  obtain ⟨isUnsafe, _ | s⟩ := h
  · cases isUnsafe <;> simp [PointerHead.text]
  · cases isUnsafe <;> simp [PointerHead.text]

theorem head_text (h : PointerHead) (rest : List Char) :
    head (h.text.toList ++ '(' :: rest) = some (h, rest) := by
  rw [toList_head]
  obtain ⟨isUnsafe, _ | s⟩ := h
  · cases isUnsafe <;> rfl
  · have habi := abi_text s ("fn".toList ++ '(' :: rest)
    have hunsafe : "unsafe ".toList.isPrefixOf?
        ("extern \"".toList ++ (s.val.toList ++ '"' :: ' ' :: ("fn".toList ++ '(' :: rest))) =
          none := rfl
    cases isUnsafe with
    | false =>
      simp only [Bool.false_eq_true, if_false, Option.elim_some, List.nil_append, List.append_assoc,
        List.cons_append]
      rw [head, hunsafe]
      dsimp only
      rw [habi]
      rfl
    | true =>
      simp only [if_true, Option.elim_some, List.nil_append, List.append_assoc, List.cons_append]
      rw [head, isPrefixOf?_append]
      dsimp only
      rw [habi]
      rfl

/-- No name is read where a pointer starts. -/
theorem name_head (h : PointerHead) (rest : List Char) :
    name (h.text.toList ++ '(' :: rest) = none := by
  have hword : ∃ word ∈ keywords,
      ((h.text.toList ++ '(' :: rest).takeWhile fun c => !endsName c) = word.toList := by
    rw [toList_head]
    obtain ⟨isUnsafe, _ | s⟩ := h
    · cases isUnsafe with
      | false => exact ⟨"fn", by decide, rfl⟩
      | true => exact ⟨"unsafe", by decide, rfl⟩
    · cases isUnsafe with
      | false => exact ⟨"extern", by decide, rfl⟩
      | true => exact ⟨"unsafe", by decide, rfl⟩
  obtain ⟨word, hword, htake⟩ := hword
  unfold name
  rw [dif_neg]
  rw [htake, String.ofList_toList]
  exact fun h => h.2 hword

/-! ## Reading shapes -/

/-- A shape can end in front of this text. A plus sign goes on with the trait object around the
output of a trait. -/
def Ends (atEnd : Bool) (rest : List Char) : Prop := ∀ c more, rest = c :: more →
  c = ',' ∨ c = ')' ∨ c = ']' ∨ (atEnd = true ∧ c = ' ' ∧ more.head? = some '+')

theorem ends_nil (atEnd : Bool) : Ends atEnd [] := fun _ _ h => nomatch h

theorem ends_comma (atEnd : Bool) (rest : List Char) : Ends atEnd (',' :: rest) := by
  rintro c more ⟨⟩
  exact .inl rfl

theorem ends_paren (atEnd : Bool) (rest : List Char) : Ends atEnd (')' :: rest) := by
  rintro c more ⟨⟩
  exact .inr (.inl rfl)

theorem ends_bracket (atEnd : Bool) (rest : List Char) : Ends atEnd (']' :: rest) := by
  rintro c more ⟨⟩
  exact .inr (.inr (.inl rfl))

theorem ends_plus (rest : List Char) : Ends true (" + ".toList ++ rest) := by
  rintro c more ⟨⟩
  exact .inr (.inr (.inr ⟨rfl, rfl, rfl⟩))

variable {atEnd : Bool}

theorem Ends.endsName (h : Ends atEnd rest) : EndsName rest := by
  intro c hc
  cases rest with
  | nil => cases hc
  | cons d more =>
    obtain rfl := Option.some.inj hc
    rcases h d more rfl with rfl | rfl | rfl | ⟨-, rfl, -⟩ <;> decide

theorem Ends.head_ne_paren (h : Ends atEnd rest) : rest.head? ≠ some '(' := by
  intro hc
  cases rest with
  | nil => cases hc
  | cons d more =>
    obtain rfl := Option.some.inj hc
    rcases h '(' more rfl with heq | heq | heq | ⟨-, heq, -⟩ <;> exact absurd heq (by decide)

/-- No output follows. -/
theorem Ends.arrow (h : Ends atEnd rest) : " -> ".toList.isPrefixOf? rest = none := by
  cases rest with
  | nil => rfl
  | cons d more =>
    rcases h d more rfl with rfl | rfl | rfl | ⟨-, rfl, hmore⟩
    · rfl
    · rfl
    · rfl
    · cases more with
      | nil => rfl
      | cons e more =>
        obtain rfl := Option.some.inj hmore
        rfl

/-- No further trait follows. -/
theorem Ends.plus (h : Ends false rest) : " + ".toList.isPrefixOf? rest = none := by
  cases rest with
  | nil => rfl
  | cons d more =>
    rcases h d more rfl with rfl | rfl | rfl | ⟨hfalse, -, -⟩
    · rfl
    · rfl
    · rfl
    · cases hfalse

/-- A text that ends a shape without a plus sign ends it in either position. -/
theorem Ends.mono (h : Ends false rest) : Ends atEnd rest := by
  intro c more hc
  rcases h c more hc with hc | hc | hc | ⟨hfalse, -, -⟩
  · exact .inl hc
  · exact .inr (.inl hc)
  · exact .inr (.inr (.inl hc))
  · cases hfalse

/-- The text of shapes with commas between them. -/
def between (ts : List Shape) : List Char := (", ".intercalate (Shape.texts ts)).toList

theorem between_singleton (t : Shape) : between [t] = t.text.toList := by
  rw [between, Shape.texts, Shape.texts, String.intercalate_singleton]

theorem between_cons_cons (t u : Shape) (ts : List Shape) :
    between (t :: u :: ts) = t.text.toList ++ ',' :: ' ' :: between (u :: ts) := by
  rw [between, between, Shape.texts, Shape.texts,
    String.intercalate_cons_of_ne_nil (List.cons_ne_nil _ _), String.toList_append,
    String.toList_append, List.append_assoc]
  rfl

/-- The text of an output behind the inputs. -/
def outputChars : Option Shape → List Char
  | none => []
  | some t => " -> ".toList ++ t.text.toList

theorem toList_callText (ts : List Shape) (out : Option Shape) :
    (callText (Shape.texts ts) (Shape.outputText out)).toList =
      '(' :: (between ts ++ ')' :: outputChars out) := by
  cases out with
  | none => simp [callText, Shape.outputText, between, outputChars]
  | some t => simp [callText, Shape.outputText, between, outputChars]

/-- The text of traits behind the first one. -/
def moreChars (bs : List Bound) : List Char :=
  (Bound.texts bs).flatMap fun s => " + ".toList ++ s.toList

theorem toList_dyn (b : Bound) (bs : List Bound) :
    (Shape.dyn b bs).text.toList = "dyn ".toList ++ (b.text.toList ++ moreChars bs) := by
  have hjoined (s : String) (ss : List String) : (" + ".intercalate (s :: ss)).toList =
      s.toList ++ ss.flatMap fun s => " + ".toList ++ s.toList := by
    induction ss generalizing s with
    | nil => simp
    | cons u ss ih =>
      rw [String.intercalate_cons_of_ne_nil (List.cons_ne_nil _ _), String.toList_append,
        String.toList_append, ih, List.flatMap_cons, List.append_assoc, List.append_assoc]
  rw [Shape.text, String.toList_append, hjoined, moreChars]

theorem toList_ref (isMutable : Bool) (t : Shape) : (Shape.ref isMutable t).text.toList =
    '&' :: ((if isMutable then "mut ".toList else []) ++ t.text.toList) := by
  cases isMutable <;> simp [Shape.text]

theorem toList_tuple (ts : List Shape) : (Shape.tuple ts).text.toList =
    '(' :: ((tupleText (Shape.texts ts)).toList ++ [')']) := by
  simp [Shape.text]

theorem toList_slice (t : Shape) :
    (Shape.slice t).text.toList = '[' :: (t.text.toList ++ [']']) := by
  simp [Shape.text]

theorem toList_pointer (h : PointerHead) (ts : List Shape) (out : Option Shape) :
    (Shape.pointer h ts out).text.toList =
      h.text.toList ++ '(' :: (between ts ++ ')' :: outputChars out) := by
  rw [Shape.text, String.toList_append, toList_callText]

theorem toList_called (n : TypeName) (ts : List Shape) (out : Option Shape) :
    (Bound.called n ts out).text.toList =
      n.text.toList ++ '(' :: (between ts ++ ')' :: outputChars out) := by
  rw [Bound.text, String.toList_append, toList_callText]

theorem head_front (h : PointerHead) :
    ∃ c cs, h.text.toList = c :: cs ∧ c ∈ ['u', 'e', 'f'] := by
  rw [toList_head]
  obtain ⟨isUnsafe, _ | s⟩ := h
  · cases isUnsafe with
    | false => exact ⟨'f', _, rfl, by decide⟩
    | true => exact ⟨'u', _, rfl, by decide⟩
  · cases isUnsafe with
    | false => exact ⟨'e', _, rfl, by decide⟩
    | true => exact ⟨'u', _, rfl, by decide⟩

/-- The text of a shape starts with a name, or in one of a few other ways. -/
theorem text_front (t : Shape) : (∃ n, t = .name n) ∨
    ∃ c cs, t.text.toList = c :: cs ∧ c ∈ ['.', '&', 'd', '(', '[', 'u', 'e', 'f'] := by
  cases t with
  | name n => exact .inl ⟨n, rfl⟩
  | dots => exact .inr ⟨_, _, by rw [Shape.text]; rfl, by decide⟩
  | ref isMutable t => exact .inr ⟨_, _, toList_ref isMutable t, by decide⟩
  | dyn b bs => exact .inr ⟨'d', _, by rw [toList_dyn]; rfl, by decide⟩
  | tuple ts => exact .inr ⟨_, _, toList_tuple ts, by decide⟩
  | slice t => exact .inr ⟨_, _, toList_slice t, by decide⟩
  | pointer h ts out =>
    obtain ⟨c, cs, hcs, hc⟩ := head_front h
    have hsub : ['u', 'e', 'f'] ⊆ ['.', '&', 'd', '(', '[', 'u', 'e', 'f'] := by decide
    refine .inr ⟨c, cs ++ '(' :: (between ts ++ ')' :: outputChars out), ?_, hsub hc⟩
    rw [toList_pointer, hcs, List.cons_append]

theorem name_front (n : TypeName) : ∃ c cs, n.text.toList = c :: cs ∧ endsName c = false := by
  cases hcs : n.text.toList with
  | nil => exact absurd (String.toList_eq_nil_iff.1 hcs) n.nonempty
  | cons c cs => exact ⟨c, cs, rfl, n.unbroken c (hcs ▸ List.mem_cons_self)⟩

/-- What is read next is no parenthesis that closes a list. -/
theorem head_text_ne (t : Shape) (rest : List Char) :
    (t.text.toList ++ rest).head? ≠ some ')' := by
  rcases text_front t with ⟨n, rfl⟩ | ⟨c, cs, hcs, hc⟩
  · obtain ⟨c, cs, hcs, hc⟩ := name_front n
    rw [Shape.text, hcs]
    rintro ⟨⟩
    exact absurd hc (by decide)
  · rw [hcs]
    rintro ⟨⟩
    exact absurd hc (by decide)

/-- No shape is taken for the word that makes a reference mutable. -/
theorem isPrefixOf?_mut (t : Shape) (h : Ends atEnd rest) :
    "mut ".toList.isPrefixOf? (t.text.toList ++ rest) = none := by
  rcases text_front t with ⟨n, rfl⟩ | ⟨c, cs, hcs, hc⟩
  · exact isPrefixOf?_name "mut" (by decide) n h.endsName
  · rw [hcs]
    refine isPrefixOf?_eq_none fun more hmore => ?_
    obtain rfl : 'm' = c := (List.cons.inj hmore).1
    exact absurd hc (by decide)

/-! ## Reading back -/

variable {fuel : Nat}

/-- A text that starts with a word. -/
theorem shape_word {c : Char} (hc : endsName c = false) (cs : List Char) :
    shape (fuel + 1) atEnd (c :: cs) =
      match "dyn ".toList.isPrefixOf? (c :: cs) with
      | some cs => do
        let (b, cs) ← bound fuel cs
        let (bs, cs) ← if atEnd then some ([], cs) else bounds fuel cs
        return (.dyn b bs, cs)
      | none =>
        match name (c :: cs) with
        | some (n, cs) => some (.name n, cs)
        | none => do
          let (h, cs) ← head (c :: cs)
          let (ts, out, cs) ← call fuel atEnd cs
          return (.pointer h ts out, cs) := by
  have hne : c ≠ '.' ∧ c ≠ '&' ∧ c ≠ '(' ∧ c ≠ '[' := by
    refine ⟨?_, ?_, ?_, ?_⟩ <;> (rintro rfl; exact absurd hc (by decide))
  rw [shape, if_neg hne.1, if_neg hne.2.1, if_neg hne.2.2.1, if_neg hne.2.2.2]

theorem shape_name (n : TypeName) (h : EndsName rest) :
    shape (fuel + 1) atEnd (n.text.toList ++ rest) = some (.name n, rest) := by
  have hdyn := isPrefixOf?_name "dyn" (by decide) n h
  have hname := name_text n h
  obtain ⟨c, cs, hcs, hc⟩ := name_front n
  rw [hcs, List.cons_append] at hdyn hname ⊢
  rw [shape_word hc, show "dyn ".toList = "dyn".toList ++ [' '] from rfl, hdyn, hname]

theorem shape_dyn (b : Bound) (bs : List Bound) :
    shape (fuel + 1) atEnd ((Shape.dyn b bs).text.toList ++ rest) = (do
      let (b, cs) ← bound fuel (b.text.toList ++ (moreChars bs ++ rest))
      let (bs, cs) ← if atEnd then some ([], cs) else bounds fuel cs
      return (.dyn b bs, cs)) := by
  have hdyn : "dyn ".toList.isPrefixOf?
      ('d' :: ("yn ".toList ++ (b.text.toList ++ (moreChars bs ++ rest)))) =
        some (b.text.toList ++ (moreChars bs ++ rest)) := isPrefixOf?_append "dyn ".toList _
  rw [toList_dyn, List.append_assoc, List.append_assoc]
  change shape (fuel + 1) atEnd ('d' :: ("yn ".toList ++ _)) = _
  rw [shape_word (by decide), hdyn]

/-- A pointer is read if its inputs and its output are. -/
theorem shape_pointer (head : PointerHead) {ts : List Shape} {out : Option Shape}
    (hcall : call fuel atEnd (between ts ++ ')' :: (outputChars out ++ rest)) =
      some (ts, out, rest)) :
    shape (fuel + 1) atEnd ((Shape.pointer head ts out).text.toList ++ rest) =
      some (.pointer head ts out, rest) := by
  have hhead := head_text head (between ts ++ ')' :: (outputChars out ++ rest))
  have hname := name_head head (between ts ++ ')' :: (outputChars out ++ rest))
  obtain ⟨c, cs, hcs, hc⟩ := head_front head
  have hends : endsName c = false := by
    obtain rfl | rfl | rfl : c = 'u' ∨ c = 'e' ∨ c = 'f' := by simpa using hc
    all_goals decide
  rw [toList_pointer, List.append_assoc, List.cons_append, List.append_assoc, List.cons_append]
  rw [hcs, List.cons_append] at hhead hname ⊢
  have hdyn : "dyn ".toList.isPrefixOf? (c :: (cs ++ '(' ::
      (between ts ++ ')' :: (outputChars out ++ rest)))) = none := by
    refine isPrefixOf?_eq_none fun more hmore => ?_
    obtain rfl : 'd' = c := (List.cons.inj hmore).1
    exact absurd hc (by decide)
  rw [shape_word hends, hdyn, hname]
  simp only [hhead, Option.bind_eq_bind, Option.bind_some, hcall]
  rfl

/-- Inputs and an output are read if each of them is. -/
theorem call_text {ts : List Shape} {out : Option Shape}
    (hts : Finally fun fuel => ∀ rest,
      shapes fuel (between ts ++ ')' :: rest) = some (ts, rest))
    (hout : Finally fun fuel => ∀ t, out = some t → ∀ rest, Ends atEnd rest →
      shape fuel atEnd (t.text.toList ++ rest) = some (t, rest)) :
    Finally fun fuel => ∀ rest, Ends atEnd rest →
      call fuel atEnd (between ts ++ ')' :: (outputChars out ++ rest)) =
        some (ts, out, rest) := by
  refine (hts.and hout).spend fun fuel hread rest h => ?_
  rw [call, hread.1]
  cases out with
  | none =>
    simp only [outputChars, List.nil_append, Option.bind_eq_bind, Option.bind_some, h.arrow]
  | some t =>
    simp only [outputChars, List.append_assoc, Option.bind_eq_bind, Option.bind_some,
      isPrefixOf?_append, hread.2 t rfl rest h]
    rfl

theorem ends_moreChars (bs : List Bound) (h : Ends false rest) :
    Ends true (moreChars bs ++ rest) := by
  cases bs with
  | nil => exact h.mono
  | cons b bs =>
    rw [moreChars, Bound.texts, List.flatMap_cons, List.append_assoc, List.append_assoc]
    exact ends_plus _

theorem moreChars_cons (b : Bound) (bs : List Bound) (rest : List Char) :
    moreChars (b :: bs) ++ rest =
      " + ".toList ++ (b.text.toList ++ (moreChars bs ++ rest)) := by
  rw [moreChars, moreChars, Bound.texts, List.flatMap_cons, List.append_assoc, List.append_assoc]

/-- What is written in the parentheses of a tuple can be read. -/
theorem shapes_tuple {ts : List Shape} (rest : List Char)
    (hone : ∀ t, ts = [t] → ∀ rest, Ends false rest →
      shape fuel false (t.text.toList ++ rest) = some (t, rest))
    (hts : ∀ rest, shapes (fuel + 1) (between ts ++ ')' :: rest) = some (ts, rest)) :
    shapes (fuel + 1) ((tupleText (Shape.texts ts)).toList ++ ')' :: rest) = some (ts, rest) := by
  rcases ts with _ | ⟨t, _ | ⟨u, ts⟩⟩
  · exact hts rest
  · have htext : (tupleText (Shape.texts [t])).toList = t.text.toList ++ [','] := by
      simp [Shape.texts, tupleText]
    rw [htext, List.append_assoc, List.singleton_append, shapes, if_neg (head_text_ne t _),
      hone t rfl _ (ends_comma false _)]
    rfl
  · exact hts rest

mutual

/-- A clear shape is read back from its text, whatever follows its end. -/
theorem shape_text : ∀ (s : Shape) (atEnd : Bool), s.isClear atEnd = true →
    Finally fun fuel => ∀ rest, Ends atEnd rest →
      shape fuel atEnd (s.text.toList ++ rest) = some (s, rest)
  | .dots, atEnd, _ => by
    refine Finally.succ fun fuel rest _ => ?_
    rw [Shape.text]
    rfl
  | .name n, atEnd, _ => by
    refine Finally.succ fun fuel rest h => ?_
    rw [Shape.text, shape_name n h.endsName]
  | .ref isMutable t, atEnd, hclear => by
    rw [Shape.isClear] at hclear
    refine (shape_text t atEnd hclear).spend fun fuel ht rest h => ?_
    rw [toList_ref, List.cons_append, shape, if_neg (by decide), if_pos rfl]
    cases isMutable with
    | false =>
      rw [if_neg (by decide), List.nil_append, isPrefixOf?_mut t h]
      simp only [ht rest h]
      rfl
    | true =>
      rw [if_pos rfl, List.append_assoc, isPrefixOf?_append]
      simp only [ht rest h]
      rfl
  | .dyn b bs, atEnd, hclear => by
    simp only [Shape.isClear, Bool.and_eq_true] at hclear
    obtain ⟨⟨hone, hb⟩, hbs⟩ := hclear
    refine ((bound_text b hb).and (bounds_text bs hbs)).spend fun fuel hread rest h => ?_
    rw [shape_dyn]
    cases atEnd with
    | false =>
      simp only [hread.1 _ (ends_moreChars bs h), Option.bind_eq_bind, Option.bind_some,
        Bool.false_eq_true, if_false, hread.2 rest h]
      rfl
    | true =>
      obtain rfl : bs = [] := by simpa using hone
      simp only [moreChars, Bound.texts, List.flatMap_nil, List.nil_append, hread.1 rest h]
      rfl
  | .tuple ts, atEnd, hclear => by
    rw [Shape.isClear] at hclear
    have hone : Finally fun fuel => ∀ t, ts = [t] → ∀ rest, Ends false rest →
        shape fuel false (t.text.toList ++ rest) = some (t, rest) :=
      match ts, hclear with
      | [], _ => .always fun _ _ h => nomatch h
      | [t], hclear => by
        simp only [Shape.areClear, Bool.and_eq_true] at hclear
        refine (shape_text t false hclear.1).imp fun fuel ht u hu => ?_
        exact (List.cons.inj hu).1 ▸ ht
      | _ :: _ :: _, _ => .always fun _ _ h => nomatch h
    obtain ⟨least, hleast⟩ := hone.and (shapes_text ts hclear)
    refine ⟨least + 2, fun fuel hfuel rest h => ?_⟩
    obtain ⟨more, rfl⟩ := Nat.exists_eq_add_of_le hfuel
    have hread := shapes_tuple rest (hleast (least + more) (by omega)).1
      (hleast (least + more + 1) (by omega)).2
    rw [show least + 2 + more = least + more + 1 + 1 by omega, toList_tuple, List.cons_append,
      List.append_assoc, shape, if_neg (by decide), if_neg (by decide), if_pos rfl,
      List.singleton_append, hread]
    rfl
  | .slice t, atEnd, hclear => by
    rw [Shape.isClear] at hclear
    refine (shape_text t false hclear).spend fun fuel ht rest h => ?_
    rw [toList_slice, List.cons_append, List.append_assoc, shape, if_neg (by decide),
      if_neg (by decide), if_neg (by decide), if_pos rfl]
    simp only [List.singleton_append, ht _ (ends_bracket false rest)]
    rfl
  | .pointer head ts out, atEnd, hclear => by
    simp only [Shape.isClear, Bool.and_eq_true] at hclear
    have hcall := call_text (shapes_text ts hclear.1) (output_text out atEnd hclear.2)
    exact hcall.spend fun fuel hcall rest h => shape_pointer head (hcall rest h)

theorem bound_text : ∀ b : Bound, b.isClear = true → Finally fun fuel => ∀ rest, Ends true rest →
    bound fuel (b.text.toList ++ rest) = some (b, rest)
  | .plain n, _ => by
    refine Finally.succ fun fuel rest h => ?_
    rw [Bound.text, bound, name_text n h.endsName]
    simp only [Option.bind_eq_bind, Option.bind_some, if_neg h.head_ne_paren]
  | .called n ts out, hclear => by
    simp only [Bound.isClear, Bool.and_eq_true] at hclear
    have hcall := call_text (shapes_text ts hclear.1) (output_text out true hclear.2)
    refine hcall.spend fun fuel hcall rest h => ?_
    have hparen : EndsName ('(' :: (between ts ++ ')' :: (outputChars out ++ rest))) := by
      rintro c ⟨⟩
      decide
    rw [toList_called, List.append_assoc, List.cons_append, List.append_assoc, List.cons_append,
      bound, name_text n hparen]
    simp only [Option.bind_eq_bind, Option.bind_some, List.head?_cons, if_true, List.drop_one,
      List.tail_cons, hcall rest h]
    rfl

theorem shapes_text : ∀ ts : List Shape, Shape.areClear ts = true → Finally fun fuel => ∀ rest,
    shapes fuel (between ts ++ ')' :: rest) = some (ts, rest)
  | [], _ => by
    refine Finally.succ fun fuel rest => ?_
    rfl
  | [t], hclear => by
    simp only [Shape.areClear, Bool.and_eq_true] at hclear
    refine (shape_text t false hclear.1).spend fun fuel ht rest => ?_
    rw [between_singleton, shapes, if_neg (head_text_ne t _), ht _ (ends_paren false rest)]
    rfl
  | t :: u :: ts, hclear => by
    rw [Shape.areClear, Bool.and_eq_true] at hclear
    refine ((shape_text t false hclear.1).and (shapes_text (u :: ts) hclear.2)).spend ?_
    intro fuel hread rest
    rw [between_cons_cons, List.append_assoc, List.cons_append, List.cons_append, shapes,
      if_neg (head_text_ne t _), hread.1 _ (ends_comma false _), Option.bind_eq_bind,
      Option.bind_some]
    change (shapes fuel (between (u :: ts) ++ ')' :: rest)).bind _ = _
    rw [hread.2 rest]
    rfl

theorem bounds_text : ∀ bs : List Bound, Bound.areClear bs = true → Finally fun fuel => ∀ rest,
    Ends false rest → bounds fuel (moreChars bs ++ rest) = some (bs, rest)
  | [], _ => by
    refine Finally.succ fun fuel rest h => ?_
    rw [moreChars, Bound.texts, List.flatMap_nil, List.nil_append, bounds, h.plus]
  | b :: bs, hclear => by
    rw [Bound.areClear, Bool.and_eq_true] at hclear
    refine ((bound_text b hclear.1).and (bounds_text bs hclear.2)).spend fun fuel hread rest h => ?_
    rw [moreChars_cons, bounds, isPrefixOf?_append]
    simp only [hread.1 _ (ends_moreChars bs h), Option.bind_eq_bind, Option.bind_some,
      hread.2 rest h]
    rfl

theorem output_text : ∀ (out : Option Shape) (atEnd : Bool),
    Shape.isClearOutput atEnd out = true → Finally fun fuel => ∀ t, out = some t → ∀ rest,
      Ends atEnd rest → shape fuel atEnd (t.text.toList ++ rest) = some (t, rest)
  | none, _, _ => .always fun _ _ h => nomatch h
  | some t, atEnd, hclear => by
    rw [Shape.isClearOutput] at hclear
    refine (shape_text t atEnd hclear).imp fun fuel ht u hu => ?_
    exact Option.some.inj hu ▸ ht

end

end Reread

/-- Clear shapes with the same text are the same. -/
theorem Shape.eq_of_text {a b : Shape} (ha : a.isClear false = true) (hb : b.isClear false = true)
    (h : a.text = b.text) : a = b := by
  obtain ⟨fuel, hfuel⟩ := (Reread.shape_text a false ha).and (Reread.shape_text b false hb)
  obtain ⟨hreada, hreadb⟩ := hfuel fuel (Nat.le_refl fuel)
  have hread := (hreada [] (Reread.ends_nil false)).symm.trans
    ((congrArg (fun s : String => Reread.shape fuel false (s.toList ++ [])) h).trans
      (hreadb [] (Reread.ends_nil false)))
  exact (Prod.mk.inj (Option.some.inj hread)).1

end CrateBook
