import CrateBook.Proofs.ValueEquality

/-!
# Reading objects member by member

A key whose characters stand for themselves is read as it is, however long it is. A member with
such a key takes one step of the reader, and what its value reads as can be computed where its text
is closed.
-/
namespace CrateBook.Json

/-- The character stands for itself in a string. -/
def isPlain (c : Char) : Bool := c != '"' && c != '\\' && 0x20 ≤ c.toNat

/-- The text of a member: its key, and what stands behind the colon. -/
def keyed (key rest : List Char) : List Char := '"' :: (key ++ '"' :: ':' :: rest)

theorem stringBody_run {opening key : List Char} (h : key.all isPlain = true) (n : Nat)
    (done rest : List Char) :
    stringBody opening (n + key.length) done (key ++ rest) =
      stringBody opening n (key.reverse ++ done) rest := by
  induction key generalizing done with
  | nil => rfl
  | cons c key ih =>
    obtain ⟨hc, hkey⟩ := Bool.and_eq_true_iff.1 (List.all_cons ▸ h)
    simp only [isPlain, Bool.and_eq_true, bne_iff_ne, ne_eq, decide_eq_true_eq] at hc
    have hfuel : n + (c :: key).length = (n + key.length) + 1 := rfl
    rw [hfuel, List.cons_append, stringBody.eq_def]
    simp only [hc.1.1, hc.1.2, if_false, if_neg (Nat.not_lt.2 hc.2)]
    rw [ih hkey, List.reverse_cons, List.append_assoc, List.singleton_append]

/-- A string of characters that stand for themselves is read as it is. -/
theorem string_run {key : List Char} (h : key.all isPlain = true) (rest : List Char) :
    string (key ++ '"' :: rest) = .ok (String.ofList key, rest) := by
  have hfuel : (key ++ '"' :: rest).length + 1 = (rest.length + 2) + key.length := by
    simp [Nat.add_comm, Nat.add_left_comm]
  rw [string, hfuel, stringBody_run h, List.append_nil]
  simp [stringBody]

theorem value_object {room n : Nat} {key rest : List Char} :
    value (room + 1) (n + 1) ('{' :: keyed key rest) = members room n [] (keyed key rest) := by
  rw [value]
  simp [keyed, skipSpace, isSpace]

section

variable {key cs : List Char} (h : key.all isPlain = true) (hcs : skipSpace cs = cs)
  {room n : Nat} {v : Value} {rest : List Char} (done : List (String × Value))

include h hcs

/-- A member that others follow. -/
theorem members_more {next : List Char}
    (hv : value room n cs = .ok (v, ',' :: keyed next rest)) :
    members room (n + 1) done (keyed key cs) =
      members room n (setEntry (String.ofList key) v done) (keyed next rest) := by
  have hcolon : skipSpace (':' :: cs) = ':' :: cs := rfl
  have hcomma : skipSpace (',' :: keyed next rest) = ',' :: keyed next rest := rfl
  have hnext : skipSpace (keyed next rest) = keyed next rest := rfl
  rw [keyed, members]
  simp only [string_run h, bind, Except.bind, hcolon, hcs, hv, hcomma, hnext]

/-- The last member of an object. -/
theorem members_last (hv : value room n cs = .ok (v, '}' :: rest)) :
    members room (n + 1) done (keyed key cs) =
      .ok (.object (setEntry (String.ofList key) v done), rest) := by
  have hcolon : skipSpace (':' :: cs) = ':' :: cs := rfl
  have hbrace : skipSpace ('}' :: rest) = '}' :: rest := rfl
  rw [keyed, members]
  simp only [string_run h, bind, Except.bind, hcolon, hcs, hv, hbrace]

end

/-- What a value without floats reads as, from its text. -/
theorem value_eq_ok {room n : Nat} {cs rest : List Char} {v : Value}
    (h : (value room n cs).toOption.any (fun r => r.1.same v && r.2 == rest) = true) :
    value room n cs = .ok (v, rest) := by
  cases hvalue : value room n cs with
  | error stop =>
    rw [hvalue] at h
    cases h
  | ok r =>
    obtain ⟨w, cs'⟩ := r
    rw [hvalue] at h
    have hsame : w.same v = true ∧ (cs' == rest) = true := Bool.and_eq_true_iff.1 h
    rw [Value.eq_of_same hsame.1, beq_iff_eq.1 hsame.2]

end CrateBook.Json
