import CrateBook.Json.Reader
import CrateBook.Json.Writer
import CrateBook.Text.Quoted
import Mathlib.Tactic.IntervalCases

/-!
# Strings that are written and read again

A string that is written between quotes is read back, whatever follows it, also where all of its
characters beyond ASCII are escapes. A character beyond the first plane goes by two escapes, and
no other character by the first half of such a pair.
-/
namespace CrateBook

namespace Text

/-- A hexadecimal number with one digit more. -/
theorem hex_succ {width n : Nat} (hwidth : width ≠ 0) :
    hex (width + 1) n = hex width (n / 16) ++ [(n % 16).digitChar] := by
  unfold hex
  dsimp only
  by_cases hn : n < 16
  · obtain ⟨w, rfl⟩ : ∃ w, width = w + 1 := ⟨width - 1, by omega⟩
    rw [Nat.toDigits_of_lt_base hn, Nat.div_eq_of_lt hn, Nat.mod_eq_of_lt hn,
      Nat.toDigits_of_lt_base (by decide), List.length_singleton, List.length_singleton,
      Nat.add_sub_cancel, Nat.add_sub_cancel, List.replicate_succ']
    rfl
  · rw [Nat.toDigits_of_base_le (by decide) (by omega), List.length_append, List.length_singleton,
      Nat.add_sub_add_right, List.append_assoc]

/-- Four hexadecimal digits, one by one. -/
theorem hex_four {n : Nat} (h : n < 0x10000) :
    hex 4 n = [(n / 0x1000).digitChar, (n / 0x100 % 16).digitChar, (n / 0x10 % 16).digitChar,
      (n % 16).digitChar] := by
  have hfirst : hex 1 (n / 16 / 16 / 16) = [(n / 0x1000).digitChar] := by
    rw [hex, Nat.toDigits_of_lt_base (by omega)]
    simp [Nat.div_div_eq_div_mul]
  rw [hex_succ (by decide), hex_succ (by decide), hex_succ (by decide), hfirst,
    Nat.div_div_eq_div_mul]
  rfl

end Text

namespace Json

theorem hexDigit?_digitChar {d : Nat} (h : d < 16) : hexDigit? d.digitChar = some d := by
  interval_cases d <;> rfl

theorem fourHex?_hex {n : Nat} (h : n < 0x10000) {rest : List Char} (hrest : rest ≠ []) :
    fourHex? (Text.hex 4 n ++ rest) = some (n, rest) := by
  obtain ⟨e, es, rfl⟩ := List.exists_cons_of_ne_nil hrest
  rw [Text.hex_four h]
  have hdigits : (((n / 0x1000) * 16 + n / 0x100 % 16) * 16 + n / 0x10 % 16) * 16 + n % 16 = n := by
    omega
  simp only [List.cons_append, List.nil_append, fourHex?, Option.bind_eq_bind, Option.bind_some,
    hexDigit?_digitChar (by omega : n / 0x1000 < 16),
    hexDigit?_digitChar (Nat.mod_lt _ (by decide : 0 < 16)), hdigits]

/-- A character that is no half of a pair. -/
theorem charOf_toNat (c : Char) : charOf c.toNat = c := by
  have hvalid : c.toNat.isValidChar := c.valid
  rw [charOf, if_pos hvalid]
  exact Char.ofNat_toNat c

theorem isHighHalf_toNat (c : Char) : isHighHalf c.toNat = false := by
  have hvalid : c.toNat < 0xD800 ∨ 0xDFFF < c.toNat ∧ c.toNat < 0x110000 := c.valid
  simp only [isHighHalf, Bool.and_eq_false_iff, decide_eq_false_iff_not]
  omega

theorem unicodeEscape_hex {c : Char} (h : c.toNat < 0x10000) (fromU : List Char)
    {rest : List Char} (hrest : rest ≠ []) :
    unicodeEscape fromU (Text.hex 4 c.toNat ++ rest) = .ok (c, rest) := by
  rw [unicodeEscape, fourHex?_hex h hrest]
  dsimp only
  split <;> simp [isHighHalf_toNat, charOf_toNat]

/-- The two halves of a character beyond the first plane. -/
theorem unicodeEscape_halves {c : Char} {n : Nat} (hc : c.toNat = 0x10000 + n)
    (fromU : List Char) {rest : List Char} (hrest : rest ≠ []) :
    unicodeEscape fromU (Text.hex 4 (0xD800 + n / 1024) ++
      (unitEscape (0xDC00 + n % 1024) ++ rest)) = .ok (c, rest) := by
  have hn : n < 0x100000 := by
    have hvalid : c.toNat < 0xD800 ∨ 0xDFFF < c.toNat ∧ c.toNat < 0x110000 := c.valid
    omega
  have hhigh : isHighHalf (0xD800 + n / 1024) = true := by
    simp only [isHighHalf, Bool.and_eq_true, decide_eq_true_eq]
    omega
  have hlow : isLowHalf (0xDC00 + n % 1024) = true := by
    simp only [isLowHalf, Bool.and_eq_true, decide_eq_true_eq]
    omega
  have hchar : 0x10000 + (0xD800 + n / 1024 - 0xD800) * 1024 + (0xDC00 + n % 1024 - 0xDC00) =
      c.toNat := by
    omega
  have hlength : 4 < (Text.hex 4 (0xDC00 + n % 1024) ++ rest).length := by
    have hpos := List.length_pos_iff.2 hrest
    rw [Text.hex_four (by omega), List.length_append]
    simp only [List.length_cons, List.length_nil]
    omega
  have hsecond := fourHex?_hex (by omega : 0xDC00 + n % 1024 < 0x10000) hrest
  rw [unicodeEscape, fourHex?_hex (by omega) (by simp [unitEscape])]
  simp only [unitEscape, List.cons_append, hhigh, hlength, hsecond, hlow, hchar, charOf_toNat,
    decide_true, Bool.and_self, if_true]

/-- A character behind a backslash. -/
theorem stringBody_escaped {e c : Char} (he : escaped? e = some c) (hu : e ≠ 'u')
    (opening : List Char) (fuel : Nat) (done rest : List Char) :
    stringBody opening (fuel + 1) done ('\\' :: e :: rest) =
      stringBody opening fuel (c :: done) rest := by
  rw [stringBody, if_neg (by decide), if_pos rfl]
  · simp only [he]
  · exact hu

theorem stringBody_unicode {c : Char} {escape rest : List Char}
    (h : ∀ fromU, unicodeEscape fromU escape = .ok (c, rest)) (opening : List Char) (fuel : Nat)
    (done : List Char) :
    stringBody opening (fuel + 1) done ('\\' :: 'u' :: escape) =
      stringBody opening fuel (c :: done) rest := by
  rw [stringBody, if_neg (by decide), if_pos rfl]
  dsimp only
  rw [h]
  rfl

/-- How a character of a string is written: by a letter behind a backslash, as it is, by one
escape, or by the escapes of two halves. -/
theorem stringChar_cases (c : Char) :
    (∃ e, stringChar true c = ['\\', e] ∧ escaped? e = some c ∧ e ≠ 'u') ∨
    (stringChar true c = [c] ∧ c ≠ '"' ∧ c ≠ '\\' ∧ ¬ c.toNat < 0x20) ∨
    (stringChar true c = unitEscape c.toNat ∧ c.toNat < 0x10000) ∨
    ∃ n, c.toNat = 0x10000 + n ∧
      stringChar true c = unitEscape (0xD800 + n / 1024) ++ unitEscape (0xDC00 + n % 1024) := by
  by_cases hquote : c = '"' ∨ c = '\\'
  · refine .inl ⟨c, by rw [stringChar, if_pos hquote], ?_⟩
    rcases hquote with rfl | rfl <;> exact ⟨rfl, by decide⟩
  by_cases hletter : c ∈ ['\n', '\r', '\t', '\x08', '\x0c']
  · simp only [List.mem_cons, List.not_mem_nil, or_false] at hletter
    rcases hletter with rfl | rfl | rfl | rfl | rfl <;> exact .inl ⟨_, rfl, rfl, by decide⟩
  simp only [List.mem_cons, List.not_mem_nil, or_false, not_or] at hletter
  obtain ⟨hn, hr, ht, hb, hf⟩ := hletter
  rw [stringChar, if_neg hquote, if_neg hn, if_neg hr, if_neg ht, if_neg hb, if_neg hf]
  by_cases hcontrol : c.toNat < 0x20
  · exact .inr (.inr (.inl ⟨if_pos hcontrol, by omega⟩))
  rw [if_neg hcontrol]
  by_cases hascii : c.toNat < 0x7F
  · exact .inr (.inl ⟨if_pos (by simpa using hascii), (not_or.1 hquote).1, (not_or.1 hquote).2,
      hcontrol⟩)
  rw [if_neg (by simpa using hascii)]
  by_cases hplane : c.toNat < 0x10000
  · exact .inr (.inr (.inl ⟨if_pos hplane, hplane⟩))
  · exact .inr (.inr (.inr ⟨c.toNat - 0x10000, by omega, if_neg hplane⟩))

/-- One character of a string is read back. -/
theorem stringBody_stringChar (opening : List Char) (fuel : Nat) (done : List Char) (c : Char)
    {rest : List Char} (hrest : rest ≠ []) :
    stringBody opening (fuel + 1) done (stringChar true c ++ rest) =
      stringBody opening fuel (c :: done) rest := by
  rcases stringChar_cases c with ⟨e, h, he, hu⟩ | ⟨h, hquote, hslash, hcontrol⟩ | ⟨h, hplane⟩ |
    ⟨n, hn, h⟩
  · rw [h]
    exact stringBody_escaped he hu opening fuel done rest
  · rw [h, List.singleton_append]
    conv_lhs => unfold stringBody
    rw [if_neg hquote, if_neg hslash, if_neg hcontrol]
  · rw [h]
    exact stringBody_unicode (fun u => unicodeEscape_hex hplane u hrest) opening fuel done
  · rw [h, List.append_assoc]
    exact stringBody_unicode (fun u => unicodeEscape_halves hn u hrest) opening fuel done

theorem stringChar_ne_nil (c : Char) : stringChar true c ≠ [] := by
  rcases stringChar_cases c with ⟨e, h, -⟩ | ⟨h, -⟩ | ⟨h, -⟩ | ⟨n, -, h⟩ <;> rw [h] <;>
    exact List.cons_ne_nil _ _

theorem length_le_flatMap_stringChar (cs : List Char) :
    cs.length ≤ (cs.flatMap (stringChar true)).length := by
  induction cs with
  | nil => exact Nat.le_refl 0
  | cons c cs ih =>
    have hpos := List.length_pos_iff.2 (stringChar_ne_nil c)
    rw [List.flatMap_cons, List.length_append, List.length_cons]
    omega

/-- A quoted string is read back, whatever follows it. -/
theorem string_quote (s : String) (rest : List Char) :
    string (s.toList.flatMap (stringChar true) ++ '"' :: rest) = .ok (s, rest) := by
  have hbody : ∀ (cs done opening : List Char) (fuel : Nat), cs.length ≤ fuel →
      stringBody opening (fuel + 1) done (cs.flatMap (stringChar true) ++ '"' :: rest) =
        .ok (String.ofList (done.reverse ++ cs), rest) := by
    intro cs
    induction cs with
    | nil =>
      intro done opening fuel _
      simp [stringBody]
    | cons c cs ih =>
      intro done opening fuel hfuel
      obtain ⟨fuel, rfl⟩ : ∃ n, fuel = n + 1 := ⟨fuel - 1, by simp at hfuel; omega⟩
      rw [List.flatMap_cons, List.append_assoc, stringBody_stringChar _ _ _ _ (by simp),
        ih _ _ _ (by simpa using hfuel), List.reverse_cons, List.append_assoc,
        List.singleton_append]
  have hlength := length_le_flatMap_stringChar s.toList
  rw [string, hbody _ _ _ _ (by rw [List.length_append]; omega), List.reverse_nil, List.nil_append,
    String.ofList_toList]

theorem toList_quote (s : String) :
    (quote true s).toList = '"' :: (s.toList.flatMap (stringChar true) ++ ['"']) := by
  rw [quote, String.toList_ofList, List.cons_append]

/-- Quoted strings with something behind them are told apart. -/
theorem quote_append_inj {s t : String} {rest rest' : List Char}
    (h : (quote true s).toList ++ rest = (quote true t).toList ++ rest') :
    s = t ∧ rest = rest' := by
  rw [toList_quote, toList_quote, List.cons_append, List.cons_append, List.append_assoc,
    List.append_assoc] at h
  have hread := string_quote s rest
  have hread' := string_quote t rest'
  rw [← List.singleton_append, (List.cons.inj h).2, List.singleton_append, hread'] at hread
  exact Prod.mk.inj (Except.ok.inj hread.symm)

theorem quote_inj {s t : String} (h : quote true s = quote true t) : s = t := by
  have happend := congrArg (fun q : String => q.toList ++ []) h
  exact (quote_append_inj happend).1

end Json

end CrateBook
