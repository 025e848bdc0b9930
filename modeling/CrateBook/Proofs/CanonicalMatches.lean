import CrateBook.Proofs.Fingerprints

/-!
# Settings with one canonical text

Two settings match if they have the same canonical text. Then the one holds something if the other
does, but for empty bytes and the empty set, which are written like texts that are not empty.
Scalars and sets that match have the same text. Mappings that match have matching values at the
keys that are texts, as long as there are such keys.
-/
namespace CrateBook

namespace Scalar

/-- Only the empty text has no characters. -/
theorem text_ne_empty {s : Scalar} (h : s ≠ .str "") : s.text ≠ "" := by
  cases s with
  | null => decide
  | bool b => cases b <;> decide
  | int n =>
    intro hempty
    have hlist := Decimal.toList_toString n
    rw [show toString n = "" from hempty] at hlist
    exact List.append_ne_nil_of_right_ne_nil _ Nat.toDigits_ne_nil hlist.symm
  | float x => exact Decimal.text_ne_empty (by decide) (by decide) x
  | str s => exact fun hempty => h (congrArg str hempty)
  | date d => simp [text, Date.text]
  | moment m => simp [text, Moment.text]
  | bytes bs => simp [text, literal, quotedBytes]

end Scalar

namespace Setting

open Json (Script listText objectText)

variable {v w : Setting} {es fs : Entries}

/-- Two settings have the same canonical text. -/
def Matches (v w : Setting) : Prop := ∃ t, v.canonical = .ok t ∧ w.canonical = .ok t

theorem Matches.symm (h : v.Matches w) : w.Matches v := by
  obtain ⟨t, hv, hw⟩ := h
  exact ⟨t, hw, hv⟩

/-! ## What settings start with -/

/-- The canonical text of the setting can start with this character. -/
def opens (v : Setting) (c : Char) : Bool :=
  match v with
  | scalar _ => c == '"' || Json.isWordChar c
  | list _ => c == '['
  | mapping _ => c == '\x7b'
  | set _ => c == '"'
  | pair _ _ => c == '['
  | endless _ _ => false

theorem exists_opens {t : String} (h : v.canonical = .ok t) :
    ∃ c, t.toList.head? = some c ∧ v.opens c = true := by
  cases v with
  | scalar s =>
    rcases Scalar.canonical_cases h with rfl | ⟨⟨hne, hword⟩, -⟩
    · exact ⟨'"', congrArg List.head? (Json.toList_quote s.text), rfl⟩
    · obtain ⟨c, cs, hcs⟩ := List.exists_cons_of_ne_nil hne
      rw [hcs] at hword ⊢
      exact ⟨c, rfl, Bool.or_eq_true_iff.2 (.inr (List.all_eq_true.1 hword c List.mem_cons_self))⟩
  | list vs =>
    obtain ⟨ts, -, ht⟩ := canonical_list h
    exact ⟨'[', congrArg List.head? ht, rfl⟩
  | mapping es =>
    obtain ⟨-, ms, ht, -⟩ := canonical_mapping h
    exact ⟨'\x7b', congrArg List.head? ht, rfl⟩
  | set ks =>
    rw [canonical_set h]
    exact ⟨'"', congrArg List.head? (Json.toList_quote _), rfl⟩
  | pair a b =>
    obtain ⟨s, u, -, -, ht⟩ := canonical_pair h
    exact ⟨'[', congrArg List.head? ht, rfl⟩
  | endless kind literal => cases h

/-- Settings that match can start with the same character. -/
theorem Matches.opens (h : v.Matches w) : ∃ c, v.opens c = true ∧ w.opens c = true := by
  obtain ⟨t, hv, hw⟩ := h
  obtain ⟨c, hc, hvc⟩ := exists_opens hv
  obtain ⟨d, hd, hwd⟩ := exists_opens hw
  obtain rfl : c = d := Option.some.inj (hc.symm.trans hd)
  exact ⟨c, hvc, hwd⟩

/-- Only a mapping matches a mapping. -/
theorem Matches.exists_mapping (h : (mapping es).Matches w) : ∃ fs, w = mapping fs := by
  obtain ⟨c, hc, hw⟩ := h.opens
  obtain rfl := eq_of_beq hc
  cases w with
  | mapping fs => exact ⟨fs, rfl⟩
  | _ => cases hw

/-- The entries that settings that match show are those of two mappings, or none. -/
theorem Matches.shown_cases (h : v.Matches w) :
    (∃ es fs, v = mapping es ∧ w = mapping fs) ∨ (v.shown = [] ∧ w.shown = []) := by
  by_cases hv : ∃ es, v = mapping es
  · obtain ⟨es, rfl⟩ := hv
    obtain ⟨fs, rfl⟩ := h.exists_mapping
    exact .inl ⟨es, fs, rfl, rfl⟩
  · have hw : ¬ ∃ fs, w = mapping fs := by
      rintro ⟨fs, rfl⟩
      exact hv h.symm.exists_mapping
    exact .inr ⟨shown_eq_nil hv, shown_eq_nil hw⟩

/-! ## What settings hold -/

/-- The canonical texts of what holds nothing. -/
def unsetTexts : List String := ["null", "false", "0", "0.0", "-0.0", "\"\"", "[]", "\x7b\x7d"]

/-- The canonical text tells whether the setting holds something. -/
def isDefinite : Setting → Bool
  | scalar (.bytes []) => false
  | set [] => false
  | _ => true

/-- Of what is quoted or has brackets, only the empty ones are such texts. -/
theorem mem_unsetTexts_iff {t e : String} (he : e ∈ ["\"\"", "[]", "\x7b\x7d"])
    (hhead : t.toList.head? = e.toList.head?) : t ∈ unsetTexts ↔ t = e := by
  have hempty : ∀ e ∈ ["\"\"", "[]", "\x7b\x7d"], e ∈ unsetTexts ∧
      ∀ u ∈ unsetTexts, u.toList.head? = e.toList.head? → u = e := by decide
  constructor
  · exact fun ht => (hempty e he).2 t ht hhead
  · rintro rfl
    exact (hempty t he).1

theorem quote_mem_unsetTexts {s : String} : Json.quote true s ∈ unsetTexts ↔ s = "" := by
  have hempty : "\"\"" = Json.quote true "" := by decide
  have hhead : (Json.quote true s).toList.head? = "\"\"".toList.head? := by
    rw [Json.toList_quote]
    rfl
  rw [mem_unsetTexts_iff (by decide) hhead, hempty]
  exact ⟨Json.quote_inj, congrArg _⟩

theorem notMem_unsetTexts {t : String} (h : Decimal.Writes t) : t ∉ unsetTexts := by
  have hzeros : ∀ t ∈ unsetTexts, t.toList.all Decimal.isNumeral = true →
      t.toList.all (fun c => !c.isDigit || c == '0') = true := by decide
  intro hmem
  obtain ⟨hnumerals, c, hc, hdigit, hne⟩ := h
  have hzero := List.all_eq_true.1 (hzeros t hmem (List.all_eq_true.2 hnumerals)) c hc
  simp [hdigit, hne] at hzero

/-- Of all floats, zeros are written like something that is not set. -/
theorem floatText_mem_unsetTexts {x : Float} :
    Decimal.text Json.floatWords x ∈ unsetTexts ↔ (x == 0) = true := by
  have hsigns : ∀ sign ∈ Decimal.signs,
      sign ++ "0.0" ∈ unsetTexts ∧ sign ++ Json.floatWords.infinity ∉ unsetTexts := by decide
  cases hzero : x == 0 with
  | true =>
    obtain ⟨sign, hsign, htext⟩ := Decimal.text_of_eq_zero hzero
    simp [htext, (hsigns sign hsign).1]
  | false =>
    refine iff_of_false ?_ Bool.false_ne_true
    rcases Decimal.text_of_ne_zero hzero with hnan | ⟨sign, hsign, hinfinity⟩ | ⟨t, ht, htext⟩
    · rw [hnan]
      decide
    · rw [hinfinity]
      exact (hsigns sign hsign).2
    · rw [htext]
      exact notMem_unsetTexts ht

/-- A scalar is written like something that is not set just if it is not set itself. -/
theorem isSet_scalar_iff {s : Scalar} {t : String} (hs : s ≠ .bytes []) (h : s.canonical = .ok t) :
    s.isSet = false ↔ t ∈ unsetTexts := by
  have hquote (hset : s.isSet = true) (htext : t = Json.quote true s.text) :
      s.isSet = false ↔ t ∈ unsetTexts := by
    rw [hset, htext, quote_mem_unsetTexts]
    refine iff_of_false Bool.false_ne_true.symm (Scalar.text_ne_empty ?_)
    rintro rfl
    cases hset
  cases s with
  | null =>
    cases h
    decide
  | bool b =>
    cases b <;> cases h <;> decide
  | int n =>
    rw [Scalar.canonical] at h
    split at h <;> cases h
    by_cases hn : n = 0
    · subst hn
      decide
    · have hset : (Scalar.int n).isSet = true := bne_iff_ne.2 hn
      exact iff_of_false (Bool.eq_false_iff.not_left.2 hset)
        (notMem_unsetTexts (Decimal.writes_toString hn))
  | float x =>
    cases h
    rw [floatText_mem_unsetTexts]
    simp [Scalar.isSet, bne]
  | str s =>
    cases h
    rw [Scalar.text, quote_mem_unsetTexts]
    simp [Scalar.isSet]
  | date d => exact hquote rfl (Except.ok.inj h).symm
  | moment m => exact hquote rfl (Except.ok.inj h).symm
  | bytes bs =>
    refine hquote ?_ (Except.ok.inj h).symm
    cases bs with
    | nil => exact absurd rfl hs
    | cons b bs => rfl

theorem listText_mem_unsetTexts {t : String} {ts : List (List Char)}
    (ht : t.toList = listText ts) (hts : ∀ u ∈ ts, Script u) : t ∈ unsetTexts ↔ ts = [] := by
  have hhead : t.toList.head? = "[]".toList.head? := by
    rw [ht]
    rfl
  rw [mem_unsetTexts_iff (by decide) hhead, ← String.toList_inj, ht]
  exact ⟨Json.listText_inj hts (List.forall_mem_nil _), congrArg listText⟩

theorem objectText_mem_unsetTexts {t : String} {ms : List (String × List Char)}
    (ht : t.toList = objectText ms) (hms : ∀ m ∈ ms, Script m.2) : t ∈ unsetTexts ↔ ms = [] := by
  have hhead : t.toList.head? = "\x7b\x7d".toList.head? := by
    rw [ht]
    rfl
  rw [mem_unsetTexts_iff (by decide) hhead, ← String.toList_inj, ht]
  exact ⟨Json.objectText_inj hms (List.forall_mem_nil _), congrArg objectText⟩

/-- The canonical text of a definite setting tells whether it holds something. -/
theorem isSet_iff {t : String} (hv : v.isDefinite = true) (h : v.canonical = .ok t) :
    v.isSet = false ↔ t ∈ unsetTexts := by
  cases v with
  | scalar s =>
    refine isSet_scalar_iff ?_ h
    rintro rfl
    cases hv
  | list vs =>
    obtain ⟨ts, hts, ht⟩ := canonical_list h
    rw [listText_mem_unsetTexts ht (script_elements hts)]
    cases hts <;> simp [isSet]
  | mapping es =>
    obtain ⟨-, ms, ht, hms, hall⟩ := canonical_mapping h
    rw [objectText_mem_unsetTexts ht (script_members hms), List.map_eq_nil_iff, isSet]
    cases es with
    | nil => simpa [List.eq_nil_iff_forall_not_mem] using hms
    | cons e es =>
      obtain ⟨m, hm⟩ := hall e List.mem_cons_self
      have hmem := (hms m).2 ⟨e, List.mem_cons_self, hm⟩
      simpa using List.ne_nil_of_mem hmem
  | set ks =>
    rw [canonical_set h, quote_mem_unsetTexts, setLiteral, isSet]
    cases ks with
    | nil => cases hv
    | cons k ks => simp
  | pair a b =>
    obtain ⟨s, u, hs, hu, ht⟩ := canonical_pair h
    rw [listText_mem_unsetTexts ht (script_parts hs hu)]
    simp [isSet]
  | endless kind literal => cases h

/-- Of two definite settings that match, the one holds something if the other does. -/
theorem Matches.isSet_eq (h : v.Matches w) (hv : v.isDefinite = true) (hw : w.isDefinite = true) :
    v.isSet = w.isSet := by
  obtain ⟨t, hvt, hwt⟩ := h
  have hiff := (isSet_iff hv hvt).trans (isSet_iff hw hwt).symm
  cases hset : v.isSet with
  | true => exact (Bool.eq_true_of_not_eq_false fun hfalse => by simp [hset, hfalse] at hiff).symm
  | false => exact (hiff.1 hset).symm

/-! ## The texts of settings -/

/-- The setting is a scalar or a set. -/
def isPartless : Setting → Bool
  | scalar _ => true
  | set _ => true
  | _ => false

theorem canonical_partless {t : String} (hv : v.isPartless = true) (h : v.canonical = .ok t) :
    t = Json.quote true v.text ∨
      (t.toList ≠ [] ∧ t.toList.all Json.isWordChar = true) ∧ v.text = Scalar.spelled t := by
  cases v with
  | scalar s => exact Scalar.canonical_cases h
  | set ks => exact .inl (canonical_set h)
  | _ => cases hv

theorem not_word_quote {s : String} :
    ¬ (Json.quote true s).toList.all Json.isWordChar = true := by
  rw [Json.toList_quote, List.all_cons]
  exact Bool.false_ne_true

/-- Scalars and sets that match have the same text. -/
theorem Matches.text_eq (h : v.Matches w) (hv : v.isPartless = true) (hw : w.isPartless = true) :
    v.text = w.text := by
  obtain ⟨t, hvt, hwt⟩ := h
  rcases canonical_partless hv hvt with hquote | ⟨⟨-, hword⟩, hspelled⟩ <;>
    rcases canonical_partless hw hwt with hquote' | ⟨⟨-, hword'⟩, hspelled'⟩
  · exact Json.quote_inj (hquote.symm.trans hquote')
  · exact absurd (hquote ▸ hword') not_word_quote
  · exact absurd (hquote' ▸ hword) not_word_quote
  · rw [hspelled, hspelled']

/-! ## Mappings -/

theorem Matches.isMember_iff (h : (mapping es).Matches (mapping fs)) (m : String × String) :
    (∃ e ∈ es, IsMember e m) ↔ ∃ f ∈ fs, IsMember f m := by
  obtain ⟨t, hes, hfs⟩ := h
  obtain ⟨-, ms, ht, hms, -⟩ := canonical_mapping hes
  obtain ⟨-, ns, ht', hns, -⟩ := canonical_mapping hfs
  have hmap := Json.objectText_inj (script_members hms) (script_members hns) (ht.symm.trans ht')
  have hinj : Function.Injective fun m : String × String => (m.1, m.2.toList) := by
    intro m n heq
    exact Prod.ext (Prod.mk.inj heq).1 (String.toList_inj.1 (Prod.mk.inj heq).2)
  rw [← hms, ← hns, List.map_injective_iff.2 hinj hmap]

/-- Each entry of a mapping has one with the same key text and a matching value in a mapping that
matches. -/
theorem Matches.exists_entry (h : (mapping es).Matches (mapping fs)) {e : Scalar × Setting}
    (he : e ∈ es) :
    ∃ f ∈ fs, (∃ k, e.1.keyText = .ok k ∧ f.1.keyText = .ok k) ∧ e.2.Matches f.2 := by
  have hmembers := h.isMember_iff
  obtain ⟨t, hes, -⟩ := h
  obtain ⟨-, -, -, -, hall⟩ := canonical_mapping hes
  obtain ⟨m, hm⟩ := hall e he
  obtain ⟨f, hf, hfm⟩ := (hmembers m).1 ⟨e, he, hm⟩
  exact ⟨f, hf, ⟨m.1, hm.1, hfm.1⟩, m.2, hm.2, hfm.2⟩

def HasText (es : Entries) : Prop := ∃ e ∈ es, e.1.isText = true

/-- Keys of one kind can be sorted, so that all are texts if one is. -/
theorem isText_of_canonical {t : String} (h : (mapping es).canonical = .ok t) (htext : HasText es)
    {e : Scalar × Setting} (he : e ∈ es) : e.1.isText = true := by
  obtain ⟨hsortable, -⟩ := canonical_mapping h
  obtain ⟨f, hf, hftext⟩ := htext
  rw [Scalar.sortable, Bool.or_assoc, Bool.or_eq_true_iff, Bool.or_eq_true_iff, List.length_map,
    decide_eq_true_eq] at hsortable
  rcases hsortable with hone | htexts | hnumbers
  · obtain rfl : e = f := by
      match es, hone with
      | [g], _ => rw [List.mem_singleton.1 he, List.mem_singleton.1 hf]
    exact hftext
  · exact List.all_eq_true.1 htexts e.1 (List.mem_map_of_mem he)
  · have hnumber := List.all_eq_true.1 hnumbers f.1 (List.mem_map_of_mem hf)
    cases hk : f.1 <;> simp_all [Scalar.isText, Scalar.number?]

theorem Matches.exists_find? (h : (mapping es).Matches (mapping fs)) (hes : es.Keyed)
    (hfs : fs.Keyed) (htext : HasText fs) {key : String}
    (hv : Entries.find? es (.str key) = some v) :
    ∃ w, Entries.find? fs (.str key) = some w ∧ v.Matches w := by
  obtain ⟨⟨k, w⟩, hf, ⟨name, hname, hname'⟩, hmatch⟩ :=
    h.exists_entry (hes.find?_eq_some_iff.1 hv)
  obtain ⟨t, -, hfs'⟩ := h
  have hk : k.isText = true := isText_of_canonical hfs' htext hf
  cases k with
  | str other =>
    obtain rfl : key = other := (Except.ok.inj hname).trans (Except.ok.inj hname').symm
    exact ⟨w, hfs.find?_eq_some_iff.2 hf, hmatch⟩
  | _ => cases hk

/-- Mappings that match have matching values at each key that is a text, if they have such keys at
all. -/
theorem Matches.find? (h : (mapping es).Matches (mapping fs)) (hes : es.Keyed) (hfs : fs.Keyed)
    (htext : HasText es) (htext' : HasText fs) (key : String) :
    Option.Rel Matches (Entries.find? es (.str key)) (Entries.find? fs (.str key)) := by
  cases hv : Entries.find? es (.str key) with
  | some v =>
    obtain ⟨w, hw, hmatch⟩ := h.exists_find? hes hfs htext' hv
    rw [hw]
    exact .some hmatch
  | none =>
    cases hw : Entries.find? fs (.str key) with
    | none => exact .none
    | some w =>
      obtain ⟨v, hv', -⟩ := h.symm.exists_find? hfs hes htext hw
      rw [hv] at hv'
      cases hv'

end Setting

end CrateBook
