import CrateBook.Proofs.Decimals
import CrateBook.Proofs.OptionPlaces
import CrateBook.Proofs.Scripts
import CrateBook.Setting.Canonical
import Mathlib.Data.List.Forall2

/-!
# What a fingerprint tells

The canonical text of a setting is one value of JSON. That of a mapping tells its members but for
their order, each by the text of its key and the canonical text of its value. So the fingerprint of
a configuration tells the canonical text of every place that options are read from, unless two
canonical texts have one digest.
-/
namespace CrateBook

theorem Checked.forall₂_of_mapM {α β : Type} {f : α → Checked β} {as : List α} {bs : List β}
    (h : as.mapM f = .ok bs) : List.Forall₂ (fun a b => f a = .ok b) as bs := by
  induction as generalizing bs with
  | nil =>
    cases h
    exact .nil
  | cons a as ih =>
    rw [List.mapM_cons] at h
    obtain ⟨b, hb, h⟩ := Except.bind_eq_ok.1 h
    obtain ⟨bs', hbs, h⟩ := Except.bind_eq_ok.1 h
    cases h
    exact .cons hb (ih hbs)

theorem forall₂_mem {α β : Type} {R : α → β → Prop} {as : List α} {bs : List β}
    (h : List.Forall₂ R as bs) : (∀ a ∈ as, ∃ b ∈ bs, R a b) ∧ ∀ b ∈ bs, ∃ a ∈ as, R a b := by
  induction h with
  | nil => exact ⟨List.forall_mem_nil _, List.forall_mem_nil _⟩
  | @cons a b as bs hab hrest ih =>
    refine ⟨List.forall_mem_cons.2 ⟨⟨b, List.mem_cons_self, hab⟩, fun a' ha' => ?_⟩,
      List.forall_mem_cons.2 ⟨⟨a, List.mem_cons_self, hab⟩, fun b' hb' => ?_⟩⟩
    · obtain ⟨b', hb', h⟩ := ih.1 a' ha'
      exact ⟨b', List.mem_cons_of_mem _ hb', h⟩
    · obtain ⟨a', ha', h⟩ := ih.2 b' hb'
      exact ⟨a', List.mem_cons_of_mem _ ha', h⟩

namespace Scalar

open Decimal (isNumeral)

theorem isWordChar_of_isNumeral {c : Char} (h : isNumeral c = true) : Json.isWordChar c = true := by
  have hmarks : ['"', '[', ']', '\x7b', '\x7d', ',', ':'].any isNumeral = false := by decide
  rw [Json.isWordChar, Bool.not_eq_true', Bool.eq_false_iff, Ne, List.contains_iff_mem]
  exact fun hmem => Bool.false_ne_true (hmarks.symm.trans (List.any_eq_true.2 ⟨c, hmem, h⟩))

/-- How the words of canonical texts are spelled elsewhere. -/
def spellings : List (String × String) :=
  [("null", "None"), ("true", "True"), ("false", "False"), ("NaN", "nan"), ("Infinity", "inf"),
   ("-Infinity", "-inf")]

/-- The text of what is canonically written as a word or number. -/
def spelled (word : String) : String := (spellings.lookup word).getD word

/-- Numbers are spelled as they are. -/
theorem spelled_of_numerals {t : String} (h : ∀ c ∈ t.toList, isNumeral c = true) :
    spelled t = t := by
  have hwords : ∀ p ∈ spellings, p.1.toList.all isNumeral = false := by decide
  rw [spelled, List.lookup_eq_none_iff.2 fun p hp => ?_]
  · rfl
  · rw [bne_iff_ne]
    rintro rfl
    exact Bool.false_ne_true ((hwords p hp).symm.trans (List.all_eq_true.2 h))

/-- A float is written without marks. -/
theorem canonical_float (x : Float) :
    (Decimal.text Json.floatWords x).toList.all Json.isWordChar = true ∧
      Decimal.text Value.floatWords x = spelled (Decimal.text Json.floatWords x) := by
  cases hzero : x == 0 with
  | true =>
    obtain ⟨sign, hsign, htext⟩ := Decimal.text_of_eq_zero hzero
    have hsigns : ∀ sign ∈ Decimal.signs,
        (sign ++ "0.0").toList.all Json.isWordChar = true ∧
          sign ++ "0.0" = spelled (sign ++ "0.0") := by decide
    rw [htext, htext]
    exact hsigns sign hsign
  | false =>
    rcases Decimal.text_of_ne_zero hzero with hnan | ⟨sign, hsign, hinfinity⟩ | ⟨t, ht, htext⟩
    · rw [hnan, hnan]
      decide
    · have hsigns : ∀ sign ∈ Decimal.signs,
          (sign ++ Json.floatWords.infinity).toList.all Json.isWordChar = true ∧
            sign ++ Value.floatWords.infinity = spelled (sign ++ Json.floatWords.infinity) := by
        decide
      rw [hinfinity, hinfinity]
      exact hsigns sign hsign
    · rw [htext, htext]
      exact ⟨List.all_eq_true.2 fun c hc => isWordChar_of_isNumeral (ht.1 c hc),
        (spelled_of_numerals ht.1).symm⟩

/-- A scalar is written as its text between quotes, or as a word or number that tells its
text. -/
theorem canonical_cases {s : Scalar} {t : String} (h : s.canonical = .ok t) :
    t = Json.quote true s.text ∨
      (t.toList ≠ [] ∧ t.toList.all Json.isWordChar = true) ∧ s.text = spelled t := by
  cases s with
  | null =>
    cases h
    exact .inr (by decide)
  | bool b =>
    cases b <;> cases h <;> exact .inr (by decide)
  | int n =>
    rw [canonical] at h
    split at h <;> cases h
    have hnumerals := Decimal.isNumeral_of_mem_toString n
    refine .inr ⟨⟨?_, List.all_eq_true.2 fun c hc => isWordChar_of_isNumeral (hnumerals c hc)⟩,
      (spelled_of_numerals hnumerals).symm⟩
    rw [Decimal.toList_toString]
    exact List.append_ne_nil_of_right_ne_nil _ Nat.toDigits_ne_nil
  | float x =>
    cases h
    refine .inr ⟨⟨?_, (canonical_float x).1⟩, (canonical_float x).2⟩
    exact mt String.toList_eq_nil_iff.1 (Decimal.text_ne_empty (by decide) (by decide) x)
  | str s => exact .inl (Except.ok.inj h).symm
  | date d => exact .inl (Except.ok.inj h).symm
  | moment m => exact .inl (Except.ok.inj h).symm
  | bytes bs => exact .inl (Except.ok.inj h).symm

end Scalar

namespace Setting

open Json (Script listText objectText)

/-- Induction over a setting: one with parts may rely on what holds of these. -/
theorem induction_parts {P : Setting → Prop} (scalar : ∀ s, P (.scalar s))
    (list : ∀ vs, (∀ v ∈ vs, P v) → P (.list vs))
    (mapping : ∀ es : Entries, (∀ e ∈ es, P e.2) → P (.mapping es)) (set : ∀ ks, P (.set ks))
    (pair : ∀ v w, P v → P w → P (.pair v w)) (endless : ∀ kind literal, P (.endless kind literal))
    (v : Setting) : P v := by
  refine @Setting.rec P (fun vs => ∀ v ∈ vs, P v) (fun es => ∀ e ∈ es, P e.2) (fun e => P e.2)
    scalar list mapping set pair endless ?_ ?_ ?_ ?_ ?_ v
  · exact List.forall_mem_nil _
  · exact fun v vs hv hvs => List.forall_mem_cons.2 ⟨hv, hvs⟩
  · exact List.forall_mem_nil _
  · exact fun e es he hes => List.forall_mem_cons.2 ⟨he, hes⟩
  · exact fun k v hv => hv

/-- The member that an entry is written as. -/
def IsMember (e : Scalar × Setting) (m : String × String) : Prop :=
  e.1.keyText = .ok m.1 ∧ e.2.canonical = .ok m.2

theorem canonicalEntries_eq (es : Entries) :
    canonicalEntries es = es.map fun e => (e.1, e.2.canonical) := by
  induction es with
  | nil => rfl
  | cons e es ih => rw [canonicalEntries, ih, List.map_cons]

theorem canonicals_eq (vs : List Setting) : canonicals vs = vs.mapM canonical := by
  induction vs with
  | nil => rfl
  | cons v vs ih => rw [canonicals, List.mapM_cons, ih]

theorem canonical_list {vs : List Setting} {t : String} (h : (list vs).canonical = .ok t) :
    ∃ ts, List.Forall₂ (fun v t => v.canonical = .ok t) vs ts ∧
      t.toList = listText (ts.map String.toList) := by
  rw [canonical] at h
  obtain ⟨ts, hts, h⟩ := Except.bind_eq_ok.1 h
  cases h
  rw [canonicals_eq] at hts
  refine ⟨ts, Checked.forall₂_of_mapM hts, ?_⟩
  simp [listText, String.toList_intercalate]

theorem canonical_pair {v w : Setting} {t : String} (h : (pair v w).canonical = .ok t) :
    ∃ s u, v.canonical = .ok s ∧ w.canonical = .ok u ∧
      t.toList = listText [s.toList, u.toList] := by
  rw [canonical] at h
  obtain ⟨s, hs, h⟩ := Except.bind_eq_ok.1 h
  obtain ⟨u, hu, h⟩ := Except.bind_eq_ok.1 h
  cases h
  exact ⟨s, u, hs, hu, by simp [listText]⟩

theorem canonical_set {ks : List Scalar} {t : String} (h : (set ks).canonical = .ok t) :
    t = Json.quote true (setLiteral ks) := by
  rw [canonical] at h
  split at h <;> cases h
  rfl

def memberOf (m : String × String) : String := Json.quote true m.1 ++ ":" ++ m.2

/-- The members that entries are written as, one by one. -/
theorem exists_members {ms : List (Scalar × Checked String)} {parts : List String}
    (h : ms.mapM (fun m => do
      let key := Json.quote true (← m.1.keyText)
      return key ++ ":" ++ (← m.2)) = Except.ok parts) :
    ∃ qs, parts = qs.map memberOf ∧
      List.Forall₂ (fun m q => m.1.keyText = .ok q.1 ∧ m.2 = .ok q.2) ms qs := by
  induction ms generalizing parts with
  | nil =>
    cases h
    exact ⟨[], rfl, .nil⟩
  | cons m ms ih =>
    rw [List.mapM_cons] at h
    obtain ⟨part, hpart, h⟩ := Except.bind_eq_ok.1 h
    obtain ⟨parts', hparts, h⟩ := Except.bind_eq_ok.1 h
    obtain ⟨key, hkey, hpart⟩ := Except.bind_eq_ok.1 hpart
    obtain ⟨value, hvalue, hpart⟩ := Except.bind_eq_ok.1 hpart
    obtain ⟨qs, rfl, hqs⟩ := ih hparts
    cases h
    cases hpart
    exact ⟨(key, value) :: qs, rfl, .cons ⟨hkey, hvalue⟩ hqs⟩

/-- A mapping is written as its members in some order. -/
theorem canonical_mapping {es : Entries} {t : String} (h : (mapping es).canonical = .ok t) :
    Scalar.sortable (es.map (·.1)) = true ∧ ∃ ms : List (String × String),
      t.toList = objectText (ms.map fun m => (m.1, m.2.toList)) ∧
        (∀ m, m ∈ ms ↔ ∃ e ∈ es, IsMember e m) ∧ ∀ e ∈ es, ∃ m, IsMember e m := by
  rw [canonical, canonicalEntries_eq] at h
  unfold canonicalMembers at h
  split at h
  · next hsortable =>
    obtain ⟨parts, hparts, h⟩ := Except.bind_eq_ok.1 h
    obtain ⟨ms, rfl, hms⟩ := exists_members hparts
    cases h
    have hperm := KeyOrder.sorted_perm (fun a b => a.1.keyLt b.1)
      (es.map fun e => (e.1, e.2.canonical))
    refine ⟨by simpa [Function.comp_def] using hsortable, ms, ?_, fun m => ⟨fun hm => ?_, ?_⟩, ?_⟩
    · simp [objectText, String.toList_intercalate, Function.comp_def, Json.memberText, memberOf]
    · obtain ⟨l, hl, hlm⟩ := (forall₂_mem hms).2 m hm
      obtain ⟨e, he, rfl⟩ := List.mem_map.1 (hperm.mem_iff.1 hl)
      exact ⟨e, he, hlm⟩
    · rintro ⟨e, he, hem⟩
      obtain ⟨q, hq, heq⟩ := (forall₂_mem hms).1 _ (hperm.mem_iff.2 (List.mem_map_of_mem he))
      obtain rfl : m = q := Prod.ext (Except.ok.inj (hem.1.symm.trans heq.1))
        (Except.ok.inj (hem.2.symm.trans heq.2))
      exact hq
    · intro e he
      obtain ⟨q, -, heq⟩ := (forall₂_mem hms).1 _ (hperm.mem_iff.2 (List.mem_map_of_mem he))
      exact ⟨q, heq⟩
  · cases h

/-- A canonical text is one value. -/
theorem script_canonical (v : Setting) {t : String} (h : v.canonical = .ok t) :
    Script t.toList := by
  induction v using induction_parts generalizing t with
  | scalar s =>
    rcases Scalar.canonical_cases h with rfl | ⟨⟨hne, hword⟩, -⟩
    · exact .text s.text
    · exact .word hne (List.all_eq_true.1 hword)
  | list vs ih =>
    obtain ⟨ts, hts, ht⟩ := canonical_list h
    rw [ht]
    refine .list (List.forall_mem_map.2 fun u hu => ?_)
    obtain ⟨v, hv, hvu⟩ := (forall₂_mem hts).2 u hu
    exact ih v hv hvu
  | mapping es ih =>
    obtain ⟨-, ms, ht, hms, -⟩ := canonical_mapping h
    rw [ht]
    refine .object (List.forall_mem_map.2 fun m hm => ?_)
    obtain ⟨e, he, hem⟩ := (hms m).1 hm
    exact ih e he hem.2
  | set ks =>
    rw [canonical_set h]
    exact .text _
  | pair v w ihv ihw =>
    obtain ⟨s, u, hs, hu, ht⟩ := canonical_pair h
    rw [ht]
    refine .list ?_
    rw [List.forall_mem_cons, List.forall_mem_singleton]
    exact ⟨ihv hs, ihw hu⟩
  | endless kind literal => cases h

theorem script_elements {vs : List Setting} {ts : List String}
    (h : List.Forall₂ (fun v t => v.canonical = .ok t) vs ts) :
    ∀ t ∈ ts.map String.toList, Script t := by
  refine List.forall_mem_map.2 fun u hu => ?_
  obtain ⟨v, -, hv⟩ := (forall₂_mem h).2 u hu
  exact script_canonical v hv

theorem script_parts {v w : Setting} {s t : String} (hv : v.canonical = .ok s)
    (hw : w.canonical = .ok t) : ∀ u ∈ [s.toList, t.toList], Script u := by
  rw [List.forall_mem_cons, List.forall_mem_singleton]
  exact ⟨script_canonical v hv, script_canonical w hw⟩

theorem script_members {es : Entries} {ms : List (String × String)}
    (h : ∀ m, m ∈ ms ↔ ∃ e ∈ es, IsMember e m) :
    ∀ m ∈ ms.map fun m => (m.1, m.2.toList), Script m.2 := by
  refine List.forall_mem_map.2 fun m hm => ?_
  obtain ⟨e, -, he⟩ := (h m).1 hm
  exact script_canonical e.2 he.2

end Setting

end CrateBook
