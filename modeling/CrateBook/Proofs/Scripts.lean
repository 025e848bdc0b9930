import CrateBook.Proofs.Quotes
import Mathlib.Data.List.Basic

/-!
# JSON on one line

A value on one line is a word, a quoted string, or parts between brackets with commas between
them. Where it ends can be told from what follows it, so a list tells its elements and an object
its members.
-/
namespace CrateBook.Json

/-- A character of a word or number: none of the marks around and between values. -/
def isWordChar (c : Char) : Bool := !List.contains ['"', '[', ']', '\x7b', '\x7d', ',', ':'] c

/-- A member of an object, its value already written. -/
def memberText (m : String × List Char) : List Char := (quote true m.1).toList ++ ':' :: m.2

/-- A list of elements that are already written. -/
def listText (ts : List (List Char)) : List Char := '[' :: ([','].intercalate ts ++ [']'])

/-- An object of members whose values are already written. -/
def objectText (ms : List (String × List Char)) : List Char :=
  '\x7b' :: ([','].intercalate (ms.map memberText) ++ ['\x7d'])

/-- A value on one line. -/
inductive Script : List Char → Prop
  | word {w : List Char} : w ≠ [] → (∀ c ∈ w, isWordChar c = true) → Script w
  | text (s : String) : Script (quote true s).toList
  | list {ts : List (List Char)} : (∀ t ∈ ts, Script t) → Script (listText ts)
  | object {ms : List (String × List Char)} : (∀ m ∈ ms, Script m.2) → Script (objectText ms)

/-- What follows a value: nothing, or a mark. -/
def EndsValue (rest : List Char) : Prop := ∀ c ∈ rest.head?, isWordChar c = false

/-- A text that is told from others of a kind by what follows them. -/
def Tells (kind : List Char → Prop) (s : List Char) : Prop :=
  ∀ t r r', kind t → EndsValue r → EndsValue r' → s ++ r = t ++ r' → s = t ∧ r = r'

/-- Parts behind others, with a comma in front of each. -/
def behind (close : List Char) : List (List Char) → List Char
  | [] => close
  | t :: ts => ',' :: (t ++ behind close ts)

theorem intercalate_append (t : List Char) (ts : List (List Char)) (close : List Char) :
    [','].intercalate (t :: ts) ++ close = t ++ behind close ts := by
  induction ts generalizing t with
  | nil => rw [List.intercalate_singleton, behind]
  | cons u us ih =>
    rw [List.intercalate_cons_cons, behind, List.append_assoc, ih]
    simp

section Parts

variable {kind : List Char → Prop} {close : Char} {ss ts : List (List Char)} {r r' : List Char}

theorem endsValue_behind (hclose : isWordChar close = false) :
    EndsValue (behind (close :: r) ss) := by
  intro c hc
  cases ss with
  | nil => obtain rfl := Option.mem_some.1 hc; exact hclose
  | cons s ss => obtain rfl := Option.mem_some.1 hc; rfl

theorem behind_inj (hclose : isWordChar close = false) (hcomma : close ≠ ',')
    (hs : ∀ s ∈ ss, Tells kind s) (ht : ∀ t ∈ ts, kind t)
    (h : behind (close :: r) ss = behind (close :: r') ts) : ss = ts ∧ r = r' := by
  induction ss generalizing ts with
  | nil =>
    cases ts with
    | nil => exact ⟨rfl, (List.cons.inj h).2⟩
    | cons t ts => exact absurd (List.cons.inj h).1 hcomma
  | cons s ss ih =>
    cases ts with
    | nil => exact absurd (List.cons.inj h).1.symm hcomma
    | cons t ts =>
      obtain ⟨rfl, hrest⟩ := hs s List.mem_cons_self t _ _ (ht t List.mem_cons_self)
        (endsValue_behind hclose) (endsValue_behind hclose) (List.cons.inj h).2
      obtain ⟨rfl, hr⟩ := ih (fun s hs' => hs s (List.mem_cons_of_mem _ hs'))
        (fun t ht' => ht t (List.mem_cons_of_mem _ ht')) hrest
      exact ⟨rfl, hr⟩

/-- Parts with commas between them are told up to their closing bracket. -/
theorem joined_inj (hclose : isWordChar close = false) (hcomma : close ≠ ',')
    (hkind : ∀ t, kind t → ∃ c cs, t = c :: cs ∧ c ≠ close)
    (hkinds : ∀ s ∈ ss, kind s) (hs : ∀ s ∈ ss, Tells kind s) (ht : ∀ t ∈ ts, kind t)
    (h : [','].intercalate ss ++ close :: r = [','].intercalate ts ++ close :: r') :
    ss = ts ∧ r = r' := by
  cases ss with
  | nil =>
    cases ts with
    | nil => exact ⟨rfl, (List.cons.inj h).2⟩
    | cons t ts =>
      obtain ⟨c, cs, rfl, hc⟩ := hkind t (ht t List.mem_cons_self)
      rw [intercalate_append] at h
      exact absurd (List.cons.inj h).1.symm hc
  | cons s ss =>
    cases ts with
    | nil =>
      obtain ⟨c, cs, rfl, hc⟩ := hkind s (hkinds s List.mem_cons_self)
      rw [intercalate_append] at h
      exact absurd (List.cons.inj h).1 hc
    | cons t ts =>
      rw [intercalate_append, intercalate_append] at h
      exact behind_inj hclose hcomma hs ht (congrArg (',' :: ·) h)

end Parts

/-- What a value starts with tells of which kind it is. -/
theorem Script.cases_head {s : List Char} (h : Script s) : ∃ c cs, s = c :: cs ∧
    ((isWordChar c = true ∧ ∀ d ∈ s, isWordChar d = true) ∨
      (c = '"' ∧ ∃ t, s = (quote true t).toList) ∨
      (c = '[' ∧ ∃ ts, s = listText ts ∧ ∀ t ∈ ts, Script t) ∨
      (c = '\x7b' ∧ ∃ ms, s = objectText ms ∧ ∀ m ∈ ms, Script m.2)) := by
  cases h with
  | word hne hw =>
    obtain ⟨c, cs, rfl⟩ := List.exists_cons_of_ne_nil hne
    exact ⟨c, cs, rfl, .inl ⟨hw c List.mem_cons_self, hw⟩⟩
  | text t => exact ⟨'"', _, toList_quote t, .inr (.inl ⟨rfl, t, rfl⟩)⟩
  | @list ts hts => exact ⟨'[', _, rfl, .inr (.inr (.inl ⟨rfl, ts, rfl, hts⟩))⟩
  | @object ms hms => exact ⟨'\x7b', _, rfl, .inr (.inr (.inr ⟨rfl, ms, rfl, hms⟩))⟩

/-- No value starts with a closing bracket. -/
theorem Script.ne_of_head {close : Char} (hclose : isWordChar close = false)
    (hopen : close ∉ ['"', '[', '\x7b']) {s : List Char} (h : Script s) :
    ∃ c cs, s = c :: cs ∧ c ≠ close := by
  obtain ⟨c, cs, rfl, hc⟩ := h.cases_head
  refine ⟨c, cs, rfl, ?_⟩
  rintro rfl
  simp only [List.mem_cons, List.not_mem_nil, or_false, not_or] at hopen
  rcases hc with ⟨hword, -⟩ | ⟨hc, -⟩ | ⟨hc, -⟩ | ⟨hc, -⟩
  · rw [hword] at hclose
    cases hclose
  · exact hopen.1 hc
  · exact hopen.2.1 hc
  · exact hopen.2.2 hc

theorem takeWhile_append_word {w rest : List Char} (hw : ∀ c ∈ w, isWordChar c = true)
    (hrest : EndsValue rest) : (w ++ rest).takeWhile isWordChar = w := by
  rw [List.takeWhile_append_of_pos hw]
  cases rest with
  | nil => simp
  | cons c cs => rw [List.takeWhile_cons_of_neg (by simp [hrest c rfl]), List.append_nil]

/-- A member of an object. -/
def IsMember (t : List Char) : Prop := ∃ m, t = memberText m ∧ Script m.2

theorem isMember_head (t : List Char) (h : IsMember t) : ∃ c cs, t = c :: cs ∧ c ≠ '\x7d' := by
  obtain ⟨m, rfl, -⟩ := h
  exact ⟨'"', _, by rw [memberText, toList_quote]; rfl, by decide⟩

theorem isMember_of_mem {ms : List (String × List Char)} (h : ∀ m ∈ ms, Script m.2) :
    ∀ t ∈ ms.map memberText, IsMember t :=
  List.forall_mem_map.2 fun m hm => ⟨m, rfl, h m hm⟩

theorem tells_memberText {m : String × List Char} (h : Tells Script m.2) :
    Tells IsMember (memberText m) := by
  rintro t r r' ⟨n, rfl, hn⟩ hr hr' heq
  unfold memberText at heq ⊢
  rw [List.append_assoc, List.append_assoc] at heq
  obtain ⟨hkey, hrest⟩ := quote_append_inj heq
  obtain ⟨hvalue, hr⟩ := h n.2 r r' hn hr hr' (List.cons.inj hrest).2
  rw [hkey, hvalue]
  exact ⟨rfl, hr⟩

/-- Where a value ends can be told. -/
theorem Script.tells {s : List Char} (h : Script s) : Tells Script s := by
  induction h with
  | word hne hw =>
    intro t r r' ht hr hr' heq
    obtain ⟨c, cs, rfl⟩ := List.exists_cons_of_ne_nil hne
    obtain ⟨d, ds, rfl, hd⟩ := ht.cases_head
    obtain rfl : c = d := (List.cons.inj heq).1
    have hc := hw c List.mem_cons_self
    have hword : ∀ e ∈ c :: ds, isWordChar e = true := by
      rcases hd with ⟨-, hword⟩ | ⟨rfl, -⟩ | ⟨rfl, -⟩ | ⟨rfl, -⟩
      · exact hword
      all_goals cases hc
    have htake := takeWhile_append_word hw hr
    rw [heq, takeWhile_append_word hword hr'] at htake
    rw [htake] at heq ⊢
    exact ⟨rfl, List.append_cancel_left heq⟩
  | text u =>
    intro t r r' ht hr hr' heq
    obtain ⟨d, ds, rfl, hd⟩ := ht.cases_head
    rw [toList_quote] at heq
    obtain rfl : '"' = d := (List.cons.inj heq).1
    obtain ⟨v, hv⟩ : ∃ v, '"' :: ds = (quote true v).toList := by simpa [isWordChar] using hd
    rw [hv] at heq ⊢
    rw [← toList_quote] at heq
    obtain ⟨rfl, hr⟩ := quote_append_inj heq
    exact ⟨rfl, hr⟩
  | @list ts hts ih =>
    intro t r r' ht hr hr' heq
    obtain ⟨d, ds, rfl, hd⟩ := ht.cases_head
    obtain rfl : '[' = d := (List.cons.inj heq).1
    obtain ⟨us, hus, hu⟩ : ∃ us, '[' :: ds = listText us ∧ ∀ u ∈ us, Script u := by
      simpa [isWordChar] using hd
    rw [hus] at heq ⊢
    unfold listText at heq ⊢
    rw [List.cons_append, List.cons_append, List.append_assoc, List.append_assoc] at heq
    obtain ⟨rfl, hr⟩ := joined_inj rfl (by decide)
      (fun t ht => Script.ne_of_head rfl (by decide) ht) hts ih hu (List.cons.inj heq).2
    exact ⟨rfl, hr⟩
  | @object ms hms ih =>
    intro t r r' ht hr hr' heq
    obtain ⟨d, ds, rfl, hd⟩ := ht.cases_head
    obtain rfl : '\x7b' = d := (List.cons.inj heq).1
    obtain ⟨ns, hns, hn⟩ : ∃ ns, '\x7b' :: ds = objectText ns ∧ ∀ n ∈ ns, Script n.2 := by
      simpa [isWordChar] using hd
    rw [hns] at heq ⊢
    unfold objectText at heq ⊢
    rw [List.cons_append, List.cons_append, List.append_assoc, List.append_assoc] at heq
    obtain ⟨hmap, hr⟩ := joined_inj rfl (by decide) isMember_head (isMember_of_mem hms)
      (List.forall_mem_map.2 fun m hm => tells_memberText (ih m hm)) (isMember_of_mem hn)
      (List.cons.inj heq).2
    rw [hmap]
    exact ⟨rfl, hr⟩

/-- Lists with the same text have the same elements. -/
theorem listText_inj {ts us : List (List Char)} (ht : ∀ t ∈ ts, Script t)
    (hu : ∀ u ∈ us, Script u) (h : listText ts = listText us) : ts = us :=
  (joined_inj rfl (by decide) (fun t ht => Script.ne_of_head rfl (by decide) ht) ht
    (fun t h => (ht t h).tells) hu (List.cons.inj h).2).1

theorem memberText_injective : Function.Injective memberText := by
  intro m n h
  obtain ⟨hkey, hrest⟩ := quote_append_inj h
  exact Prod.ext hkey (List.cons.inj hrest).2

/-- Objects with the same text have the same members. -/
theorem objectText_inj {ms ns : List (String × List Char)} (hm : ∀ m ∈ ms, Script m.2)
    (hn : ∀ n ∈ ns, Script n.2) (h : objectText ms = objectText ns) : ms = ns :=
  List.map_injective_iff.2 memberText_injective
    (joined_inj rfl (by decide) isMember_head (isMember_of_mem hm)
      (List.forall_mem_map.2 fun m h => tells_memberText (hm m h).tells) (isMember_of_mem hn)
      (List.cons.inj h).2).1

end CrateBook.Json
