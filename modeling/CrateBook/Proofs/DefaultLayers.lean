import CrateBook.Proofs.CanonicalMatches

/-!
# Configurations over the defaults

The defaults have five sections, and a configuration over them has these sections too. One that is
still a mapping has the keys of the defaults. Of a list that is united with the one of the defaults,
the elements are texts, or one of them can not be written.
-/
namespace CrateBook

namespace Setting

variable {v : Setting}

theorem areWritable_eq (vs : List Setting) : areWritable vs = vs.all isWritable := by
  induction vs with
  | nil => rfl
  | cons v vs ih => rw [areWritable, ih, List.all_cons]

theorem areEntriesWritable_eq (es : Entries) :
    areEntriesWritable es = es.all fun e => e.1.isWritable && e.2.isWritable := by
  induction es with
  | nil => rfl
  | cons e es ih => rw [areEntriesWritable, ih, List.all_cons]

theorem isWritable_of_scalar {s : Scalar} {t : String} (h : s.canonical = .ok t) :
    s.isWritable = true := by
  cases s with
  | int n =>
    rw [Scalar.canonical] at h
    split at h
    · next hn => exact hn
    · cases h
  | _ => rfl

theorem isWritable_of_keyText {s : Scalar} {t : String} (h : s.keyText = .ok t) :
    s.isWritable = true := by
  cases s with
  | int n => exact isWritable_of_scalar h
  | _ => rfl

/-- What has a canonical text can be written. -/
theorem isWritable_of_canonical (v : Setting) {t : String} (h : v.canonical = .ok t) :
    v.isWritable = true := by
  induction v using induction_parts generalizing t with
  | scalar s => exact isWritable_of_scalar h
  | list vs ih =>
    obtain ⟨ts, hts, -⟩ := canonical_list h
    rw [isWritable, areWritable_eq, List.all_eq_true]
    intro v hv
    obtain ⟨u, -, hu⟩ := (forall₂_mem hts).1 v hv
    exact ih v hv hu
  | mapping es ih =>
    obtain ⟨-, ms, -, -, hall⟩ := canonical_mapping h
    rw [isWritable, areEntriesWritable_eq, List.all_eq_true]
    intro e he
    obtain ⟨m, hkey, hvalue⟩ := hall e he
    exact Bool.and_eq_true_iff.2 ⟨isWritable_of_keyText hkey, ih e he hvalue⟩
  | set ks =>
    rw [canonical] at h
    split at h
    · next hks => exact hks
    · cases h
  | pair v w ihv ihw =>
    obtain ⟨s, u, hs, hu, -⟩ := canonical_pair h
    exact Bool.and_eq_true_iff.2 ⟨ihv hs, ihw hu⟩
  | endless kind literal => rfl

/-- A list that is united with another one holds texts if it has a canonical text. -/
theorem exists_texts_of_unite {xs ys vs : List Setting} {t : String} (h : unite xs ys = list vs)
    (ht : (list vs).canonical = .ok t) : ∃ ss : List String, vs = ss.map str := by
  unfold unite at h
  dsimp only at h
  split at h
  · exact ⟨_, (list.inj h).symm⟩
  · next hnot =>
    obtain rfl := list.inj h
    have hwritable := isWritable_of_canonical _ ht
    rw [isWritable, areWritable_eq] at hwritable
    exact absurd hwritable hnot

end Setting

namespace Configuration

open Setting (mapping list str record mergeValue HasText Matches)
open Entries (Keyed find?)

def sectionNames : List String := ["output", "workspace", "navigation", "links", "noise"]

theorem keyed_defaults : Keyed defaults :=
  @Entries.keyed_texts
    [("output", _), ("workspace", _), ("navigation", _), ("links", _), ("noise", _)] (by decide)

/-- A section of the defaults. -/
theorem exists_default {name : String} (h : name ∈ sectionNames) :
    ∃ base : List (String × Setting), find? defaults (.str name) = some (record base) ∧
      (base.map (·.1)).Nodup ∧ base ≠ [] := by
  simp only [sectionNames, List.mem_cons, List.not_mem_nil, or_false] at h
  rcases h with rfl | rfl | rfl | rfl | rfl
  all_goals exact ⟨_, rfl, by decide, List.cons_ne_nil _ _⟩

theorem keyed_ofEntries (user : Entries) : Keyed (ofEntries user) :=
  keyed_defaults.mergeEntries none user

/-- Each section is there; one that is a mapping has a key that is a text. -/
theorem exists_section {user : Entries} (h : user.Keyed) {name : String}
    (hname : name ∈ sectionNames) : ∃ v, find? (ofEntries user) (.str name) = some v ∧
      ∀ es, v = mapping es → Keyed es ∧ HasText es := by
  obtain ⟨base, hbase, hnodup, hne⟩ := exists_default hname
  have hkeyed := Entries.keyed_texts hnodup
  obtain ⟨b, hb⟩ := List.exists_mem_of_ne_nil base hne
  have he : ((.str b.1, b.2) : Scalar × Setting) ∈ base.map fun e => (.str e.1, e.2) :=
    List.mem_map_of_mem hb
  have hmerge := @Entries.find?_mergeEntries none defaults user h (.str name)
  rw [hbase] at hmerge
  cases hfind : find? user (.str name) with
  | none =>
    rw [hfind] at hmerge
    refine ⟨record base, hmerge, fun es heq => ?_⟩
    obtain rfl := Setting.mapping.inj heq
    exact ⟨hkeyed, _, he, rfl⟩
  | some v =>
    rw [hfind] at hmerge
    refine ⟨_, hmerge, fun es heq => ?_⟩
    cases v with
    | mapping ws =>
      rw [record, mergeValue] at heq
      obtain rfl := Setting.mapping.inj heq
      obtain ⟨f, hf, hkey⟩ := List.mem_map.1
        (Entries.mem_keys_mergeEntries (List.mem_map_of_mem he) (some (.str name)) ws)
      exact ⟨hkeyed.mergeEntries _ _, f, hf, hkey ▸ rfl⟩
    | _ => cases heq

theorem hasText_ofEntries {user : Entries} (h : user.Keyed) : HasText (ofEntries user) := by
  obtain ⟨v, hv, -⟩ := @exists_section user h "output" (by decide)
  exact ⟨_, (keyed_ofEntries user).find?_eq_some_iff.1 hv, rfl⟩

/-- Configurations that match have matching values in each place. -/
theorem rel_chosen? {u v : Entries} (h : (mapping (ofEntries u)).Matches (mapping (ofEntries v)))
    (hu : u.Keyed) (hv : v.Keyed) {name : String} (hname : name ∈ sectionNames) (key : String) :
    Option.Rel Matches ((ofEntries u).chosen? name key) ((ofEntries v).chosen? name key) := by
  have hrel := h.find? (keyed_ofEntries u) (keyed_ofEntries v) (hasText_ofEntries hu)
    (hasText_ofEntries hv) name
  obtain ⟨s, hs, hsection⟩ := exists_section hu hname
  obtain ⟨t, ht, hsection'⟩ := exists_section hv hname
  simp only [Entries.chosen?, Entries.inSection, Entries.get, hs, ht, Option.getD_some] at hrel ⊢
  cases hrel with
  | some hmatch =>
    rcases hmatch.shown_cases with ⟨es, fs, rfl, rfl⟩ | ⟨hes, hfs⟩
    · obtain ⟨hkeyed, htext⟩ := hsection es rfl
      obtain ⟨hkeyed', htext'⟩ := hsection' fs rfl
      exact hmatch.find? hkeyed hkeyed' htext htext' key
    · rw [hes, hfs]
      exact .none

/-- A list of texts is the default where lists are united. -/
theorem exists_default_texts {p : String × String} (h : p ∈ Setting.unitedLists) :
    ∃ ds : List String, defaults.chosen? p.1 p.2 = some (list (ds.map str)) := by
  simp only [Setting.unitedLists, List.mem_cons, List.not_mem_nil, or_false] at h
  rcases h with rfl | rfl
  · exact ⟨[], rfl⟩
  · exact ⟨_, rfl⟩

/-- A list that is united with the default holds texts, if it has a canonical text. -/
theorem exists_texts {user : Entries} (h : user.Distinct) {p : String × String}
    (hp : p ∈ Setting.unitedLists) {vs : List Setting}
    (hvs : (ofEntries user).chosen? p.1 p.2 = some (list vs)) {t : String}
    (ht : (list vs).canonical = .ok t) : ∃ ss : List String, vs = ss.map str := by
  obtain ⟨ds, hds⟩ := exists_default_texts hp
  by_cases hmapping : ∀ v, find? user (.str p.1) = some v → ∃ ws, v = mapping ws
  · have hsections : ∀ v, find? user (.str p.1) = some v →
        ∃ ws, v = mapping ws ∧ Keyed ws := by
      intro v hv
      obtain ⟨ws, rfl⟩ := hmapping v hv
      obtain ⟨e, he, hshown⟩ := Entries.mem_of_find? hv
      exact ⟨ws, rfl, by simpa [hshown, Setting.shown] using h.sections e he⟩
    rw [ofEntries, Entries.chosen?_merge h.keys hsections, hds] at hvs
    cases hv : user.chosen? p.1 p.2 with
    | none =>
      rw [hv] at hvs
      exact ⟨ds, (list.inj (Option.some.inj hvs)).symm⟩
    | some v =>
      rw [hv] at hvs
      have hmerge := Option.some.inj hvs
      cases v with
      | list xs =>
        have hunited : Setting.isUnited (some (.str p.1)) (.str p.2) = true :=
          List.contains_iff_mem.2 hp
        rw [mergeValue, if_pos hunited] at hmerge
        exact Setting.exists_texts_of_unite hmerge ht
      | mapping ws => cases hmerge
      | _ => cases hmerge
  · simp only [not_forall] at hmapping
    obtain ⟨v, hv, hnot⟩ := hmapping
    rw [ofEntries, Entries.chosen?_merge_eq_none h.keys hv hnot] at hvs
    cases hvs

end Configuration

end CrateBook
