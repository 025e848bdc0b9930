import CrateBook.Export.Index
import Mathlib.Data.List.Nodup

/-!
# Entries and look-ups of tables

A look-up finds exactly the entries of a table, since keys are distinct. A table that is
made from entries with distinct keys has these entries, in their order.
-/
namespace CrateBook

theorem setEntry_of_notMem {κ α : Type} [DecidableEq κ] {k : κ} {v : α} {es : List (κ × α)}
    (h : k ∉ es.map Prod.fst) : setEntry k v es = es ++ [(k, v)] := by
  induction es with
  | nil => rfl
  | cons e es ih =>
    simp only [List.map_cons, List.mem_cons, not_or] at h
    rw [setEntry, if_neg (Ne.symm h.1), ih h.2, List.cons_append]

/-- What is taken from the entries stays if a new value gives what the old one gave. -/
theorem filterMap_setEntry {κ α β : Type} [DecidableEq κ] {k : κ} {v w : α}
    {es : List (κ × α)} (h : es.lookup k = some v) {f : κ × α → Option β}
    (hf : f (k, w) = f (k, v)) : (setEntry k w es).filterMap f = es.filterMap f := by
  induction es with
  | nil => simp at h
  | cons e es ih =>
    obtain ⟨a, b⟩ := e
    by_cases hk : a = k
    · subst hk
      rw [List.lookup_cons_self, Option.some.injEq] at h
      subst h
      simp only [setEntry, if_true, List.filterMap_cons, hf]
    · have hbeq : (k == a) = false := by simpa using Ne.symm hk
      rw [List.lookup_cons, hbeq] at h
      simp only [setEntry, if_neg hk, List.filterMap_cons, ih h]

namespace Table

variable {κ α : Type} [DecidableEq κ]

/-- A value is found under a key just if the entry is in the table. -/
theorem get?_eq_some_iff {t : Table κ α} {k : κ} {v : α} :
    t.get? k = some v ↔ (k, v) ∈ t.entries := by
  unfold get?
  have hnodup := t.nodup
  generalize t.entries = es at hnodup
  induction es with
  | nil => simp
  | cons e es ih =>
    obtain ⟨a, b⟩ := e
    simp only [List.map_cons, List.nodup_cons] at hnodup
    rw [List.lookup_cons]
    by_cases hk : k = a
    · subst hk
      have hnot : (k, v) ∉ es := fun hm => hnodup.1 (List.mem_map_of_mem hm)
      simp [hnot, eq_comm]
    · have hbeq : (k == a) = false := by simpa using hk
      simp [hbeq, hk, ih hnodup.2]

/-- Lists of the same entries, with distinct keys, look up the same. -/
theorem lookup_eq_of_mem_iff {es es' : List (κ × α)} (hnodup : (es.map Prod.fst).Nodup)
    (hnodup' : (es'.map Prod.fst).Nodup) (h : ∀ e, e ∈ es ↔ e ∈ es') (k : κ) :
    es.lookup k = es'.lookup k := by
  refine Option.ext fun v => ?_
  have hleft : es.lookup k = some v ↔ (k, v) ∈ es := @get?_eq_some_iff _ _ _ ⟨es, hnodup⟩ _ _
  have hright : es'.lookup k = some v ↔ (k, v) ∈ es' := @get?_eq_some_iff _ _ _ ⟨es', hnodup'⟩ _ _
  rw [hleft, hright, h]

theorem mem_keys_insertNew {t : Table κ α} {k k' : κ} {v : α} :
    k' ∈ (t.insertNew k v).keys ↔ k' = k ∨ k' ∈ t.keys := by
  unfold insertNew
  split
  · next h =>
    obtain ⟨w, hw⟩ := Option.isSome_iff_exists.1 h
    have hk : k ∈ t.keys := mem_keys_iff.2 ⟨w, hw⟩
    exact ⟨.inr, fun h => h.elim (fun heq => heq ▸ hk) id⟩
  · exact mem_keys_insert

theorem insertNew_or (t : Table κ α) (k k' : κ) (v : α) :
    (t.insertNew k v).get? k' = (t.get? k').or (if k' = k then some v else none) := by
  rw [get?_insertNew]
  by_cases hk : k' = k
  · subst hk
    cases t.get? k' <;> simp
  · simp [hk]

theorem entries_insert_of_notMem {t : Table κ α} {k : κ} (v : α) (h : k ∉ t.keys) :
    (t.insert k v).entries = t.entries ++ [(k, v)] := setEntry_of_notMem h

theorem entries_foldl_insert (es : List (κ × α)) (t : Table κ α)
    (h : (t.keys ++ es.map Prod.fst).Nodup) :
    (es.foldl (fun t e => t.insert e.1 e.2) t).entries = t.entries ++ es := by
  induction es generalizing t with
  | nil => simp
  | cons e es ih =>
    have hnot : e.1 ∉ t.keys := by
      intro hm
      exact (List.nodup_append.1 h).2.2 _ hm _ (by simp) rfl
    have hentries := entries_insert_of_notMem e.2 hnot
    rw [List.foldl_cons, ih, hentries, List.append_assoc, List.singleton_append]
    rw [keys, hentries, List.map_append, List.append_assoc]
    exact h

/-- The table of entries with distinct keys has just these entries. -/
theorem entries_ofList {es : List (κ × α)} (h : (es.map Prod.fst).Nodup) :
    (ofList es).entries = es := by
  rw [ofList, entries_foldl_insert es empty (by simpa [keys, empty] using h)]
  rfl

theorem mem_keys_foldl_insert {es : List (κ × α)} {t : Table κ α} {k : κ} :
    k ∈ (es.foldl (fun t e => t.insert e.1 e.2) t).keys ↔
      k ∈ t.keys ∨ k ∈ es.map Prod.fst := by
  induction es generalizing t with
  | nil => simp
  | cons e es ih =>
    rw [List.foldl_cons, ih, mem_keys_insert, List.map_cons, List.mem_cons]
    tauto

theorem mem_keys_ofList {es : List (κ × α)} {k : κ} :
    k ∈ (ofList es).keys ↔ k ∈ es.map Prod.fst := by
  rw [ofList, mem_keys_foldl_insert]
  simp [keys, empty]

theorem mem_of_get?_foldl_insert {es : List (κ × α)} {t : Table κ α} {k : κ} {v : α}
    (h : (es.foldl (fun t e => t.insert e.1 e.2) t).get? k = some v) :
    t.get? k = some v ∨ (k, v) ∈ es := by
  induction es generalizing t with
  | nil => exact .inl h
  | cons e es ih =>
    rcases ih h with hget | hmem
    · rw [get?_insert] at hget
      split at hget
      · next hk =>
        obtain rfl := Option.some.inj hget
        exact .inr (hk ▸ List.mem_cons_self)
      · exact .inl hget
    · exact .inr (List.mem_cons_of_mem e hmem)

/-- What a table of entries has for a key stands among the entries. -/
theorem mem_of_get?_ofList {es : List (κ × α)} {k : κ} {v : α}
    (h : (ofList es).get? k = some v) : (k, v) ∈ es :=
  (mem_of_get?_foldl_insert h).resolve_left (by simp)

section

variable {β : Type} {f : β → κ} {g : β → α}

/-- A table of lists that values are appended to has, for each key, the values of the key. -/
theorem getD_foldl_push (es : List β) (t : Table κ (List α)) (k : κ) :
    ((es.foldl (fun t e => t.push (f e) (g e)) t).get? k).getD [] =
      (t.get? k).getD [] ++ (es.filter fun e => f e = k).map g := by
  induction es generalizing t with
  | nil => simp
  | cons e es ih =>
    rw [List.foldl_cons, ih, push, get?_insert]
    by_cases hk : k = f e
    · subst hk
      simp
    · simp [hk, Ne.symm hk]

/-- The entries of a table of lists that was empty. -/
theorem eq_of_mem_foldl_push {es : List β} {k : κ} {vs : List α}
    (h : (k, vs) ∈ (es.foldl (fun t e => t.push (f e) (g e)) empty).entries) :
    vs = (es.filter fun e => f e = k).map g := by
  have hget := getD_foldl_push (f := f) (g := g) es empty k
  rw [get?_eq_some_iff.2 h] at hget
  simpa using hget

/-- Appending a value to the list of a key adds it to what the lists hold together. -/
theorem perm_push (t : Table κ (List α)) (k : κ) (v : α) :
    ((t.push k v).entries.flatMap Prod.snd).Perm (t.entries.flatMap Prod.snd ++ [v]) := by
  change ((setEntry k ((t.entries.lookup k).getD [] ++ [v]) t.entries).flatMap Prod.snd).Perm _
  generalize t.entries = es
  induction es with
  | nil => simp [setEntry]
  | cons e es ih =>
    obtain ⟨a, vs⟩ := e
    rw [setEntry, List.lookup_cons]
    by_cases hk : a = k
    · subst hk
      have hswap : ([v] ++ es.flatMap Prod.snd).Perm (es.flatMap Prod.snd ++ [v]) :=
        List.perm_append_comm
      simpa using hswap.append_left vs
    · have hbeq : (k == a) = false := by simpa using Ne.symm hk
      simpa [hk, hbeq] using ih.append_left vs

/-- The lists of a table that was empty hold just what was appended to them. -/
theorem perm_foldl_push (es : List β) :
    ((es.foldl (fun t e => t.push (f e) (g e)) empty).entries.flatMap Prod.snd).Perm
      (es.map g) := by
  have hall (t : Table κ (List α)) :
      ((es.foldl (fun t e => t.push (f e) (g e)) t).entries.flatMap Prod.snd).Perm
        (t.entries.flatMap Prod.snd ++ es.map g) := by
    induction es generalizing t with
    | nil => simp
    | cons e es ih =>
      have hstep := (perm_push t (f e) (g e)).append_right (es.map g)
      rw [List.append_assoc, List.singleton_append] at hstep
      exact (ih _).trans hstep
  simpa [empty] using hall empty

end

end Table

namespace Items

/-- An item is in the list of all items just if it is found under its id. -/
theorem mem_toList {xs : Items} {x : Item} : x ∈ xs.toList ↔ xs.get? x.id = some x := by
  unfold toList get? Table.values
  rw [Table.get?_eq_some_iff]
  constructor
  · intro h
    obtain ⟨e, he, rfl⟩ := List.mem_map.1 h
    rw [xs.keyed e he]
    exact he
  · exact fun h => List.mem_map_of_mem h

variable {P : Item → Prop}

theorem forall_empty : ∀ id y, empty.get? id = some y → P y := by
  intro id y hy
  simp [get?, empty] at hy

theorem forall_insert {xs : Items} {z : Item} (hz : P z)
    (hxs : ∀ id y, xs.get? id = some y → P y) : ∀ id y, (xs.insert z).get? id = some y → P y := by
  intro id y hy
  rw [get?_insert] at hy
  split at hy
  · cases hy
    exact hz
  · exact hxs id y hy

end Items

end CrateBook
