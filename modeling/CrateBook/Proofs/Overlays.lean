import CrateBook.Proofs.Fingerprints
import CrateBook.Proofs.OptionPlaces
import Mathlib.Data.List.Sort
import Mathlib.Data.String.Basic

/-!
# One mapping laid over another

What stands at a path of keys after one mapping was laid over another is told by what stood there
in both. As long as both have mappings on the way, these are merged key by key; where the way ends
in two lists that are united, the texts of their elements stand in order, each once; at any other
end the upper value counts, and where it has none, the lower one stays. All of this needs elements
of united lists that can be written.
-/
namespace CrateBook

open Entries (Keyed find? find?_cons find?_congr)

namespace Setting

/-! ## Settings at paths -/

/-- The setting at a path of keys. -/
def at? : Setting → List Scalar → Option Setting
  | v, [] => some v
  | mapping es, k :: path => (find? es k).bind fun w => at? w path
  | _, _ :: _ => none

/-- Mappings have each key once, however deep they lie in mappings. -/
inductive KeyedWithin : Setting → Prop
  | mapping {es : Entries} : Keyed es → (∀ e ∈ es, KeyedWithin e.2) → KeyedWithin (mapping es)
  | other {v : Setting} : (∀ es, v ≠ .mapping es) → KeyedWithin v

section

variable {v w : Setting} {es ws : Entries} {k : Scalar} {path : List Scalar}

@[simp] theorem at?_nil (v : Setting) : v.at? [] = some v := by
  cases v <;> rfl

theorem at?_cons : v.at? (k :: path) = some w ↔
    ∃ es u, v = mapping es ∧ find? es k = some u ∧ u.at? path = some w := by
  cases v with
  | mapping es => simp [at?, Option.bind_eq_some_iff]
  | _ => simp [at?]

theorem at?_append (v : Setting) (path rest : List Scalar) :
    v.at? (path ++ rest) = (v.at? path).bind fun w => w.at? rest := by
  induction path generalizing v with
  | nil => rw [List.nil_append, at?_nil, Option.bind_some]
  | cons k path ih =>
    cases v with
    | mapping es => simp only [List.cons_append, at?, ih, Option.bind_assoc]
    | _ => rfl

/-- What stands at a key of the mapping at a path. -/
theorem at?_concat_of_mapping (h : v.at? path = some (mapping es)) (k : Scalar) :
    v.at? (path ++ [k]) = find? es k := by
  rw [at?_append, h, Option.bind_some, at?]
  cases find? es k <;> simp

theorem at?_concat : v.at? (path ++ [k]) = some w ↔
    ∃ es, v.at? path = some (mapping es) ∧ find? es k = some w := by
  refine ⟨fun h => ?_, fun ⟨es, hes, hw⟩ => (at?_concat_of_mapping hes k).trans hw⟩
  rw [at?_append, Option.bind_eq_some_iff] at h
  obtain ⟨u, hu, h⟩ := h
  obtain ⟨es, w', rfl, hw, heq⟩ := at?_cons.1 h
  rw [at?_nil] at heq
  exact ⟨es, hu, hw.trans heq⟩

/-- The way to a mapping leads through mappings. -/
theorem exists_mapping_at? (h : (mapping es).at? (k :: path) = some (mapping ws)) :
    ∃ us, find? es k = some (mapping us) ∧ (mapping us).at? path = some (mapping ws) := by
  obtain ⟨_, u, heq, hu, hws⟩ := at?_cons.1 h
  cases heq
  cases path with
  | nil =>
    rw [at?_nil] at hws
    cases hws
    exact ⟨ws, hu, at?_nil _⟩
  | cons j path =>
    obtain ⟨us, _, rfl, -⟩ := at?_cons.1 hws
    exact ⟨us, hu, hws⟩

/-- A mapping that is keyed within is keyed itself. -/
theorem KeyedWithin.keyed (h : KeyedWithin (.mapping es)) : Keyed es := by
  cases h with
  | mapping hes => exact hes
  | other hno => exact absurd rfl (hno es)

/-- The values of a mapping that is keyed within are so as well. -/
theorem KeyedWithin.part (h : KeyedWithin (.mapping es)) (hw : find? es k = some w) :
    w.KeyedWithin := by
  obtain ⟨e, he, rfl⟩ := Entries.mem_of_find? hw
  cases h with
  | mapping _ hparts => exact hparts e he
  | other hno => exact absurd rfl (hno es)

/-- Whatever a path leads to is keyed within where the start is. -/
theorem KeyedWithin.at? (h : v.KeyedWithin) (hw : v.at? path = some w) : w.KeyedWithin := by
  induction path generalizing v with
  | nil => exact Option.some.inj ((at?_nil v).symm.trans hw) ▸ h
  | cons k path ih =>
    obtain ⟨es, u, rfl, hu, hw⟩ := at?_cons.1 hw
    exact ih (h.part hu) hw

end

/-! ## Texts of united lists -/

theorem nodup_eraseDups (ts : List String) : ts.eraseDups.Nodup := by
  cases ts with
  | nil => exact List.nodup_nil
  | cons t ts =>
    rw [List.eraseDups_cons, List.nodup_cons]
    refine ⟨fun ht => ?_, nodup_eraseDups _⟩
    simpa using (List.mem_filter.1 (List.mem_eraseDups.1 ht)).2
termination_by ts.length
decreasing_by exact Nat.lt_succ_of_le (List.length_filter_le _ _)

/-- United lists hold the texts of all elements, each once and in order. -/
theorem exists_texts_unite {xs ys : List Setting} (h : ∀ v ∈ xs ++ ys, v.isWritable = true) :
    ∃ ts : List String, unite xs ys = list (ts.map str) ∧ ts.Pairwise (· < ·) ∧
      ∀ t, t ∈ ts ↔ ∃ v ∈ xs ++ ys, v.text = t := by
  let ts := ((xs ++ ys).map text).eraseDups.mergeSort fun a b => a ≤ b
  have hnodup : ts.Nodup := (List.mergeSort_perm _ _).nodup_iff.2 (nodup_eraseDups _)
  have hsorted : ts.SortedLT :=
    List.sortedLT_iff_nodup_and_sortedLE.2 ⟨hnodup, List.sortedLE_mergeSort⟩
  refine ⟨ts, if_pos (List.all_eq_true.2 h), hsorted.pairwise, fun t => ?_⟩
  rw [List.mem_mergeSort, List.mem_eraseDups, List.mem_map]

/-! ## Ways through two mappings -/

/-- The path ends at a list that is united. -/
def EndsUnited (path : List Scalar) : Prop :=
  ∃ p ∈ unitedLists, [.str p.1, .str p.2] <:+ path

/-- Where a path ends does not depend on what is put in front of it. -/
theorem EndsUnited.append {path : List Scalar} (h : EndsUnited path) (front : List Scalar) :
    EndsUnited (front ++ path) := by
  obtain ⟨p, hp, hsuffix⟩ := h
  exact ⟨p, hp, hsuffix.trans (List.suffix_append _ _)⟩

section

variable {s : Option Scalar} {base es as bs : Entries} {j k : Scalar} {old : Option Setting}
  {v : Setting} {path : List Scalar}

theorem getLast?_cons_or (k : Scalar) (path : List Scalar) (s : Option Scalar) :
    (k :: path).getLast?.or s = path.getLast?.or (some k) := by
  rw [List.getLast?_cons]
  cases path.getLast? <;> rfl

/-- The section of a key is the key in front of it, or the section that the path starts in. -/
theorem endsUnited_concat : EndsUnited (s.toList ++ (path ++ [k])) ↔
    isUnited (path.getLast?.or s) k = true := by
  have hlast : (s.toList ++ path).getLast? = path.getLast?.or s := by
    rw [List.getLast?_append]
    cases s <;> rfl
  rw [← List.append_assoc, ← hlast]
  generalize s.toList ++ path = path
  constructor
  · rintro ⟨p, hp, front, hfront⟩
    have hsplit : (front ++ [.str p.1]) ++ [.str p.2] = path ++ [k] := by
      rw [List.append_assoc, List.singleton_append, hfront]
    obtain ⟨rfl, hk⟩ := List.append_inj' hsplit rfl
    obtain rfl := List.singleton_inj.1 hk
    rw [List.getLast?_concat]
    exact List.contains_iff_mem.2 hp
  · intro h
    unfold isUnited at h
    split at h
    · next section_ key heq =>
      obtain ⟨front, rfl⟩ := List.getLast?_eq_some_iff.1 heq
      refine ⟨(section_, key), List.contains_iff_mem.1 h, front, ?_⟩
      rw [List.append_assoc, List.singleton_append]
    · cases h

theorem fitsEntries_eq (s : Option Scalar) (base es : Entries) :
    fitsEntries s base es = es.all fun e => fitsValue s e.1 (find? base e.1) e.2 := by
  induction es with
  | nil => rfl
  | cons e es ih => rw [fitsEntries, ih, List.all_cons]

theorem fitsValue_congr (h : j.sameKey k = true) : fitsValue s j old v = fitsValue s k old v := by
  have hunited := isUnited_congr (s := s) h
  have hentries (base es : Entries) :
      fitsEntries (some j) base es = fitsEntries (some k) base es := by
    rw [fitsEntries_eq, fitsEntries_eq]
    congr 1
    funext e
    cases e.2 with
    | list xs =>
      unfold fitsValue
      rw [hunited.2]
    | _ => rfl
  cases v with
  | list xs =>
    unfold fitsValue
    rw [hunited.1]
  | mapping es =>
    unfold fitsValue
    simp only [hentries]
  | _ => rfl

theorem fitsValue_of_fitsEntries (h : fitsEntries s base es = true) (hv : find? es k = some v) :
    fitsValue s k (find? base k) v = true := by
  obtain ⟨e, he, hsame, rfl⟩ := Entries.exists_of_find? hv
  rw [fitsEntries_eq, List.all_eq_true] at h
  rw [← fitsValue_congr hsame, ← find?_congr hsame]
  exact h e he

/-- On the way through two mappings, the lower parts fit as the whole does. -/
theorem fitsEntries_at (h : fitsEntries s base es = true)
    (hbase : (mapping base).at? path = some (mapping as))
    (hes : (mapping es).at? path = some (mapping bs)) :
    fitsEntries (path.getLast?.or s) as bs = true := by
  induction path generalizing s base es with
  | nil =>
    cases hbase
    cases hes
    exact h
  | cons k path ih =>
    obtain ⟨us, hu, hbase⟩ := exists_mapping_at? hbase
    obtain ⟨ws, hw, hes⟩ := exists_mapping_at? hes
    have hfits := fitsValue_of_fitsEntries h hw
    rw [hu] at hfits
    rw [getLast?_cons_or]
    exact ih hfits hbase hes

/-- On the way through two mappings, the lower parts are merged as the whole is. -/
theorem at?_mergeEntries (hkeyed : KeyedWithin (.mapping es))
    (hbase : (mapping base).at? path = some (mapping as))
    (hes : (mapping es).at? path = some (mapping bs)) :
    (mapping (mergeEntries s base es)).at? path =
      some (mapping (mergeEntries (path.getLast?.or s) as bs)) := by
  induction path generalizing s base es with
  | nil =>
    cases hbase
    cases hes
    rfl
  | cons k path ih =>
    obtain ⟨us, hu, hbase⟩ := exists_mapping_at? hbase
    obtain ⟨ws, hw, hes⟩ := exists_mapping_at? hes
    have hfind : find? (mergeEntries s base es) k =
        some (mapping (mergeEntries (some k) us ws)) := by
      rw [Entries.find?_mergeEntries hkeyed.keyed, hw, hu]
      rfl
    rw [getLast?_cons_or, at?_cons]
    exact ⟨_, _, rfl, hfind, ih (hkeyed.part hw) hbase hes⟩

/-- What stands at the end of a way after both were merged. -/
theorem at?_concat_mergeEntries (hkeyed : KeyedWithin (.mapping es))
    (hbase : (mapping base).at? path = some (mapping as))
    (hes : (mapping es).at? path = some (mapping bs)) (k : Scalar) :
    (mapping (mergeEntries s base es)).at? (path ++ [k]) =
      ((find? bs k).map (mergeValue (path.getLast?.or s) k (find? as k))).or (find? as k) := by
  rw [at?_concat_of_mapping (at?_mergeEntries hkeyed hbase hes),
    Entries.find?_mergeEntries (hkeyed.at? hes).keyed]

end

/-! ## Where lists can be united -/

/-- All elements of the lists that are united can be written. -/
def Unitable (s : Option Scalar) (base update : Setting) : Prop :=
  ∀ path xs ys, EndsUnited (s.toList ++ path) → base.at? path = some (list xs) →
    update.at? path = some (list ys) → ∀ v ∈ xs ++ ys, v.isWritable = true

section

variable {s : Option Scalar} {base update : Entries}

theorem find?_of_mem (hkeyed : Keyed update) {e : Scalar × Setting} (he : e ∈ update)
    (hself : e.1.sameKey e.1 = true) : find? update e.1 = some e.2 := by
  induction update with
  | nil => cases he
  | cons f es ih =>
    obtain ⟨hfirst, hrest⟩ := List.pairwise_cons.1 hkeyed
    rw [find?_cons]
    rcases List.mem_cons.1 he with rfl | he
    · rw [if_pos hself]
    · rw [if_neg (by simp [hfirst e he]), ih hrest he]

theorem unitable_of_fitsEntries (h : fitsEntries s base update = true) :
    Unitable s (mapping base) (mapping update) := by
  intro path xs ys hends hbase hupdate
  rcases List.eq_nil_or_concat path with rfl | ⟨front, k, rfl⟩
  · cases hbase
  · rw [List.concat_eq_append] at hends hbase hupdate
    obtain ⟨as, has, hxs⟩ := at?_concat.1 hbase
    obtain ⟨bs, hbs, hys⟩ := at?_concat.1 hupdate
    have hfits := fitsValue_of_fitsEntries (fitsEntries_at h has hbs) hys
    rw [hxs] at hfits
    unfold fitsValue at hfits
    rw [endsUnited_concat.1 hends] at hfits
    exact List.all_eq_true.1 hfits

/-- By induction on the upper mapping: what fits its parts is what can be united in them. -/
theorem fitsEntries_of_unitable (hkeyed : KeyedWithin (.mapping update))
    (h : Unitable s (mapping base) (mapping update)) : fitsEntries s base update = true := by
  have hall (v : Setting) : ∀ us s base, v = mapping us → KeyedWithin v →
      Unitable s (mapping base) v → fitsEntries s base us = true := by
    induction v using induction_parts with
    | mapping es ih =>
      rintro us s base heq hkeyed hunitable
      cases heq
      rw [fitsEntries_eq, List.all_eq_true]
      intro e he
      cases hold : find? base e.1 with
      | none => cases e.2 <;> rfl
      | some old =>
        -- the key is found in the lower mapping, so it is the same key as itself
        obtain ⟨f, -, hsame, -⟩ := Entries.exists_of_find? hold
        have hself := Scalar.sameKey_self (Scalar.sameKey_symm hsame)
        have hfind := find?_of_mem hkeyed.keyed he hself
        cases hv : e.2 with
        | list ys =>
          cases old with
          | list xs =>
            unfold fitsValue
            cases hunited : isUnited s e.1 with
            | false => rfl
            | true =>
              have hends : EndsUnited (s.toList ++ [e.1]) :=
                @endsUnited_concat s e.1 [] |>.2 hunited
              have hwritable := hunitable [e.1] xs ys hends (at?_cons.2 ⟨_, _, rfl, hold, rfl⟩)
                (at?_cons.2 ⟨_, _, rfl, hfind.trans (congrArg _ hv), rfl⟩)
              exact List.all_eq_true.2 hwritable
          | _ => rfl
        | mapping us =>
          cases old with
          | mapping as =>
            refine ih e he us (some e.1) as hv (hkeyed.part hfind)
              fun path xs ys hends hxs hys => ?_
            refine hunitable (e.1 :: path) xs ys (hends.append s.toList)
              (at?_cons.2 ⟨_, _, rfl, hold, hxs⟩) (at?_cons.2 ⟨_, _, rfl, hfind, hys⟩)
          | _ => rfl
        | _ => rfl
    | _ => exact fun us _ _ heq => by cases heq
  exact hall _ _ _ _ rfl hkeyed h

end

/-! ## Keys of merged mappings -/

section

variable {base es : Entries} {k : Scalar} {v : Setting}

theorem put_of_find?_eq_none (h : find? base k = none) :
    Entries.put k v base = base ++ [(k, v)] := by
  induction base with
  | nil => rfl
  | cons e base ih =>
    obtain ⟨he, hrest⟩ := List.forall_mem_cons.1 (Entries.find?_eq_none_iff.1 h)
    rw [Entries.put, if_neg (by simp [he]), ih (Entries.find?_eq_none_iff.2 hrest),
      List.cons_append]

theorem map_fst_put_of_find? {old : Setting} (h : find? base k = some old) :
    (Entries.put k v base).map (·.1) = base.map (·.1) := by
  refine (Entries.map_fst_put k v base).resolve_right fun ⟨_, hall⟩ => ?_
  rw [Entries.find?_eq_none_iff.2 hall] at h
  cases h

/-- The keys of the lower mapping keep their places, and the new ones of the upper follow. -/
theorem map_fst_mergeEntries (s : Option Scalar) (hes : Keyed es) :
    (mergeEntries s base es).map (·.1) =
      base.map (·.1) ++ (es.map (·.1)).filter fun k => (find? base k).isNone := by
  induction es generalizing base with
  | nil => simp [mergeEntries]
  | cons e es ih =>
    obtain ⟨hfirst, hrest⟩ := List.pairwise_cons.1 hes
    have hfilter (w : Setting) :
        ((es.map (·.1)).filter fun k => (find? (Entries.put e.1 w base) k).isNone) =
          (es.map (·.1)).filter fun k => (find? base k).isNone := by
      refine List.filter_congr fun k hk => ?_
      obtain ⟨f, hf, rfl⟩ := List.mem_map.1 hk
      rw [Entries.find?_put, if_neg (by simp [hfirst f hf])]
    rw [mergeEntries, ih hrest, hfilter, List.map_cons]
    cases hfind : find? base e.1 with
    | none =>
      rw [put_of_find?_eq_none hfind, List.filter_cons_of_pos (by simp [hfind]), List.map_append,
        List.append_assoc]
      rfl
    | some old =>
      rw [map_fst_put_of_find? hfind, List.filter_cons_of_neg (by simp [hfind])]

theorem mem_put_of_ne {e : Scalar × Setting} (he : e ∈ base) (hk : e.1.sameKey k = false) :
    e ∈ Entries.put k v base := by
  induction base with
  | nil => cases he
  | cons f base ih =>
    rw [Entries.put]
    rcases List.mem_cons.1 he with rfl | he
    · rw [if_neg (by simp [hk])]
      exact List.mem_cons_self
    · split
      · exact List.mem_cons_of_mem _ he
      · exact List.mem_cons_of_mem _ (ih he)

/-- An entry that nothing is laid over stays. -/
theorem mem_mergeEntries_of_base (s : Option Scalar) {e : Scalar × Setting} (he : e ∈ base)
    (hnone : find? es e.1 = none) : e ∈ mergeEntries s base es := by
  induction es generalizing base with
  | nil =>
    rw [mergeEntries]
    exact he
  | cons f es ih =>
    obtain ⟨hf, hrest⟩ := List.forall_mem_cons.1 (Entries.find?_eq_none_iff.1 hnone)
    rw [mergeEntries]
    exact ih (mem_put_of_ne he (Scalar.sameKey_comm _ _ ▸ hf))
      (Entries.find?_eq_none_iff.2 hrest)

/-- An entry that is laid over nothing is taken over. -/
theorem mem_mergeEntries_of_update (s : Option Scalar) (hes : Keyed es) {e : Scalar × Setting}
    (he : e ∈ es) (hnone : find? base e.1 = none) : e ∈ mergeEntries s base es := by
  induction es generalizing base with
  | nil => cases he
  | cons f es ih =>
    obtain ⟨hfirst, hrest⟩ := List.pairwise_cons.1 hes
    rw [mergeEntries]
    rcases List.mem_cons.1 he with rfl | he
    · rw [hnone, Entries.mergeValue_none, put_of_find?_eq_none hnone]
      refine mem_mergeEntries_of_base s (List.mem_append_right _ (List.mem_singleton_self _)) ?_
      exact Entries.find?_eq_none_iff.2 fun f hf => Scalar.sameKey_comm _ _ ▸ hfirst f hf
    · refine ih hrest he ?_
      rw [Entries.find?_put, if_neg (by simp [hfirst e he]), hnone]

end

/-! ## One mapping over another -/

/-- Both values at a path go into what is there after one is laid over the other. -/
def Blends (s : Option Scalar) (path : List Scalar) (old : Option Setting) (new : Setting) :
    Prop :=
  (∃ as bs, old = some (mapping as) ∧ new = mapping bs) ∨
    EndsUnited (s.toList ++ path) ∧ ∃ xs ys, old = some (list xs) ∧ new = list ys

/-- What one mapping with another one laid over it holds, in a section or outside of all. -/
structure Overlays (s : Option Scalar) (base update merged : Setting) : Prop where
  /-- Two mappings are merged. -/
  mappings : ∀ path key as bs, base.at? (path ++ [key]) = some (mapping as) →
    update.at? (path ++ [key]) = some (mapping bs) →
    ∃ cs, overlay (some key) as bs = .ok cs ∧ merged.at? (path ++ [key]) = some (mapping cs)
  /-- The texts of lists that are united stand in order, each once. -/
  lists : ∀ path xs ys, EndsUnited (s.toList ++ path) → base.at? path = some (list xs) →
    update.at? path = some (list ys) →
    ∃ ts : List String, merged.at? path = some (list (ts.map str)) ∧ ts.Pairwise (· < ·) ∧
      ∀ t, t ∈ ts ↔ ∃ v ∈ xs ++ ys, v.text = t
  /-- Any other upper value counts. -/
  replaces : ∀ path key as v, base.at? path = some (mapping as) →
    update.at? (path ++ [key]) = some v →
    ¬ Blends s (path ++ [key]) (base.at? (path ++ [key])) v →
    merged.at? (path ++ [key]) = some v
  /-- At a key without an upper value, and below it, all stays as it was. -/
  keeps : ∀ path key rest as bs, base.at? path = some (mapping as) →
    update.at? path = some (mapping bs) → find? bs key = none →
    merged.at? (path ++ key :: rest) = base.at? (path ++ key :: rest)
  /-- The lower keys keep their places, and the new ones follow with their values. -/
  keys : ∀ path as bs, base.at? path = some (mapping as) → update.at? path = some (mapping bs) →
    ∃ cs, merged.at? path = some (mapping cs) ∧
      cs.map (·.1) = as.map (·.1) ++ ((bs.map (·.1)).filter fun k => (find? as k).isNone) ∧
      (∀ e ∈ as, find? bs e.1 = none → e ∈ cs) ∧ ∀ e ∈ bs, find? as e.1 = none → e ∈ cs

section

variable {s : Option Scalar} {base update : Entries}

theorem mergeValue_of_not_blends {path : List Scalar} {k : Scalar} {old : Option Setting}
    {v : Setting} (h : ¬ Blends s (path ++ [k]) old v) :
    mergeValue (path.getLast?.or s) k old v = v := by
  rw [Blends, not_or, endsUnited_concat] at h
  obtain ⟨hmappings, hlists⟩ := h
  unfold mergeValue
  split
  · next es =>
    split
    · next base => exact absurd ⟨base, es, rfl, rfl⟩ hmappings
    · rfl
  · next xs =>
    split
    · next ys =>
      rw [if_neg fun hunited => hlists ⟨hunited, ys, xs, rfl, rfl⟩]
    · rfl
  · rfl

theorem mergeValue_lists {k : Scalar} (h : isUnited s k = true) (xs ys : List Setting) :
    mergeValue s k (some (list xs)) (list ys) = unite xs ys := by
  unfold mergeValue
  simp only [h, if_true]

/-- What comes out of an overlay is told by what stood at each path. -/
theorem overlays_of_overlay (hkeyed : KeyedWithin (.mapping update)) {merged : Entries}
    (h : overlay s base update = .ok merged) :
    Overlays s (mapping base) (mapping update) (mapping merged) := by
  obtain ⟨hfits, rfl⟩ := overlay_eq_ok.1 h
  constructor
  case mappings =>
    intro path key as bs hbase hupdate
    obtain ⟨as', has, hold⟩ := at?_concat.1 hbase
    obtain ⟨bs', hbs, hnew⟩ := at?_concat.1 hupdate
    have hpart := fitsEntries_at hfits hbase hupdate
    have hmerged := at?_mergeEntries (s := s) hkeyed hbase hupdate
    rw [List.getLast?_concat, Option.some_or] at hpart hmerged
    exact ⟨_, if_pos hpart, hmerged⟩
  case lists =>
    intro path xs ys hends hbase hupdate
    obtain ⟨ts, hunite, hts⟩ := exists_texts_unite
      (unitable_of_fitsEntries hfits path xs ys hends hbase hupdate)
    refine ⟨ts, ?_, hts⟩
    rcases List.eq_nil_or_concat path with rfl | ⟨front, k, rfl⟩
    · cases hbase
    · rw [List.concat_eq_append] at hends hbase hupdate ⊢
      obtain ⟨as, has, hxs⟩ := at?_concat.1 hbase
      obtain ⟨bs, hbs, hys⟩ := at?_concat.1 hupdate
      rw [at?_concat_mergeEntries hkeyed has hbs, hys, hxs, Option.map_some, Option.some_or,
        mergeValue_lists (endsUnited_concat.1 hends), hunite]
  case replaces =>
    intro path key as v hbase hupdate hblends
    obtain ⟨bs, hbs, hv⟩ := at?_concat.1 hupdate
    rw [at?_concat_of_mapping hbase] at hblends
    rw [at?_concat_mergeEntries hkeyed hbase hbs, hv, Option.map_some, Option.some_or,
      mergeValue_of_not_blends hblends]
  case keeps =>
    intro path key rest as bs hbase hupdate hnone
    have hkey : (mapping (mergeEntries s base update)).at? (path ++ [key]) =
        (mapping base).at? (path ++ [key]) := by
      rw [at?_concat_mergeEntries hkeyed hbase hupdate, hnone, Option.map_none, Option.none_or,
        at?_concat_of_mapping hbase]
    rw [List.append_cons, at?_append, hkey, ← at?_append]
  case keys =>
    intro path as bs hbase hupdate
    have hbs := (hkeyed.at? hupdate).keyed
    exact ⟨_, at?_mergeEntries hkeyed hbase hupdate, map_fst_mergeEntries _ hbs,
      fun _ he hnone => mem_mergeEntries_of_base _ he hnone,
      fun _ he hnone => mem_mergeEntries_of_update _ hbs he hnone⟩

end

/-- **Overlays.** A mapping whose keys are distinct can be laid over another one just where the
elements of all lists that are united can be written. Then mappings are merged on all common
paths, such lists are united, and elsewhere the upper value counts, or the lower one where there
is no other. -/
theorem overlays_overlay (s : Option Scalar) (base : Entries) {update : Entries}
    (hkeyed : KeyedWithin (.mapping update)) :
    (Unitable s (mapping base) (mapping update) → ∃ merged, overlay s base update = .ok merged ∧
      Overlays s (mapping base) (mapping update) (mapping merged)) ∧
    (¬ Unitable s (mapping base) (mapping update) →
      overlay s base update = .error .notANumber) := by
  constructor
  · intro h
    have hmerged := overlay_eq_ok.2 ⟨fitsEntries_of_unitable (s := s) hkeyed h, rfl⟩
    exact ⟨_, hmerged, overlays_of_overlay hkeyed hmerged⟩
  · intro h
    exact if_neg fun hfits => h (unitable_of_fitsEntries hfits)

theorem keyedWithin_record {es : List (String × Setting)} (h : (es.map (·.1)).Nodup)
    (hparts : ∀ e ∈ es, KeyedWithin e.2) : KeyedWithin (record es) :=
  .mapping (Entries.keyed_texts h) (List.forall_mem_map.2 hparts)

theorem keyedWithin_list (vs : List Setting) : KeyedWithin (list vs) :=
  .other fun _ heq => by cases heq

theorem keyedWithin_str (t : String) : KeyedWithin (str t) :=
  .other fun _ heq => by cases heq

/-- Packages and a mode, as a file may give them. -/
def packagesUpdate : Entries :=
  [(.str "workspace", record [("packages", list [str "beta", str "alpha", str "beta"])]),
   (.str "output", record [("mode", str "item")])]

theorem keyedWithin_packagesUpdate : KeyedWithin (.mapping packagesUpdate) := by
  refine @keyedWithin_record [("workspace", _), ("output", _)] (by decide) ?_
  refine List.forall_mem_cons.2 ⟨?_, List.forall_mem_singleton.2 ?_⟩
  · exact keyedWithin_record (by decide) (List.forall_mem_singleton.2 (keyedWithin_list _))
  · exact keyedWithin_record (by decide) (List.forall_mem_singleton.2 (keyedWithin_str _))

/-- Over the defaults, the packages are united, the mode is replaced, and the path in front of all
addresses stays. -/
theorem overlays_overlay_packages : KeyedWithin (.mapping packagesUpdate) ∧
    Unitable none (mapping Configuration.defaults) (mapping packagesUpdate) ∧
    ∃ merged, overlay none Configuration.defaults packagesUpdate = .ok merged ∧
      (∃ ts : List String, ts.Pairwise (· < ·) ∧ (∀ t, t ∈ ts ↔ t = "alpha" ∨ t = "beta") ∧
        (mapping merged).at? [.str "workspace", .str "packages"] = some (list (ts.map str))) ∧
      (mapping merged).at? [.str "output", .str "mode"] = some (str "item") ∧
      (mapping merged).at? [.str "output", .str "base_path"] = some (str "") := by
  have hunitable : Unitable none (mapping Configuration.defaults) (mapping packagesUpdate) :=
    unitable_of_fitsEntries (by decide +kernel)
  obtain ⟨merged, hmerged, hoverlays⟩ :=
    (overlays_overlay none Configuration.defaults keyedWithin_packagesUpdate).1 hunitable
  refine ⟨keyedWithin_packagesUpdate, hunitable, merged, hmerged, ?_, ?_, ?_⟩
  · obtain ⟨ts, hts, hsorted, hmem⟩ := hoverlays.lists [.str "workspace", .str "packages"] []
      [str "beta", str "alpha", str "beta"] ⟨("workspace", "packages"), by decide, List.suffix_rfl⟩
      rfl rfl
    refine ⟨ts, hsorted, fun t => (hmem t).trans ?_, hts⟩
    simp only [List.nil_append, List.mem_cons, List.not_mem_nil, or_false, exists_eq_or_imp,
      exists_eq_left, str, text, Scalar.text]
    grind
  · refine hoverlays.replaces [.str "output"] (.str "mode") _ (str "item") rfl rfl ?_
    rintro (⟨_, _, -, hnew⟩ | ⟨-, _, _, -, hnew⟩) <;> cases hnew
  · exact hoverlays.keeps [.str "output"] (.str "base_path") [] _ _ rfl rfl rfl

theorem isWritable_iff {n : Int} : Text.isWritable n = true ↔ n.natAbs < 10 ^ Text.maxDigits := by
  rw [Text.isWritable, decide_eq_true_eq, Nat.toString_eq_repr]
  exact Nat.length_repr_le_iff (by decide)

/-- A whole number as a package. -/
def numberUpdate (n : Int) : Entries :=
  [(.str "workspace", record [("packages", list [.scalar (.int n)])])]

theorem keyedWithin_numberUpdate (n : Int) : KeyedWithin (.mapping (numberUpdate n)) := by
  refine @keyedWithin_record [("workspace", _)] (List.nodup_singleton _) ?_
  refine List.forall_mem_singleton.2 (keyedWithin_record (List.nodup_singleton _) ?_)
  exact List.forall_mem_singleton.2 (keyedWithin_list _)

theorem isWritable_of_overlay {n : Int} {merged : Entries}
    (h : overlay none Configuration.defaults (numberUpdate n) = .ok merged) :
    Text.isWritable n = true := by
  have hunitable := unitable_of_fitsEntries (overlay_eq_ok.1 h).1
  exact hunitable [.str "workspace", .str "packages"] [] [.scalar (.int n)]
    ⟨("workspace", "packages"), by decide, List.suffix_rfl⟩ rfl rfl _ (List.mem_singleton_self _)

/-- With a package of too many digits, no configuration comes out. -/
theorem not_overlays_longNumber : ¬ ∀ base update : Entries, KeyedWithin (.mapping update) →
    ∃ merged, overlay none base update = .ok merged ∧
      Overlays none (mapping base) (mapping update) (mapping merged) := by
  intro hall
  obtain ⟨merged, hmerged, -⟩ := hall Configuration.defaults (numberUpdate (10 ^ Text.maxDigits))
    (keyedWithin_numberUpdate _)
  have hlong := isWritable_iff.1 (isWritable_of_overlay hmerged)
  have hten : (10 : Int).natAbs = 10 := rfl
  rw [Int.natAbs_pow, hten] at hlong
  exact Nat.lt_irrefl _ hlong

end Setting

end CrateBook
