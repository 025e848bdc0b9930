import CrateBook.Proofs.Nodes
import CrateBook.Proofs.Placements
import Mathlib.Data.List.Induction
import Mathlib.Logic.ExistsUnique

/-!
# Placements that are added in a row

A map tells all of the placements that were added to it but for their order: which item was
added under which paths. Of the placements with one item and one path the first one is
recorded, the others change nothing. The placements of an item are put in strict order, so
that the first of them is the only primary one, and its path does not depend on the order in
which placements came in.
-/
namespace CrateBook

namespace Placement

/-- The placement comes in front of another one: it has fewer segments, or as many and the lesser
path. -/
def Before (p q : Placement) : Prop :=
  p.path.length < q.path.length ∨ p.path.length = q.path.length ∧ p.path < q.path

theorem lt_of_pathLe {ps qs : List String} (hle : pathLe ps qs = true) (hne : ps ≠ qs) :
    ps < qs := by
  induction ps generalizing qs with
  | nil =>
    cases qs with
    | nil => exact absurd rfl hne
    | cons b bs => exact List.nil_lt_cons b bs
  | cons a as ih =>
    cases qs with
    | nil => cases hle
    | cons b bs =>
      simp only [pathLe, Bool.or_eq_true, Bool.and_eq_true, decide_eq_true_eq, beq_iff_eq] at hle
      rw [List.cons_lt_cons_iff]
      rcases hle with hab | ⟨rfl, has⟩
      · exact .inl hab
      · exact .inr ⟨rfl, ih has fun heq => hne (heq ▸ rfl)⟩

/-- Of two placements with different paths, the one that comes no later comes in front. -/
theorem before_of_le {p q : Placement} (hle : p.le q = true) (hne : p.path ≠ q.path) :
    p.Before q := by
  rcases le_iff.1 hle with hlt | ⟨heq, hpath⟩
  · exact .inl hlt
  · exact .inr ⟨heq, lt_of_pathLe hpath hne⟩

/-- Placements that come no later than each other have one path. -/
theorem path_eq_of_le {p q : Placement} (hpq : p.le q = true) (hqp : q.le p = true) :
    p.path = q.path := by
  by_contra hne
  rcases before_of_le hpq hne with hlt | ⟨hlen, hlt⟩ <;>
    rcases before_of_le hqp (Ne.symm hne) with hlt' | ⟨hlen', hlt'⟩
  · omega
  · omega
  · omega
  · exact List.lt_irrefl _ (List.lt_trans hlt hlt')

end Placement

namespace PlacementMap

/-- The map of placements that are added in a row. -/
def ofList (ps : List Placement) : PlacementMap := ps.foldl add {}

theorem ofList_append_singleton (ps : List Placement) (p : Placement) :
    ofList (ps ++ [p]) = (ofList ps).add p := by
  simp [ofList]

theorem tidy_ofList (ps : List Placement) : (ofList ps).Tidy := by
  induction ps using List.reverseRecOn with
  | nil => exact tidy_empty
  | append_singleton ps p ih => exact ofList_append_singleton ps p ▸ ih.add p

/-- An item is in the map under the paths under which it was added. -/
theorem holds_ofList {ps : List Placement} {id : Id} {path : List String} :
    (ofList ps).holds id path = true ↔ (id, path) ∈ ps.map Placement.key := by
  induction ps using List.reverseRecOn with
  | nil => simp [ofList, holds]
  | append_singleton ps p ih =>
    rw [ofList_append_singleton, holds_add, ih]
    simp [Placement.key]

theorem add_of_isNew_eq_false {m : PlacementMap} {p : Placement} (h : m.isNew p = false) :
    m.add p = m := by
  have hold : m.holds p.itemId p.path = true := by simpa [isNew] using h
  rw [add, if_pos hold]

theorem contains_add {m : PlacementMap} {p : Placement} {id : Id} (hnew : m.isNew p = true) :
    (m.add p).contains id = true ↔ id = p.itemId ∨ m.contains id = true := by
  have hadd : m.add p = ⟨m.byId.push p.itemId p⟩ := if_neg (isNew_iff.1 hnew)
  simp only [hadd, contains, Table.contains, Table.push, Table.get?_insert]
  by_cases hid : id = p.itemId <;> simp [hid]

/-- An item that is in the map has a placement. -/
theorem exists_recorded_of_contains {ps : List Placement} {id : Id}
    (h : (ofList ps).contains id = true) : ∃ p, p ∈ (ofList ps).recorded id := by
  induction ps using List.reverseRecOn with
  | nil => cases h
  | append_singleton ps p ih =>
    rw [ofList_append_singleton] at h ⊢
    cases hnew : (ofList ps).isNew p with
    | false =>
      rw [add_of_isNew_eq_false hnew] at h ⊢
      exact ih h
    | true =>
      rcases (contains_add hnew).1 h with rfl | hold
      · exact ⟨p, mem_recorded_add.2 (.inr ⟨rfl, hnew, rfl⟩)⟩
      · obtain ⟨q, hq⟩ := ih hold
        exact ⟨q, mem_recorded_add.2 (.inl hq)⟩

/-- The placements of an item stand in strict order. -/
theorem Tidy.pairwise_placements {m : PlacementMap} (h : m.Tidy) (id : Id) :
    (m.placements id).Pairwise Placement.Before := by
  have hperm : (m.placements id).Perm (m.recorded id) := List.mergeSort_perm _ _
  have hpaths : (m.placements id).Pairwise fun p q => p.path ≠ q.path :=
    List.pairwise_map.1 ((hperm.map Placement.path).nodup_iff.2 (h.distinct id))
  have hsorted : (m.placements id).Pairwise fun p q => p.le q = true :=
    List.pairwise_mergeSort Placement.le_trans Placement.le_total _
  exact hsorted.imp₂ (fun p q hle hne => Placement.before_of_le hle hne) hpaths

/-- The primary placement of an item comes in front of its others. -/
theorem Tidy.before_of_primary? {m : PlacementMap} (h : m.Tidy) {id : Id} {p q : Placement}
    (hp : m.primary? id = some p) (hq : q ∈ m.recorded id) (hne : q ≠ p) : p.Before q := by
  have hle := (le_of_primary? hp hq).resolve_left (Ne.symm hne)
  refine Placement.before_of_le hle fun hpath => hne ?_
  exact h.eq_of_path hq (mem_recorded_of_primary? hp) hpath.symm

/-- The primary placement comes no later than any that has a path of its item. -/
theorem le_of_holds {m : PlacementMap} {id : Id} {p r : Placement} (hp : m.primary? id = some p)
    (hr : m.holds id r.path = true) : p.le r = true := by
  obtain ⟨q, hq, hpath⟩ := holds_iff.1 hr
  have hle : p.le q = true := by
    rcases le_of_primary? hp hq with rfl | hle
    · simpa using Placement.le_total p p
    · exact hle
  simpa only [Placement.le, hpath] using hle

theorem exists_primary?_iff {m : PlacementMap} {id : Id} :
    (∃ p, m.primary? id = some p) ↔ ∃ path, m.holds id path = true := by
  constructor
  · rintro ⟨p, hp⟩
    exact ⟨p.path, holds_of_mem (mem_recorded_of_primary? hp)⟩
  · rintro ⟨path, hpath⟩
    obtain ⟨q, hq, -⟩ := holds_iff.1 hpath
    exact exists_primary? hq

/-- Where an item is under the same paths, its primary placement has the same path. -/
theorem primary?_path_eq {m n : PlacementMap} {id : Id}
    (h : ∀ path, m.holds id path = n.holds id path) :
    (m.primary? id).map Placement.path = (n.primary? id).map Placement.path := by
  have hsome : (∃ p, m.primary? id = some p) ↔ ∃ q, n.primary? id = some q := by
    simp only [exists_primary?_iff, h]
  cases hm : m.primary? id with
  | none =>
    cases hn : n.primary? id with
    | none => rfl
    | some q => simp [hm, hn] at hsome
  | some p =>
    obtain ⟨q, hn⟩ := hsome.1 ⟨p, hm⟩
    have hq : m.holds id q.path = true :=
      h q.path ▸ holds_of_mem (mem_recorded_of_primary? hn)
    have hp : n.holds id p.path = true :=
      h p.path ▸ holds_of_mem (mem_recorded_of_primary? hm)
    rw [hn, Option.map_some, Option.map_some,
      Placement.path_eq_of_le (le_of_holds hm hq) (le_of_holds hn hp)]

/-- What a map tells that records some placements. -/
structure Records (m : PlacementMap) (ps : List Placement) : Prop where
  /-- The paths of an item are distinct. -/
  distinct : ∀ id, ((m.recorded id).map Placement.path).Nodup
  /-- An item is in the map under the paths under which it was added. -/
  holds_iff : ∀ id path, m.holds id path = true ↔ (id, path) ∈ ps.map Placement.key
  /-- A placement is new unless its item was added under its path. -/
  isNew_iff : ∀ p, m.isNew p = true ↔ p.key ∉ ps.map Placement.key
  /-- A new placement is recorded behind the others of its item. -/
  add_new : ∀ p, m.isNew p = true → ∀ id, (m.add p).recorded id =
    if id = p.itemId then m.recorded id ++ [p] else m.recorded id
  /-- Any other one changes nothing. -/
  add_old : ∀ p, m.isNew p = false → m.add p = m
  /-- The placements of an item are the recorded ones. -/
  perm : ∀ id, (m.placements id).Perm (m.recorded id)
  /-- They stand in strict order. -/
  ordered : ∀ id, (m.placements id).Pairwise Placement.Before
  /-- The primary placement is the first of them. -/
  head : ∀ id, (m.placements id).head? = m.primary? id
  /-- It comes in front of all others. -/
  least : ∀ id p, m.primary? id = some p → ∀ q ∈ m.recorded id, q ≠ p → p.Before q
  /-- An item in the map has one placement that passes for primary. -/
  unique : ∀ id, m.contains id = true → ∃! p, p ∈ m.recorded id ∧ m.isPrimary p = true
  /-- In another order the same placements give the same paths. -/
  reorder : ∀ qs, qs.Perm ps → ∀ id,
    ((ofList qs).primary? id).map Placement.path = (m.primary? id).map Placement.path ∧
    ∀ path, (ofList qs).holds id path = m.holds id path

/-- Whatever placements are added to a map, and in whatever order, it records them. -/
theorem records_ofList (ps : List Placement) : (ofList ps).Records ps where
  distinct := (tidy_ofList ps).distinct
  holds_iff id path := holds_ofList
  isNew_iff p := PlacementMap.isNew_iff.trans (not_congr holds_ofList)
  add_new p hnew id := by
    rw [recorded_add]
    simp [hnew]
  add_old p := add_of_isNew_eq_false
  perm id := List.mergeSort_perm _ _
  ordered := (tidy_ofList ps).pairwise_placements
  head id := rfl
  least id p hp q := (tidy_ofList ps).before_of_primary? hp
  unique id hid := by
    obtain ⟨q, hq⟩ := exists_recorded_of_contains hid
    obtain ⟨p, hp⟩ := exists_primary? hq
    have hprimary := (tidy_ofList ps).isPrimary_of_primary? hp
    refine ⟨p, ⟨mem_recorded_of_primary? hp, hprimary.2⟩, ?_⟩
    rintro r ⟨hr, hr'⟩
    exact eq_of_isPrimary hr' hprimary.2 (((tidy_ofList ps).keyed id r hr).trans hprimary.1.symm)
  reorder qs hperm id := by
    have hholds (path : List String) : (ofList qs).holds id path = (ofList ps).holds id path := by
      rw [Bool.eq_iff_iff, holds_ofList, holds_ofList, (hperm.map Placement.key).mem_iff]
    exact ⟨primary?_path_eq hholds, hholds⟩

end PlacementMap

end CrateBook
