import CrateBook.Placement
import CrateBook.Proofs.Tables
import Mathlib.Data.List.Nodup

/-!
# What a placement map holds

A map that was built by adding placements is tidy: a placement stands under its own item,
and no item has two placements under one path. The primary placement of an item is then the
only one of its placements that passes for primary.
-/
namespace CrateBook

namespace Placement

theorem pathLe_trans {ps qs rs : List String} (hpq : pathLe ps qs = true)
    (hqr : pathLe qs rs = true) : pathLe ps rs = true := by
  induction ps generalizing qs rs with
  | nil => rfl
  | cons a as ih =>
    cases qs with
    | nil => cases hpq
    | cons b bs =>
      cases rs with
      | nil => cases hqr
      | cons c cs =>
        simp only [pathLe, Bool.or_eq_true, Bool.and_eq_true, decide_eq_true_eq,
          beq_iff_eq] at hpq hqr ⊢
        rcases hpq with hab | ⟨rfl, has⟩
        · rcases hqr with hbc | ⟨rfl, -⟩
          · exact .inl (String.lt_trans hab hbc)
          · exact .inl hab
        · rcases hqr with hac | ⟨rfl, hbs⟩
          · exact .inl hac
          · exact .inr ⟨rfl, ih has hbs⟩

theorem pathLe_total (ps qs : List String) : pathLe ps qs = true ∨ pathLe qs ps = true := by
  induction ps generalizing qs with
  | nil => exact .inl rfl
  | cons a as ih =>
    cases qs with
    | nil => exact .inr rfl
    | cons b bs =>
      simp only [pathLe, Bool.or_eq_true, Bool.and_eq_true, decide_eq_true_eq, beq_iff_eq]
      by_cases hab : a < b
      · exact .inl (.inl hab)
      · by_cases hba : b < a
        · exact .inr (.inl hba)
        · have heq : a = b := String.le_antisymm (String.not_lt.1 hba) (String.not_lt.1 hab)
          exact (ih bs).imp (fun h => .inr ⟨heq, h⟩) fun h => .inr ⟨heq.symm, h⟩

theorem le_iff {p q : Placement} : p.le q = true ↔ p.path.length < q.path.length ∨
    p.path.length = q.path.length ∧ pathLe p.path q.path = true := by
  simp [le]

/-- The order of placements is transitive. -/
theorem le_trans (p q r : Placement) (hpq : p.le q = true) (hqr : q.le r = true) :
    p.le r = true := by
  rw [le_iff] at hpq hqr ⊢
  rcases hpq with hpq | ⟨hpq, hle⟩
  · rcases hqr with hqr | ⟨hqr, -⟩
    · exact .inl (Nat.lt_trans hpq hqr)
    · exact .inl (hqr ▸ hpq)
  · rcases hqr with hqr | ⟨hqr, hle'⟩
    · exact .inl (hpq ▸ hqr)
    · exact .inr ⟨hpq.trans hqr, pathLe_trans hle hle'⟩

theorem le_total (p q : Placement) : (p.le q || q.le p) = true := by
  rw [Bool.or_eq_true, le_iff, le_iff]
  rcases Nat.lt_trichotomy p.path.length q.path.length with hlt | heq | hgt
  · exact .inl (.inl hlt)
  · exact (pathLe_total p.path q.path).imp (fun h => .inr ⟨heq, h⟩)
      fun h => .inr ⟨heq.symm, h⟩
  · exact .inr (.inl hgt)

end Placement

namespace PlacementMap

/-- Every placement stands under its own item, and an item has one placement for a path. -/
structure Tidy (m : PlacementMap) : Prop where
  keyed : ∀ id, ∀ p ∈ m.recorded id, p.itemId = id
  distinct : ∀ id, ((m.recorded id).map Placement.path).Nodup

/-- The map holds a path for an id just if a placement there is recorded. -/
theorem holds_iff {m : PlacementMap} {id : Id} {path : List String} :
    m.holds id path = true ↔ ∃ p ∈ m.recorded id, p.path = path := by
  simp [holds]

theorem holds_of_mem {m : PlacementMap} {id : Id} {p : Placement} (h : p ∈ m.recorded id) :
    m.holds id p.path = true := holds_iff.2 ⟨p, h, rfl⟩

theorem isNew_iff {m : PlacementMap} {p : Placement} :
    m.isNew p = true ↔ ¬ m.holds p.itemId p.path = true := by
  simp [isNew]

theorem mem_recorded_add {m : PlacementMap} {p q : Placement} {id : Id} :
    q ∈ (m.add p).recorded id ↔
      q ∈ m.recorded id ∨ id = p.itemId ∧ m.isNew p = true ∧ q = p := by
  rw [recorded_add]
  split
  · next h => simp [h]
  · next h =>
    have : ¬ (id = p.itemId ∧ m.isNew p = true ∧ q = p) := fun hq => h ⟨hq.1, hq.2.1⟩
    simp [this]

/-- Adding a placement adds its path to what the map holds. -/
theorem holds_add {m : PlacementMap} {p : Placement} {id : Id} {path : List String} :
    (m.add p).holds id path = true ↔
      m.holds id path = true ∨ id = p.itemId ∧ path = p.path := by
  constructor
  · intro h
    obtain ⟨q, hq, rfl⟩ := holds_iff.1 h
    rcases mem_recorded_add.1 hq with hq | ⟨hid, -, rfl⟩
    · exact .inl (holds_of_mem hq)
    · exact .inr ⟨hid, rfl⟩
  · rintro (h | ⟨rfl, rfl⟩)
    · obtain ⟨q, hq, rfl⟩ := holds_iff.1 h
      exact holds_of_mem (mem_recorded_add.2 (.inl hq))
    · by_cases hnew : m.isNew p = true
      · exact holds_of_mem (mem_recorded_add.2 (.inr ⟨rfl, hnew, rfl⟩))
      · have hold : m.holds p.itemId p.path = true := by simpa [isNew] using hnew
        obtain ⟨q, hq, hpath⟩ := holds_iff.1 hold
        exact holds_iff.2 ⟨q, mem_recorded_add.2 (.inl hq), hpath⟩

theorem tidy_empty : ({} : PlacementMap).Tidy where
  keyed := by intro id p hp; simp at hp
  distinct := by intro id; simp

/-- Adding a placement keeps a map tidy: one whose path is taken changes nothing. -/
theorem Tidy.add {m : PlacementMap} (h : m.Tidy) (p : Placement) : (m.add p).Tidy where
  keyed := by
    intro id q hq
    rcases mem_recorded_add.1 hq with hq | ⟨hid, -, rfl⟩
    · exact h.keyed id q hq
    · exact hid.symm
  distinct := by
    intro id
    rw [recorded_add]
    split
    · next hp =>
      obtain ⟨rfl, hnew⟩ := hp
      have hnot : p.path ∉ (m.recorded p.itemId).map Placement.path := by
        intro hm
        obtain ⟨q, hq, hpath⟩ := List.mem_map.1 hm
        exact isNew_iff.1 hnew (holds_iff.2 ⟨q, hq, hpath⟩)
      rw [List.map_append, List.nodup_append]
      refine ⟨h.distinct _, by simp, ?_⟩
      intro a ha b hb hab
      simp only [List.map_cons, List.map_nil, List.mem_singleton] at hb
      exact hnot (hb ▸ hab ▸ ha)
    · exact h.distinct id

/-- Two placements of one item with one path are the same. -/
theorem Tidy.eq_of_path {m : PlacementMap} (h : m.Tidy) {id : Id} {p q : Placement}
    (hp : p ∈ m.recorded id) (hq : q ∈ m.recorded id) (hpath : p.path = q.path) : p = q :=
  List.inj_on_of_nodup_map (h.distinct id) hp hq hpath

theorem mem_placements {m : PlacementMap} {id : Id} {p : Placement} :
    p ∈ m.placements id ↔ p ∈ m.recorded id := by
  simp [placements]

/-- The primary placement of an item is one of those recorded. -/
theorem mem_recorded_of_primary? {m : PlacementMap} {id : Id} {p : Placement}
    (h : m.primary? id = some p) : p ∈ m.recorded id :=
  mem_placements.1 (List.mem_of_mem_head? h)

/-- The primary placement comes no later than any other one. -/
theorem le_of_primary? {m : PlacementMap} {id : Id} {p q : Placement}
    (hp : m.primary? id = some p) (hq : q ∈ m.recorded id) : p = q ∨ p.le q = true := by
  have hsorted : (m.placements id).Pairwise fun a b => a.le b = true :=
    List.pairwise_mergeSort Placement.le_trans Placement.le_total _
  have hmem : q ∈ m.placements id := mem_placements.2 hq
  rw [primary?] at hp
  obtain ⟨rest, hrest⟩ := List.head?_eq_some_iff.1 hp
  rw [hrest] at hsorted hmem
  rcases List.mem_cons.1 hmem with rfl | hmem
  · exact .inl rfl
  · exact .inr ((List.pairwise_cons.1 hsorted).1 q hmem)

/-- An item with a placement has a primary one. -/
theorem exists_primary? {m : PlacementMap} {id : Id} {p : Placement}
    (h : p ∈ m.recorded id) : ∃ q, m.primary? id = some q := by
  have hne : m.placements id ≠ [] := List.ne_nil_of_mem (mem_placements.2 h)
  exact ⟨_, List.head?_eq_some_head hne⟩

/-- A placement that all others come after is the primary one. -/
theorem primary?_eq_some {m : PlacementMap} {id : Id} {p : Placement} (hp : p ∈ m.recorded id)
    (h : ∀ q ∈ m.recorded id, q ≠ p → q.le p = false) : m.primary? id = some p := by
  obtain ⟨q, hq⟩ := exists_primary? hp
  by_cases hqp : q = p
  · exact hqp ▸ hq
  · have hle := (le_of_primary? hq hp).resolve_left hqp
    rw [h q (mem_recorded_of_primary? hq) hqp] at hle
    cases hle

theorem isPrimary_iff {m : PlacementMap} {p : Placement} :
    m.isPrimary p = true ↔ m.primary? p.itemId = some p := by
  simp [isPrimary]

/-- Only one placement of an item passes for primary. -/
theorem eq_of_isPrimary {m : PlacementMap} {p q : Placement} (hp : m.isPrimary p = true)
    (hq : m.isPrimary q = true) (hid : p.itemId = q.itemId) : p = q := by
  rw [isPrimary_iff] at hp hq
  rw [hid, hq] at hp
  exact (Option.some.inj hp).symm

theorem Tidy.isPrimary_of_primary? {m : PlacementMap} (h : m.Tidy) {id : Id} {p : Placement}
    (hp : m.primary? id = some p) : p.itemId = id ∧ m.isPrimary p = true := by
  have hid : p.itemId = id := h.keyed id p (mem_recorded_of_primary? hp)
  exact ⟨hid, isPrimary_iff.2 (hid.symm ▸ hp)⟩

/-- What is recorded of an item is in the map. -/
theorem path_mem_of_recorded {m : PlacementMap} {id : Id} {p : Placement}
    (h : p ∈ m.recorded id) : p.path ∈ m.byId.entries.flatMap fun e => e.2.map Placement.path := by
  unfold recorded at h
  cases hget : m.byId.get? id with
  | none =>
    rw [hget] at h
    exact absurd h List.not_mem_nil
  | some ps =>
    rw [hget] at h
    exact List.mem_flatMap.2 ⟨_, Table.get?_eq_some_iff.1 hget, List.mem_map_of_mem h⟩

end PlacementMap

end CrateBook
