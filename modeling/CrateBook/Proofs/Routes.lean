import CrateBook.Tree.Walk
import Mathlib.Logic.Relation

/-!
# Routes of re-exports

A chain of re-exports ends at the first item that is no re-export; the walk along it finds
that end if it is near enough, since a chain that has an end meets no item twice. Globs lead
from module to module. A walk that opens each module once still reaches every module to
which some route leads: what lies behind a module that was opened before is met behind its
first opening, because a route can be cut at its last visit there.
-/
namespace CrateBook

section

variable {α : Type} {r : α → α → Prop} {avoid : α → Prop}

/-- A route either keeps clear of a place, or leaves it for good after a last visit. -/
theorem exists_last_visit {a k : α}
    (h : Relation.ReflTransGen (fun b c => r b c ∧ ¬ avoid c) a k) (t : α) :
    a ≠ t ∧ Relation.ReflTransGen (fun b c => r b c ∧ ¬ (avoid c ∨ c = t)) a k ∨ k = t ∨
      ∃ s, r t s ∧ ¬ (avoid s ∨ s = t) ∧
        Relation.ReflTransGen (fun b c => r b c ∧ ¬ (avoid c ∨ c = t)) s k := by
  induction h with
  | refl =>
    by_cases ha : a = t
    · exact .inr (.inl ha)
    · exact .inl ⟨ha, .refl⟩
  | @tail k l _ hstep ih =>
    by_cases hl : l = t
    · exact .inr (.inl hl)
    · have hclear : ¬ (avoid l ∨ l = t) := fun h => h.elim hstep.2 hl
      rcases ih with ⟨ha, hroute⟩ | rfl | ⟨s, hs, hsclear, hroute⟩
      · exact .inl ⟨ha, hroute.tail ⟨hstep.1, hclear⟩⟩
      · exact .inr (.inr ⟨l, hstep.1, hclear, .refl⟩)
      · exact .inr (.inr ⟨s, hs, hsclear, hroute.tail ⟨hstep.1, hclear⟩⟩)

theorem route_of_narrower {a k t : α}
    (h : Relation.ReflTransGen (fun b c => r b c ∧ ¬ (avoid c ∨ c = t)) a k) :
    Relation.ReflTransGen (fun b c => r b c ∧ ¬ avoid c) a k :=
  Relation.ReflTransGen.mono (fun _ _ hstep => ⟨hstep.1, fun hc => hstep.2 (.inl hc)⟩) _ _ h

end

namespace Export

variable (x : Export) (includePrivate : Bool)

/-- What a module lists; nothing for an id that is no module. -/
def listed (m : Id) : List Id :=
  match x.items.payload? m with
  | some (.module b) => b.items
  | _ => []

variable {x} in
theorem listed_module {m : Id} {b : ModuleBody} (h : x.items.payload? m = some (.module b)) :
    x.listed m = b.items := by
  rw [listed, h]

variable {x} in
theorem listed_eq_nil {m : Id} (h : ∀ b, x.items.payload? m ≠ some (.module b)) :
    x.listed m = [] := by
  unfold listed
  split
  · next b hb => exact absurd hb (h b)
  · rfl

/-- The id is an included re-export. -/
def IsUse (id : Id) (y : Item) (u : UseBody) : Prop :=
  x.items.get? id = some y ∧ y.isIncluded includePrivate = true ∧ y.payload = .use u

/-- The id is an included glob re-export of a known item. -/
def IsGlobOf (id target : Id) : Prop :=
  ∃ y u, x.IsUse includePrivate id y u ∧ u.isGlob = true ∧ u.target = some target ∧
    x.items.contains target = true

/-- The module opens another one by a glob. -/
def Opens (m k : Id) : Prop := ∃ id ∈ x.listed m, x.IsGlobOf includePrivate id k

/-- Re-exports lead in so many steps from an id to an item that is no re-export. -/
inductive ChainsTo : Nat → Id → Id → Prop
  | ends {id : Id} : (∀ u, x.items.payload? id ≠ some (.use u)) → ChainsTo 0 id id
  | hop {n : Nat} {id target last : Id} {u : UseBody} :
      x.items.payload? id = some (.use u) → u.isGlob = false → u.target = some target →
      ChainsTo n target last → ChainsTo (n + 1) id last

variable {x includePrivate}

/-- A chain has one length and one end. -/
theorem ChainsTo.unique {m n : Nat} {id a b : Id} (ha : x.ChainsTo m id a)
    (hb : x.ChainsTo n id b) : m = n ∧ a = b := by
  induction ha generalizing n with
  | ends hno =>
    cases hb with
    | ends _ => exact ⟨rfl, rfl⟩
    | hop hu _ _ _ => exact absurd hu (hno _)
  | hop hu _ ht _ ih =>
    cases hb with
    | ends hno => exact absurd hu (hno _)
    | hop hu' _ ht' hrest =>
      obtain rfl := Payload.use.inj (Option.some.inj (hu.symm.trans hu'))
      obtain rfl := Option.some.inj (ht.symm.trans ht')
      obtain ⟨rfl, rfl⟩ := ih hrest
      exact ⟨rfl, rfl⟩

theorem ChainsTo.not_use {n : Nat} {id last : Id} (h : x.ChainsTo n id last) (u : UseBody) :
    x.items.payload? last ≠ some (.use u) := by
  induction h with
  | ends hno => exact hno u
  | hop _ _ _ _ ih => exact ih

theorem chainsTo_of_chainEnd {fuel : Nat} {seen : List Id} {id last : Id}
    (h : Tree.chainEnd x.items fuel seen id = some last) : ∃ n < fuel, x.ChainsTo n id last := by
  induction fuel generalizing seen id with
  | zero => simp [Tree.chainEnd] at h
  | succ fuel ih =>
    rw [Tree.chainEnd] at h
    split at h
    · next u hu =>
      split at h
      · simp at h
      · next hgo =>
        obtain ⟨t, ht, h⟩ := Option.bind_eq_some_iff.1 h
        obtain ⟨n, hn, hchain⟩ := ih h
        have hglob : u.isGlob = false := by simp_all
        exact ⟨n + 1, Nat.succ_lt_succ hn, .hop hu hglob ht hchain⟩
    · next hno =>
      obtain rfl := Option.some.inj h
      exact ⟨0, Nat.succ_pos _, .ends fun u hu => hno u hu⟩

/-- What was seen before on a chain is further from the end than what comes next. -/
theorem chainEnd_of_chainsTo {n fuel : Nat} {seen : List Id} {id last : Id}
    (h : x.ChainsTo n id last) (hfuel : n < fuel)
    (hseen : ∀ s ∈ seen, ∃ k, n < k ∧ x.ChainsTo k s last) :
    Tree.chainEnd x.items fuel seen id = some last := by
  induction h generalizing fuel seen with
  | ends hno =>
    obtain ⟨fuel, rfl⟩ := Nat.exists_eq_succ_of_ne_zero (Nat.ne_of_gt hfuel)
    rw [Tree.chainEnd]
    split
    · next u hu => exact absurd hu (hno u)
    · rfl
  | @hop n id _ last _ hu hglob ht hchain ih =>
    have hself : x.ChainsTo (n + 1) id last := .hop hu hglob ht hchain
    obtain ⟨fuel, rfl⟩ := Nat.exists_eq_succ_of_ne_zero (Nat.ne_of_gt (Nat.zero_lt_of_lt hfuel))
    have hfresh : seen.contains id = false := by
      rw [Bool.eq_false_iff, ne_eq, List.contains_iff_mem]
      intro hmem
      obtain ⟨k, hk, hagain⟩ := hseen id hmem
      exact Nat.ne_of_lt hk (hself.unique hagain).1
    simp only [Tree.chainEnd, hu, hglob, hfresh, ht, Option.bind_some]
    refine ih (Nat.lt_of_succ_lt_succ hfuel) fun s hs => ?_
    rcases List.mem_cons.1 hs with rfl | hs
    · exact ⟨n + 1, Nat.lt_succ_self n, hself⟩
    · obtain ⟨k, hk, hagain⟩ := hseen s hs
      exact ⟨k, Nat.lt_of_succ_lt hk, hagain⟩

/-- The walk along a chain finds the end of each chain that is not too long. -/
theorem chainEnd_eq_some_iff {id last : Id} :
    Tree.chainEnd x.items Tree.maxChain [] id = some last ↔
      ∃ n < Tree.maxChain, x.ChainsTo n id last := by
  constructor
  · exact chainsTo_of_chainEnd
  · rintro ⟨n, hn, hchain⟩
    exact chainEnd_of_chainsTo hchain hn fun s hs => absurd hs List.not_mem_nil

/-- Whether an included re-export is a glob of an item is told by its own body. -/
theorem IsUse.isGlobOf_iff {id t : Id} {y : Item} {u : UseBody}
    (h : x.IsUse includePrivate id y u) : x.IsGlobOf includePrivate id t ↔
      u.isGlob = true ∧ u.target = some t ∧ x.items.contains t = true := by
  constructor
  · rintro ⟨y', u', ⟨hy, -, hu⟩, hglob⟩
    obtain rfl := Option.some.inj (h.1.symm.trans hy)
    obtain rfl := Payload.use.inj (h.2.2.symm.trans hu)
    exact hglob
  · exact fun hglob => ⟨y, u, h, hglob⟩

theorem IsGlobOf.unique {id a b : Id} (ha : x.IsGlobOf includePrivate id a)
    (hb : x.IsGlobOf includePrivate id b) : a = b := by
  obtain ⟨y, u, huse, -, hta, -⟩ := ha
  exact Option.some.inj (hta.symm.trans (huse.isGlobOf_iff.1 hb).2.1)

/-- What a glob is of is known. -/
theorem IsGlobOf.mem_ids {id t : Id} (h : x.IsGlobOf includePrivate id t) : t ∈ x.items.ids := by
  obtain ⟨y, u, -, -, -, hknown⟩ := h
  obtain ⟨m, hm⟩ := Option.isSome_iff_exists.1 hknown
  exact Items.mem_ids_of_get? hm

variable (x includePrivate)

/-- A glob leads to a module that is not to be avoided. -/
def GlobStep (avoid : Id → Prop) (m k : Id) : Prop := x.Opens includePrivate m k ∧ ¬ avoid k

/-- Globs among some ids lead to a module, past all that is to be avoided. -/
def Reaches (avoid : Id → Prop) (ids : List Id) (k : Id) : Prop :=
  ∃ id ∈ ids, ∃ t, x.IsGlobOf includePrivate id t ∧ ¬ avoid t ∧
    Relation.ReflTransGen (x.GlobStep includePrivate avoid) t k

/-- An id is among some ids, or listed by a module to which globs among them lead. -/
def ListedFrom (avoid : Id → Prop) (ids : List Id) (i : Id) : Prop :=
  i ∈ ids ∨ ∃ k, x.Reaches includePrivate avoid ids k ∧ i ∈ x.listed k

variable {x includePrivate} {avoid : Id → Prop}

theorem reaches_append_iff {as bs : List Id} {k : Id} :
    x.Reaches includePrivate avoid (as ++ bs) k ↔
      x.Reaches includePrivate avoid as k ∨ x.Reaches includePrivate avoid bs k := by
  simp only [Reaches, List.mem_append, or_and_right, exists_or]

/-- All that a module leads to is that module, or is met from its list without it. -/
theorem reflTransGen_iff_reaches {t k : Id} :
    Relation.ReflTransGen (x.GlobStep includePrivate avoid) t k ↔
      k = t ∨ x.Reaches includePrivate (fun i => avoid i ∨ i = t) (x.listed t) k := by
  constructor
  · intro h
    rcases exists_last_visit h t with ⟨hne, -⟩ | hk | ⟨s, ⟨id, hid, hglob⟩, hs, hroute⟩
    · exact absurd rfl hne
    · exact .inl hk
    · exact .inr ⟨id, hid, s, hglob, hs, hroute⟩
  · rintro (rfl | ⟨id, hid, s, hglob, hs, hroute⟩)
    · exact .refl
    · exact .head ⟨⟨id, hid, hglob⟩, fun h => hs (.inl h)⟩ (route_of_narrower hroute)

/-- To open a module is to put its list in front and to avoid the module from then on. -/
theorem reaches_cons_iff {id t : Id} (hglob : x.IsGlobOf includePrivate id t) (ht : ¬ avoid t)
    {rest : List Id} {k : Id} : x.Reaches includePrivate avoid (id :: rest) k ↔
      k = t ∨ x.Reaches includePrivate (fun i => avoid i ∨ i = t) (x.listed t ++ rest) k := by
  rw [reaches_append_iff, ← or_assoc, ← reflTransGen_iff_reaches]
  constructor
  · rintro ⟨j, hj, s, hjglob, hs, hroute⟩
    rcases List.mem_cons.1 hj with rfl | hj
    · exact .inl (hjglob.unique hglob ▸ hroute)
    · rcases exists_last_visit hroute t with ⟨hne, hclear⟩ | hk | ⟨v, hv, hvclear, hclear⟩
      · exact .inr ⟨j, hj, s, hjglob, fun h => h.elim hs hne, hclear⟩
      · exact .inl (hk ▸ .refl)
      · exact .inl (.head ⟨hv, fun h => hvclear (.inl h)⟩ (route_of_narrower hclear))
  · rintro (hroute | ⟨j, hj, s, hjglob, hs, hroute⟩)
    · exact ⟨id, List.mem_cons_self, t, hglob, ht, hroute⟩
    · exact ⟨j, List.mem_cons_of_mem _ hj, s, hjglob, fun h => hs (.inl h),
        route_of_narrower hroute⟩

/-- An id that opens nothing may be passed over. -/
theorem reaches_cons_of_closed {id : Id} {rest : List Id} {k : Id}
    (h : ∀ t, x.IsGlobOf includePrivate id t → avoid t) :
    x.Reaches includePrivate avoid (id :: rest) k ↔ x.Reaches includePrivate avoid rest k := by
  constructor
  · rintro ⟨j, hj, t, hglob, ht, hroute⟩
    rcases List.mem_cons.1 hj with rfl | hj
    · exact absurd (h t hglob) ht
    · exact ⟨j, hj, t, hglob, ht, hroute⟩
  · rintro ⟨j, hj, hrest⟩
    exact ⟨j, List.mem_cons_of_mem _ hj, hrest⟩

end Export

end CrateBook
