import CrateBook.Proofs.Growth
import CrateBook.Proofs.Routes

/-!
# What a module offers

The candidates of a module are computed by a walk over its list, along chains and through
globs. Here they are described without the walk: a module offers an item under a name if it
lists the item, if it re-exports it under that name, or if a route of globs leads to a module
that lists it, past the module itself and those above it.
-/
namespace CrateBook

namespace Export

variable (x : Export) (includePrivate : Bool)

/-- The item can be shown on its own, under whatever name. -/
structure IsPlaceable (id : Id) (y : Item) : Prop where
  known : x.items.get? id = some y
  included : y.isIncluded includePrivate = true
  noModule : y.payload.isModule = false
  noUse : ∀ u, y.payload ≠ .use u
  kind : y.kind ∉ Tree.neverPlaced

/-- The ways in which a module offers an item under a name. `above` holds the ids of the
module and of those above it in the tree. -/
inductive Offers (above : List Id) (m id : Id) (y : Item) : String → Prop
  /-- The module lists the item. -/
  | listed {name : String} : id ∈ x.listed m → y.name = some name → Offers above m id y name
  /-- The module lists a re-export that leads to the item over no more than nine others. -/
  | chained {use target : Id} {z : Item} {u : UseBody} {n : Nat} :
      use ∈ x.listed m → x.IsUse includePrivate use z u → u.isGlob = false →
      u.target = some target → x.items.contains target = true → x.ChainsTo n target id →
      n < Tree.maxChain → Offers above m id y u.name
  /-- Globs lead from the module to one that lists the item. -/
  | globbed {k : Id} {name : String} :
      Relation.TransGen (x.GlobStep includePrivate (· ∈ above)) m k →
      id ∈ x.listed k → y.name = some name → Offers above m id y name

end Export

namespace Tree

variable {x : Export} {includePrivate : Bool}

/-- The candidates that an included item is by itself; a re-export is none. -/
def ownCandidates (x : Export) (includePrivate via : Bool) (id : Id) : List Candidate :=
  match x.items.get? id with
  | none => []
  | some y =>
    if y.isIncluded includePrivate then
      match y.payload with
      | .use _ => []
      | _ => candidate y y.name via
    else []

section

variable {id j : Id} {y : Item} {nm : Option String} {name : String} {via v : Bool}

theorem member_mem_candidate (hy : x.items.get? j = some y) :
    .member id name v ∈ candidate y nm via ↔ v = via ∧ id = j ∧ nm = some name ∧ name ≠ "" ∧
      y.payload.isModule = false ∧ y.kind ∉ neverPlaced := by
  have hid : y.id = j := Items.id_of_get? hy
  unfold candidate
  cases nm with
  | none => simp
  | some n =>
    by_cases hn : n.isEmpty = true
    · have hempty : n = "" := by simpa using hn
      simp only [hn, if_true, List.not_mem_nil, Option.some.injEq, false_iff]
      rintro ⟨-, -, rfl, hne, -⟩
      exact hne hempty
    · have hne : n ≠ "" := by simpa using hn
      cases hmod : y.payload.isModule with
      | true => simp [hn]
      | false =>
        by_cases hk : y.kind ∈ neverPlaced
        · simp [hn, hk]
        · simp only [hn, hk, hid, List.contains_eq_mem, decide_false, Bool.false_eq_true, if_false,
            List.mem_singleton, Candidate.member.injEq, Option.some.injEq, not_false_eq_true,
            and_true]
          constructor
          · rintro ⟨rfl, rfl, rfl⟩
            exact ⟨rfl, rfl, rfl, hne⟩
          · rintro ⟨rfl, rfl, rfl, -⟩
            exact ⟨rfl, rfl, rfl⟩

theorem mem_ownCandidates {c : Candidate} (hy : x.items.get? j = some y) :
    c ∈ ownCandidates x includePrivate via j ↔ y.isIncluded includePrivate = true ∧
      (∀ u, y.payload ≠ .use u) ∧ c ∈ candidate y y.name via := by
  rw [ownCandidates, hy]
  cases hinc : y.isIncluded includePrivate with
  | false => simp [hinc]
  | true =>
    simp only [hinc, if_true, true_and]
    split
    · next u hu => simp [hu]
    · next hno => exact ⟨fun hc => ⟨fun u hu => hno u hu, hc⟩, fun hc => hc.2⟩

theorem member_mem_ownCandidates : .member id name v ∈ ownCandidates x includePrivate via j ↔
    v = via ∧ id = j ∧ name ≠ "" ∧ ∃ y, x.IsPlaceable includePrivate id y ∧ y.name = some name := by
  cases hy : x.items.get? j with
  | none =>
    simp only [ownCandidates, hy, List.not_mem_nil, false_iff]
    rintro ⟨-, rfl, -, y, hplace, -⟩
    exact absurd (hy.symm.trans hplace.known) (by simp)
  | some y =>
    rw [mem_ownCandidates hy, member_mem_candidate hy]
    constructor
    · rintro ⟨hinc, huse, hvia, rfl, hname, hne, hmod, hkind⟩
      exact ⟨hvia, rfl, hne, y, ⟨hy, hinc, hmod, huse, hkind⟩, hname⟩
    · rintro ⟨hvia, rfl, hne, z, hplace, hname⟩
      obtain rfl := Option.some.inj (hy.symm.trans hplace.known)
      exact ⟨hplace.included, hplace.noUse, hvia, rfl, hname, hne, hplace.noModule, hplace.kind⟩

end

/-! ## The walk through globs -/

section

variable {stack seen : List Id} {id t : Id}

/-- A glob of a known item, as the walk comes upon it. -/
theorem isGlobOf_target {y m : Item} {u : UseBody} (huse : x.IsUse includePrivate id y u)
    (hglob : ¬ u.isGlob = false) (htarget : u.target = some t) (hm : x.items.get? t = some m) :
    x.IsGlobOf includePrivate id t :=
  huse.isGlobOf_iff.2 ⟨by simpa using hglob, htarget, by simp [Items.contains, hm]⟩

/-- An id that is no glob lists itself only. -/
theorem listGlobs_cons_of_item (rest : List Id)
    (h : ∀ t, ¬ x.IsGlobOf includePrivate id t) :
    listGlobs x includePrivate stack seen (id :: rest) =
      ownCandidates x includePrivate true id ++ listGlobs x includePrivate stack seen rest := by
  rw [listGlobs, ownCandidates]
  cases hchild : x.items.get? id with
  | none => simp
  | some child =>
    dsimp only
    split
    · next hinc =>
      cases hu : child.payload with
      | use u =>
        dsimp only
        rw [List.nil_append]
        split
        · rfl
        · next target htarget =>
          split
          · rfl
          · next m hm =>
            refine if_pos ?_
            by_contra hglob
            exact h target (isGlobOf_target ⟨hchild, hinc, hu⟩ hglob htarget hm)
      | _ => rfl
    · rfl

/-- A glob is passed over if its target was met before. -/
theorem listGlobs_cons_of_glob (rest : List Id) (h : x.IsGlobOf includePrivate id t) :
    listGlobs x includePrivate stack seen (id :: rest) =
      if t ∈ seen then listGlobs x includePrivate stack seen rest
      else listGlobs x includePrivate stack (t :: seen)
        (if t ∈ stack then rest else x.listed t ++ rest) := by
  obtain ⟨y, u, ⟨hy, hinc, hu⟩, hglob, htarget, hknown⟩ := h
  obtain ⟨m, hm⟩ := Option.isSome_iff_exists.1 hknown
  rw [listGlobs]
  simp only [hy, hinc, hu, htarget, hglob, if_true, Bool.true_eq_false, if_false]
  split
  · next hnone => exact absurd (hnone.symm.trans hm) (by simp)
  · next m' hm' =>
    obtain rfl := Option.some.inj (hm.symm.trans hm')
    by_cases hseen : t ∈ seen
    · simp [hseen]
    · simp only [hseen, dite_false, if_false]
      have hpayload : x.items.payload? t = some m.payload := by rw [Items.payload?, hm]; rfl
      split
      · next b hb =>
        rw [Export.listed_module (hpayload.trans (congrArg some hb))]
        simp
      · next hno =>
        have hnil : x.listed t = [] :=
          Export.listed_eq_nil fun b hb => hno b (Option.some.inj (hpayload.symm.trans hb))
        rw [hnil, List.nil_append, ite_self]

/-- The walk goes on as from another list: past an id that is no glob and past a glob of a module
that was met before, and at any other glob with the list of its module in front. -/
@[elab_as_elim]
theorem listGlobs_induction (x : Export) (includePrivate : Bool) (stack : List Id)
    {motive : List Id → List Id → Prop} (nil : ∀ seen, motive seen [])
    (item : ∀ {seen : List Id} {id : Id} {rest : List Id},
      (∀ t, ¬ x.IsGlobOf includePrivate id t) → motive seen rest → motive seen (id :: rest))
    (again : ∀ {seen : List Id} {id t : Id} {rest : List Id}, x.IsGlobOf includePrivate id t →
      t ∈ seen → motive seen rest → motive seen (id :: rest))
    (opens : ∀ {seen : List Id} {id t : Id} {rest : List Id}, x.IsGlobOf includePrivate id t →
      t ∉ seen → motive (t :: seen) (if t ∈ stack then rest else x.listed t ++ rest) →
      motive seen (id :: rest))
    (seen ids : List Id) : motive seen ids := by
  -- opening a module leaves fewer ids to meet, and anything else leaves a shorter list
  induction hn : unseen x.items seen using Nat.strongRecOn generalizing seen ids with
  | ind n ihn =>
    subst hn
    induction ids with
    | nil => exact nil seen
    | cons id rest ih =>
      by_cases hglob : ∃ t, x.IsGlobOf includePrivate id t
      · obtain ⟨t, ht⟩ := hglob
        by_cases hseen : t ∈ seen
        · exact again ht hseen ih
        · exact opens ht hseen (ihn _ (unseen_cons_lt ht.mem_ids hseen) _ _ rfl)
      · exact item (not_exists.1 hglob) ih

/-- Exports with the same globs, the same lists and the same items list the same. -/
theorem listGlobs_congr {y : Export}
    (hglob : ∀ id t, y.IsGlobOf includePrivate id t ↔ x.IsGlobOf includePrivate id t)
    (hown : ownCandidates y includePrivate true = ownCandidates x includePrivate true)
    (hlisted : y.listed = x.listed) (stack seen ids : List Id) :
    listGlobs y includePrivate stack seen ids = listGlobs x includePrivate stack seen ids := by
  induction seen, ids using listGlobs_induction x includePrivate stack with
  | nil seen => rw [listGlobs, listGlobs]
  | item hno ih =>
    have hno' : ∀ t, ¬ y.IsGlobOf includePrivate _ t := fun t ht => hno t ((hglob _ t).1 ht)
    rw [listGlobs_cons_of_item _ hno, listGlobs_cons_of_item _ hno', hown, ih]
  | again h hseen ih =>
    have h' := (hglob _ _).2 h
    rw [listGlobs_cons_of_glob _ h, listGlobs_cons_of_glob _ h', if_pos hseen, if_pos hseen, ih]
  | opens h hseen ih =>
    have h' := (hglob _ _).2 h
    rw [listGlobs_cons_of_glob _ h, listGlobs_cons_of_glob _ h', if_neg hseen, if_neg hseen,
      hlisted, ih]

end

/-- A candidate is listed by itself or behind globs, past all that is to be avoided. -/
def GlobLists (x : Export) (includePrivate : Bool) (avoid : Id → Prop) (ids : List Id)
    (c : Candidate) : Prop :=
  ∃ i, x.ListedFrom includePrivate avoid ids i ∧ c ∈ ownCandidates x includePrivate true i

section

variable {c : Candidate} {avoid : Id → Prop} {id t : Id} {rest : List Id}

/-- An id that opens nothing lists itself only. -/
theorem globLists_cons_of_closed (h : ∀ t, x.IsGlobOf includePrivate id t → avoid t) :
    GlobLists x includePrivate avoid (id :: rest) c ↔
      c ∈ ownCandidates x includePrivate true id ∨ GlobLists x includePrivate avoid rest c := by
  simp only [GlobLists, Export.ListedFrom, Export.reaches_cons_of_closed h, List.mem_cons, or_assoc,
    or_and_right, exists_or, exists_eq_left]

theorem ownCandidates_of_glob (h : x.IsGlobOf includePrivate id t) (via : Bool) :
    ownCandidates x includePrivate via id = [] := by
  obtain ⟨y, u, ⟨hy, hinc, hu⟩, -⟩ := h
  simp [ownCandidates, hy, hinc, hu]

/-- A glob lists what the module behind it lists and what is reached from there. -/
theorem globLists_cons_of_glob (h : x.IsGlobOf includePrivate id t) (ht : ¬ avoid t) :
    GlobLists x includePrivate avoid (id :: rest) c ↔
      GlobLists x includePrivate (fun i => avoid i ∨ i = t) (x.listed t ++ rest) c := by
  have hself : ∀ i, i = id → c ∉ ownCandidates x includePrivate true i := by
    rintro i rfl
    simp [ownCandidates_of_glob h]
  constructor
  · rintro ⟨i, hi | ⟨k, hk, hik⟩, hc⟩
    · rcases List.mem_cons.1 hi with hi | hi
      · exact absurd hc (hself i hi)
      · exact ⟨i, .inl (List.mem_append_right _ hi), hc⟩
    · rcases (Export.reaches_cons_iff h ht).1 hk with rfl | hk
      · exact ⟨i, .inl (List.mem_append_left _ hik), hc⟩
      · exact ⟨i, .inr ⟨k, hk, hik⟩, hc⟩
  · rintro ⟨i, hi | ⟨k, hk, hik⟩, hc⟩
    · rcases List.mem_append.1 hi with hi | hi
      · exact ⟨i, .inr ⟨t, (Export.reaches_cons_iff h ht).2 (.inl rfl), hi⟩, hc⟩
      · exact ⟨i, .inl (List.mem_cons_of_mem _ hi), hc⟩
    · exact ⟨i, .inr ⟨k, (Export.reaches_cons_iff h ht).2 (.inr hk), hik⟩, hc⟩

variable {stack seen : List Id}

/-- The step of the walk at a glob of a module that was not seen before. -/
theorem globLists_step (havoid : ∀ i, avoid i ↔ i ∈ seen ∨ i ∈ stack)
    (h : x.IsGlobOf includePrivate id t) (hseen : t ∉ seen) {walk : Prop}
    (ih : ∀ {avoid : Id → Prop}, (∀ i, avoid i ↔ i ∈ t :: seen ∨ i ∈ stack) →
      (walk ↔ GlobLists x includePrivate avoid
        (if t ∈ stack then rest else x.listed t ++ rest) c)) :
    walk ↔ GlobLists x includePrivate avoid (id :: rest) c := by
  by_cases hstack : t ∈ stack
  · -- the module is not opened, and was to be avoided before
    have havoid' : ∀ i, avoid i ↔ i ∈ t :: seen ∨ i ∈ stack := by
      intro i
      rw [havoid, List.mem_cons]
      constructor
      · tauto
      · rintro ((rfl | hi) | hi)
        · exact .inr hstack
        · exact .inl hi
        · exact .inr hi
    have hclosed : ∀ t', x.IsGlobOf includePrivate id t' → avoid t' := by
      intro t' ht'
      obtain rfl := ht'.unique h
      exact (havoid _).2 (.inr hstack)
    rw [ih havoid', globLists_cons_of_closed hclosed, ownCandidates_of_glob h]
    simp [hstack]
  · have ht : ¬ avoid t := fun hmem => ((havoid t).1 hmem).elim hseen hstack
    have havoid' : ∀ i, avoid i ∨ i = t ↔ i ∈ t :: seen ∨ i ∈ stack := by
      intro i
      rw [havoid, List.mem_cons]
      tauto
    rw [ih havoid', globLists_cons_of_glob h ht]
    simp [hstack]

/-- The walk through globs lists what some route reaches, whatever it has opened before. -/
theorem mem_listGlobs (stack seen ids : List Id)
    (havoid : ∀ i, avoid i ↔ i ∈ seen ∨ i ∈ stack) :
    c ∈ listGlobs x includePrivate stack seen ids ↔ GlobLists x includePrivate avoid ids c := by
  induction seen, ids using listGlobs_induction x includePrivate stack generalizing avoid with
  | nil seen => simp [listGlobs, GlobLists, Export.ListedFrom, Export.Reaches]
  | item hno ih =>
    have hclosed : ∀ t, x.IsGlobOf includePrivate _ t → avoid t := fun t ht => absurd ht (hno t)
    rw [listGlobs_cons_of_item _ hno, List.mem_append, ih havoid, globLists_cons_of_closed hclosed]
  | again hglob hseen ih =>
    have hclosed : ∀ t, x.IsGlobOf includePrivate _ t → avoid t := fun t ht =>
      (havoid t).2 (.inl (ht.unique hglob ▸ hseen))
    rw [listGlobs_cons_of_glob _ hglob, if_pos hseen, ih havoid, globLists_cons_of_closed hclosed,
      ownCandidates_of_glob hglob, or_iff_right List.not_mem_nil]
  | opens hglob hseen ih =>
    rw [listGlobs_cons_of_glob _ hglob, if_neg hseen]
    exact globLists_step havoid hglob hseen ih

/-- A glob lists the items of the modules on its routes, unless it leads back up. -/
theorem mem_listGlob : c ∈ listGlob x includePrivate stack t ↔ t ∉ stack ∧
    ∃ k, Relation.ReflTransGen (x.GlobStep includePrivate (· ∈ stack)) t k ∧
      ∃ i ∈ x.listed k, c ∈ ownCandidates x includePrivate true i := by
  have hwalk : listGlob x includePrivate stack t =
      if t ∈ stack then [] else listGlobs x includePrivate stack [t] (x.listed t) := by
    unfold listGlob
    split
    · next ht => simp [List.contains_iff_mem.1 ht]
    · next ht =>
      have ht : t ∉ stack := fun h => ht (List.contains_iff_mem.2 h)
      split
      · next b hb => rw [if_neg ht, Export.listed_module hb]
      · next hno => rw [if_neg ht, Export.listed_eq_nil fun b hb => hno b hb, listGlobs]
  have havoid : ∀ i, (i ∈ stack ∨ i = t) ↔ i ∈ [t] ∨ i ∈ stack := by
    intro i
    rw [List.mem_singleton, or_comm]
  rw [hwalk]
  by_cases ht : t ∈ stack
  · simp [ht]
  · rw [if_neg ht, mem_listGlobs stack [t] (x.listed t) havoid]
    simp only [ht, not_false_eq_true, true_and, GlobLists, Export.ListedFrom,
      Export.reflTransGen_iff_reaches]
    constructor
    · rintro ⟨i, hi | ⟨k, hk, hik⟩, hc⟩
      · exact ⟨t, .inl rfl, i, hi, hc⟩
      · exact ⟨k, .inr hk, i, hik, hc⟩
    · rintro ⟨k, rfl | hk, i, hi, hc⟩
      · exact ⟨i, .inl hi, hc⟩
      · exact ⟨i, .inr ⟨k, hk, hi⟩, hc⟩

theorem candidates_eq (m : Id) : candidates x includePrivate stack m =
    (x.listed m).flatMap (listChild x includePrivate stack) := by
  unfold candidates
  split
  · next b hb => rw [Export.listed_module hb]
  · next hno => rw [Export.listed_eq_nil fun b hb => hno b hb, List.flatMap_nil]

/-- An id stands for itself, or for what it re-exports. -/
theorem mem_listChild {j : Id} : c ∈ listChild x includePrivate stack j ↔
    c ∈ ownCandidates x includePrivate false j ∨
      ∃ y u, x.IsUse includePrivate j y u ∧ c ∈ listUse x includePrivate stack y u := by
  unfold listChild
  cases hy : x.items.get? j with
  | none => simp [ownCandidates, hy, Export.IsUse]
  | some y =>
    rw [mem_ownCandidates hy]
    cases hinc : y.isIncluded includePrivate with
    | false => simp [Export.IsUse, hy, hinc]
    | true =>
      simp only [hinc, if_true, true_and]
      split
      · next u hu => simp [Export.IsUse, hy, hinc, hu]
      · next hno =>
        have huse : ∀ u, y.payload ≠ .use u := fun u hu => hno u hu
        simp [Export.IsUse, hy, huse]

end

section

variable {stack : List Id} {id : Id} {name : String} {via : Bool}

/-- What stands at the end of a chain is shown if it can be shown on its own. -/
theorem member_mem_chainEnd {e : ReExport} {label : String} {t last : Id} {n : Nat}
    (hchain : x.ChainsTo n t last) :
    .member id name via ∈ (match x.items.get? last with
      | none => [Candidate.reexport e]
      | some z => if z.isIncluded includePrivate then candidate z label true else []) ↔
      via = true ∧ name = label ∧ name ≠ "" ∧ last = id ∧
        ∃ z, x.IsPlaceable includePrivate id z := by
  cases hz : x.items.get? last with
  | none =>
    simp only [List.mem_singleton, reduceCtorEq, false_iff]
    rintro ⟨-, -, -, rfl, z, hplace⟩
    exact absurd (hz.symm.trans hplace.known) (by simp)
  | some z =>
    dsimp only
    split
    · next hinc =>
      rw [member_mem_candidate hz]
      constructor
      · rintro ⟨hvia, rfl, hname, hne, hmod, hkind⟩
        have huse : ∀ v, z.payload ≠ .use v := by
          intro v hv
          refine hchain.not_use v ?_
          rw [Items.payload?, hz, Option.map_some, hv]
        exact ⟨hvia, (Option.some.inj hname).symm, hne, rfl, z, hz, hinc, hmod, huse, hkind⟩
      · rintro ⟨hvia, rfl, hne, rfl, w, hw⟩
        obtain rfl := Option.some.inj (hz.symm.trans hw.known)
        exact ⟨hvia, rfl, rfl, hne, hw.noModule, hw.kind⟩
    · next hinc =>
      simp only [List.not_mem_nil, false_iff]
      rintro ⟨-, -, -, rfl, w, hw⟩
      obtain rfl := Option.some.inj (hz.symm.trans hw.known)
      exact hinc hw.included

/-- A re-export shows what stands at the end of its chain, under its own name, or what its
glob lists. -/
theorem member_mem_listUse {y : Item} {u : UseBody} :
    .member id name via ∈ listUse x includePrivate stack y u ↔
      ∃ t, u.target = some t ∧ x.items.contains t = true ∧
        (u.isGlob = true ∧ .member id name via ∈ listGlob x includePrivate stack t ∨
          u.isGlob = false ∧ via = true ∧ name = u.name ∧ name ≠ "" ∧
            (∃ n < maxChain, x.ChainsTo n t id) ∧ ∃ z, x.IsPlaceable includePrivate id z) := by
  unfold listUse
  cases htarget : u.target with
  | none => simp
  | some t =>
    cases hknown : x.items.contains t with
    | false => simp [hknown]
    | true =>
      cases hglob : u.isGlob with
      | true => simp [hknown]
      | false =>
        simp only [hknown, Bool.not_true, Bool.false_eq_true, if_false, false_and, true_and,
          false_or, Option.some.injEq, exists_eq_left', ← Export.chainEnd_eq_some_iff]
        cases hlast : chainEnd x.items maxChain [] t with
        | none => simp
        | some last =>
          obtain ⟨n, -, hchain⟩ := Export.chainEnd_eq_some_iff.1 hlast
          rw [Option.some.injEq]
          exact member_mem_chainEnd hchain

/-- The items among the candidates of a module are those that it offers. -/
theorem member_mem_candidates {m : Id} :
    (∃ via, .member id name via ∈ candidates x includePrivate stack m) ↔
      name ≠ "" ∧ ∃ y, x.IsPlaceable includePrivate id y ∧
        x.Offers includePrivate stack m id y name := by
  rw [candidates_eq]
  simp only [List.mem_flatMap, mem_listChild]
  constructor
  · rintro ⟨via, j, hj, hown | ⟨z, u, huse, hmem⟩⟩
    · obtain ⟨-, rfl, hne, y, hy, hname⟩ := member_mem_ownCandidates.1 hown
      exact ⟨hne, y, hy, .listed hj hname⟩
    · obtain ⟨t, ht, hknown, ⟨hglob, hmem⟩ | ⟨hglob, -, rfl, hne, ⟨n, hn, hchain⟩, y, hy⟩⟩ :=
        member_mem_listUse.1 hmem
      · obtain ⟨hstack, k, hroute, i, hi, hown⟩ := mem_listGlob.1 hmem
        obtain ⟨-, rfl, hne, y, hy, hname⟩ := member_mem_ownCandidates.1 hown
        have hfirst : x.GlobStep includePrivate (· ∈ stack) m t :=
          ⟨⟨j, hj, z, u, huse, hglob, ht, hknown⟩, hstack⟩
        exact ⟨hne, y, hy, .globbed (.head' hfirst hroute) hi hname⟩
      · exact ⟨hne, y, hy, .chained hj huse hglob ht hknown hchain hn⟩
  · rintro ⟨hne, y, hy, hoffers⟩
    cases hoffers with
    | listed hj hname =>
      exact ⟨false, id, hj, .inl (member_mem_ownCandidates.2 ⟨rfl, rfl, hne, y, hy, hname⟩)⟩
    | @chained use t z u n huse hitem hglob ht hknown hchain hn =>
      refine ⟨true, use, huse, .inr ⟨z, u, hitem, member_mem_listUse.2 ?_⟩⟩
      exact ⟨t, ht, hknown, .inr ⟨hglob, rfl, rfl, hne, ⟨n, hn, hchain⟩, y, hy⟩⟩
    | @globbed k _ hroute hi hname =>
      obtain ⟨t, ⟨⟨j, hj, z, u, huse, hglob, ht, hknown⟩, hstack⟩, hroute⟩ :=
        Relation.TransGen.head'_iff.1 hroute
      refine ⟨true, j, hj, .inr ⟨z, u, huse, member_mem_listUse.2 ?_⟩⟩
      refine ⟨t, ht, hknown, .inl ⟨hglob, ?_⟩⟩
      exact mem_listGlob.2 ⟨hstack, k, hroute, id, hi,
        member_mem_ownCandidates.2 ⟨rfl, rfl, hne, y, hy, hname⟩⟩

end

end Tree

end CrateBook
