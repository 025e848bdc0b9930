import CrateBook.Proofs.Reordering
import CrateBook.Proofs.ShownMembers
import Mathlib.Data.List.Sort
import Mathlib.Data.String.Basic

/-!
# Every block in one group

The blocks for a type fall into three parts: the dropped ones, the inherent ones, and those that
implement a trait. The parts are taken from the blocks in the order of their ids, so each of
them is in this order. Implementations are first kept by trait and then put into one list, which
loses none of them and makes none up.
-/
namespace CrateBook

namespace TraitImpl

theorem le_iff {a b : TraitImpl} : a.le b = true ↔ a.traitPath < b.traitPath ∨
    a.traitPath = b.traitPath ∧ a.implId.key.le b.implId.key = true := by
  simp [le]

theorem le_trans {a b c : TraitImpl} (hab : a.le b = true) (hbc : b.le c = true) :
    a.le c = true := by
  rw [le_iff] at hab hbc ⊢
  rcases hab with hab | ⟨hab, habkey⟩ <;> rcases hbc with hbc | ⟨hbc, hbckey⟩
  · exact .inl (String.lt_trans hab hbc)
  · exact .inl (hbc ▸ hab)
  · exact .inl (hab ▸ hbc)
  · exact .inr ⟨hab.trans hbc, IdKey.le_trans habkey hbckey⟩

theorem le_total (a b : TraitImpl) : (a.le b || b.le a) = true := by
  rw [Bool.or_eq_true, le_iff, le_iff]
  rcases Std.lt_trichotomy a.traitPath b.traitPath with h | h | h
  · exact .inl (.inl h)
  · have hkey := IdKey.le_total a.implId.key b.implId.key
    rw [Bool.or_eq_true] at hkey
    exact hkey.imp (fun hk => .inr ⟨h, hk⟩) fun hk => .inr ⟨h.symm, hk⟩
  · exact .inr (.inl h)

end TraitImpl

namespace ImplGroup

/-- Implementations are listed by the path of their trait, then by id. -/
theorem pairwise_traitImpls (g : ImplGroup) :
    g.traitImpls.Pairwise fun a b => a.traitPath < b.traitPath ∨
      a.traitPath = b.traitPath ∧ a.implId.key.le b.implId.key = true := by
  have hsorted : g.traitImpls.Pairwise fun a b => a.le b = true :=
    @List.pairwise_mergeSort TraitImpl TraitImpl.le (fun _ _ _ => TraitImpl.le_trans)
      TraitImpl.le_total g.traits.values.flatten
  exact hsorted.imp TraitImpl.le_iff.1

end ImplGroup

namespace Export

variable (x : Export) (noise : List String)

/-- The block is inherent, and shown. -/
def isInherent (i : Id × ImplBody) : Bool := !x.isNoise noise i.2 && i.2.traitRef.isNone

/-- The block implements a trait, and is shown. -/
def implementsTrait (i : Id × ImplBody) : Bool := !x.isNoise noise i.2 && i.2.traitRef.isSome

section

variable (is : List (Id × ImplBody)) (g : ImplGroup)

theorem dropped_foldl : (is.foldl (x.sortImpl noise) g).dropped =
    g.dropped ++ (is.filter fun i => x.isNoise noise i.2).map Prod.fst := by
  induction is generalizing g with
  | nil => simp
  | cons i is ih =>
    rw [List.foldl_cons, ih, sortImpl]
    cases hnoise : x.isNoise noise i.2 <;> cases htrait : i.2.traitRef <;> simp [hnoise]

theorem inherent_foldl : (is.foldl (x.sortImpl noise) g).inherent =
    g.inherent ++ (is.filter (x.isInherent noise)).map Prod.fst := by
  induction is generalizing g with
  | nil => simp
  | cons i is ih =>
    rw [List.foldl_cons, ih, sortImpl]
    cases hnoise : x.isNoise noise i.2 <;> cases htrait : i.2.traitRef <;>
      simp [isInherent, hnoise, htrait]

/-- Three tests put each block into one part. -/
theorem perm_parts : ((is.filter fun i => x.isNoise noise i.2) ++
    (is.filter (x.isInherent noise) ++ is.filter (x.implementsTrait noise))).Perm is := by
  have hinner : (is.filter (x.isInherent noise) ++ is.filter (x.implementsTrait noise)).Perm
      (is.filter fun i => !x.isNoise noise i.2) := by
    have hparts := List.filter_append_perm (fun i => i.2.traitRef.isNone)
      (is.filter fun i => !x.isNoise noise i.2)
    unfold isInherent implementsTrait
    simpa only [List.filter_filter, Option.not_isNone, Bool.and_comm] using hparts
  exact (hinner.append_left _).trans (List.filter_append_perm _ is)

end

variable (typeId : Id)

theorem dropped_classify : (x.classify noise typeId).dropped =
    ((x.implsFor typeId).filter fun i => x.isNoise noise i.2).map Prod.fst := by
  rw [classify, dropped_foldl]
  rfl

theorem inherent_classify : (x.classify noise typeId).inherent =
    ((x.implsFor typeId).filter (x.isInherent noise)).map Prod.fst := by
  rw [classify, inherent_foldl]
  rfl

theorem inherentMembers_classify : (x.classify noise typeId).inherentMembers =
    ((x.implsFor typeId).filter (x.isInherent noise)).flatMap fun i => x.implMembers i.2 := by
  rw [classify, inherentMembers_foldl]
  rfl

theorem nodup_ids_impls : (x.impls.map Prod.fst).Nodup := by
  have hids : (x.items.toList.map (·.id)).Nodup := by
    have hkeys : x.items.toList.map (·.id) = x.items.table.keys := by
      rw [Items.toList, Table.values, Table.keys, List.map_map]
      exact List.map_congr_left fun e he => x.items.keyed e he
    rw [hkeys]
    exact x.items.table.nodup
  refine hids.sublist (sublist_map_filterMap (fun y i hi => ?_) _)
  split at hi
  · obtain rfl := Option.some.inj hi
    rfl
  · cases hi

theorem nodup_ids_implsFor : ((x.implsFor typeId).map Prod.fst).Nodup := by
  have hperm : (x.implsFor typeId).Perm (x.impls.filter fun i => i.2.target? == some typeId) :=
    List.mergeSort_perm _ _
  refine ((hperm.map Prod.fst).nodup_iff).2 ?_
  exact (nodup_ids_impls x).sublist (List.filter_sublist.map _)

def blockItems (i : Id) : List Id :=
  match x.items.payload? i with
  | some (.impl b) => b.items
  | _ => []

/-- The id is that of a function, a constant or a type that the export has. -/
def isMember (m : Id) : Bool := (x.items.payload? m).any Payload.isAssociated

variable {x noise typeId}

theorem implMembers_eq {i : Id} {b : ImplBody} (h : x.HasBlock i b) :
    x.implMembers b = (x.blockItems i).filter x.isMember := by
  obtain ⟨y, hy, hpayload⟩ := h
  have hblock : x.items.payload? i = some (.impl b) := by rw [Items.payload?, hy, ← hpayload]; rfl
  rw [blockItems, hblock, implMembers]
  refine List.filter_congr fun m _ => ?_
  rw [isMember]
  cases x.items.payload? m <;> rfl

theorem defaultsOf_perm {i : Id} {b : ImplBody} (h : x.HasBlock i b) :
    (x.defaultsOf b).Perm (b.providedMethods.filter fun name =>
      decide (∀ m ∈ (x.blockItems i).filter x.isMember,
        (x.items.get? m).bind (·.name) ≠ some name)) := by
  refine (List.mergeSort_perm _ _).trans (.of_eq ?_)
  rw [implMembers_eq h]
  refine List.filter_congr fun name _ => ?_
  rw [Bool.eq_iff_iff]
  simp

theorem pairwise_defaultsOf (b : ImplBody) : (x.defaultsOf b).Pairwise (· ≤ ·) :=
  List.pairwise_mergeSort' (· ≤ ·) _

end Export

/-- What has a member that is not null is an object. -/
theorem Value.object_of_field {path v : Value} {k : String} (h : path.orObject.field k = .ok v)
    (hv : v ≠ .null) : ∃ ms, path = .object ms ∧ ms.lookup k = some v := by
  unfold orObject orElse at h
  split at h
  · cases path with
    | object ms =>
      refine ⟨ms, rfl, ?_⟩
      have hget : (ms.lookup k).getD .null = v := Except.ok.inj h
      cases hlookup : ms.lookup k with
      | none =>
        rw [hlookup] at hget
        exact absurd hget.symm hv
      | some w =>
        rw [hlookup] at hget
        exact congrArg some hget
    | _ => cases h
  · exact absurd (Except.ok.inj h).symm hv

/-- The block names the type of an id as the resolved path that it is for. -/
def ImplBody.IsFor (b : ImplBody) (typeId : Id) : Prop :=
  ∃ ms path v, b.forType = .object ms ∧ ms.lookup "resolved_path" = some (.object path) ∧
    path.lookup "id" = some v ∧ Id.ofValue? v = some typeId

theorem ImplBody.target?_eq_some_iff {b : ImplBody} {typeId : Id} :
    b.target? = some typeId ↔ b.IsFor typeId := by
  have htarget : b.target? = some typeId ↔ b.target = .ok (some typeId) := by
    unfold target?
    cases b.target <;> simp
  rw [htarget]
  constructor
  · intro h
    unfold target at h
    split at h
    · next ms hms =>
      split at h
      · next path hpath =>
        obtain ⟨v, hv, h⟩ := Except.bind_eq_ok.1 h
        have hid : Id.ofValue? v = some typeId := Except.ok.inj h
        obtain ⟨members, rfl, hlookup⟩ := Value.object_of_field hv fun hnull => by
          rw [hnull] at hid
          cases hid
        exact ⟨ms, members, v, hms, hpath, hlookup, hid⟩
      · cases h
    · cases h
  · rintro ⟨ms, path, v, hms, hpath, hv, hid⟩
    have hset : (Value.object path).isSet = true := by
      cases path with
      | nil => cases hv
      | cons => rfl
    have hfield : (Value.object path).orObject.field "id" = .ok v := by
      rw [Value.orObject, Value.orElse, if_pos hset, Value.field, hv, Option.getD_some]
    simp only [target, hms, hpath]
    exact Except.bind_eq_ok.2 ⟨v, hfield, congrArg _ hid⟩

namespace Export

variable (x : Export) (noise : List String) (typeId : Id)

/-- A block that is not to be shown: it is made up by the compiler, it is for all types, or the
last segment of its trait's path is in the list. A block without a trait has an empty path. -/
def IsDropped (b : ImplBody) : Prop :=
  b.isSynthetic = true ∨ b.blanket.isNull = false ∨
    (if b.traitRef = none then "" else Text.lastSegment (x.traitPath b)) ∈ noise

/-- A group holds the blocks for a type: it shares them out, keeps them in order, and says what
their members are. -/
structure Groups (g : ImplGroup) : Prop where
  /-- No block stands in two parts, or twice in one. -/
  nodup : (g.dropped ++ (g.inherent ++ g.traitImpls.map (·.implId))).Nodup
  mem_iff : ∀ i, i ∈ g.dropped ++ (g.inherent ++ g.traitImpls.map (·.implId)) ↔
    ∃ b, x.HasBlock i b ∧ b.IsFor typeId
  dropped_iff : ∀ i b, x.HasBlock i b → b.IsFor typeId →
    (i ∈ g.dropped ↔ x.IsDropped noise b)
  inherent_iff : ∀ i b, x.HasBlock i b → b.IsFor typeId →
    (i ∈ g.inherent ↔ ¬ x.IsDropped noise b ∧ b.traitRef = none)
  rendered : g.renderedIds = g.inherent ++ g.traitImpls.map (·.implId)
  rendered_iff : ∀ i, i ∈ g.renderedIds ↔
    ∃ b, x.HasBlock i b ∧ b.IsFor typeId ∧ ¬ x.IsDropped noise b
  dropped_sorted : g.dropped.Pairwise fun i j => i.key.le j.key = true
  inherent_sorted : g.inherent.Pairwise fun i j => i.key.le j.key = true
  traits_sorted : g.traitImpls.Pairwise fun s t => s.traitPath < t.traitPath ∨
    s.traitPath = t.traitPath ∧ s.implId.key.le t.implId.key = true
  /-- Implementations are kept by trait, or by themselves where the trait has no id. -/
  kept : ∀ k ts, g.traits.get? k = some ts → ∀ t ∈ ts, t.traitId.getD t.implId = k
  inherentMembers : g.inherentMembers =
    g.inherent.flatMap fun i => (x.blockItems i).filter x.isMember
  /-- An implementation tells of its block. The defaults are the provided methods that no member
  has the name of. -/
  traits : ∀ t ∈ g.traitImpls, ∃ b, x.HasBlock t.implId b ∧
    t.traitId = b.traitId ∧ t.traitPath = x.traitPath b ∧ t.isNegative = b.isNegative ∧
    t.members = (x.blockItems t.implId).filter x.isMember ∧
    t.defaults.Pairwise (· ≤ ·) ∧ t.defaults.Perm (b.providedMethods.filter fun name =>
      decide (∀ m ∈ t.members, (x.items.get? m).bind (·.name) ≠ some name))

variable {x noise typeId}

theorem isNoise_iff {b : ImplBody} : x.isNoise noise b = true ↔ x.IsDropped noise b := by
  have hname : x.traitName b =
      if b.traitRef = none then "" else Text.lastSegment (x.traitPath b) := by
    split
    · next hnone =>
      rw [traitName, traitPath, hnone]
      rfl
    · rfl
  simp only [isNoise, IsDropped, ← hname, Bool.or_eq_true, Bool.not_eq_true', or_assoc,
    List.contains_iff_mem]

theorem mem_parts {p : Id × ImplBody → Bool} {i : Id} :
    i ∈ ((x.implsFor typeId).filter p).map Prod.fst ↔
      ∃ b, x.HasBlock i b ∧ b.IsFor typeId ∧ p (i, b) = true := by
  simp only [List.mem_map, List.mem_filter, mem_implsFor, ImplBody.target?_eq_some_iff]
  constructor
  · rintro ⟨⟨j, b⟩, ⟨⟨hblock, hfor⟩, hp⟩, rfl⟩
    exact ⟨b, hblock, hfor, hp⟩
  · rintro ⟨b, hblock, hfor, hp⟩
    exact ⟨(i, b), ⟨⟨hblock, hfor⟩, hp⟩, rfl⟩

/-- An id has one block. -/
theorem HasBlock.unique {i : Id} {b c : ImplBody} (hb : x.HasBlock i b) (hc : x.HasBlock i c) :
    b = c := by
  obtain ⟨y, hy, hb⟩ := hb
  obtain ⟨z, hz, hc⟩ := hc
  obtain rfl := Option.some.inj (hy.symm.trans hz)
  exact Payload.impl.inj (hb.symm.trans hc)

variable (x noise typeId)

/-- The ids of the listed implementations are those of the blocks with a trait. -/
theorem ids_traitImpls_perm : ((x.classify noise typeId).traitImpls.map (·.implId)).Perm
    (((x.implsFor typeId).filter (x.implementsTrait noise)).map Prod.fst) := by
  have hids := (@traitImpls_perm x noise typeId).map (·.implId)
  rw [List.map_map] at hids
  exact hids

/-- The parts of a group together are the blocks for the type. -/
theorem perm_classify : ((x.classify noise typeId).dropped ++
    ((x.classify noise typeId).inherent ++
      (x.classify noise typeId).traitImpls.map (·.implId))).Perm
    ((x.implsFor typeId).map Prod.fst) := by
  have hparts := (perm_parts x noise (x.implsFor typeId)).map Prod.fst
  rw [List.map_append, List.map_append] at hparts
  rw [dropped_classify, inherent_classify]
  exact (((ids_traitImpls_perm x noise typeId).append_left _).append_left _).trans hparts

theorem mem_renderedIds {i : Id} : i ∈ (x.classify noise typeId).renderedIds ↔
    ∃ b, x.HasBlock i b ∧ b.IsFor typeId ∧ ¬ x.IsDropped noise b := by
  rw [ImplGroup.renderedIds, List.mem_append, (ids_traitImpls_perm x noise typeId).mem_iff,
    inherent_classify, mem_parts, mem_parts]
  simp only [isInherent, implementsTrait, Bool.and_eq_true, Bool.not_eq_true', ← isNoise_iff,
    Bool.not_eq_true]
  constructor
  · rintro (⟨b, hblock, hfor, hnoise, -⟩ | ⟨b, hblock, hfor, hnoise, -⟩) <;>
      exact ⟨b, hblock, hfor, hnoise⟩
  · rintro ⟨b, hblock, hfor, hnoise⟩
    cases htrait : b.traitRef.isNone with
    | true => exact .inl ⟨b, hblock, hfor, hnoise, htrait⟩
    | false => exact .inr ⟨b, hblock, hfor, hnoise, by simpa using htrait⟩

/-- A part of the blocks for a type is in the order of ids. -/
theorem pairwise_part (p : Id × ImplBody → Bool) :
    (((x.implsFor typeId).filter p).map Prod.fst).Pairwise fun i j => i.key.le j.key = true := by
  have hsorted : (x.implsFor typeId).Pairwise fun a b => a.1.key.le b.1.key = true :=
    pairwise_sortById _
  exact List.pairwise_map.2 (hsorted.filter p)

/-- The groups of a type share out the blocks that are for it. -/
theorem groups_classify : x.Groups noise typeId (x.classify noise typeId) where
  nodup := ((perm_classify x noise typeId).nodup_iff).2 (nodup_ids_implsFor x typeId)
  mem_iff i := by
    have hall := @mem_parts x typeId (fun _ => true) i
    rw [List.filter_true] at hall
    rw [(perm_classify x noise typeId).mem_iff, hall]
    simp only [and_true]
  dropped_iff i b hblock hfor := by
    rw [dropped_classify, mem_parts, ← isNoise_iff]
    exact ⟨fun ⟨c, hc, _, hnoise⟩ => hblock.unique hc ▸ hnoise,
      fun hnoise => ⟨b, hblock, hfor, hnoise⟩⟩
  inherent_iff i b hblock hfor := by
    rw [inherent_classify, mem_parts, ← isNoise_iff, Bool.not_eq_true]
    simp only [isInherent, Bool.and_eq_true, Bool.not_eq_true', Option.isNone_iff_eq_none]
    exact ⟨fun ⟨c, hc, _, hshown⟩ => hblock.unique hc ▸ hshown,
      fun hshown => ⟨b, hblock, hfor, hshown⟩⟩
  rendered := rfl
  rendered_iff i := mem_renderedIds x noise typeId
  dropped_sorted := by
    rw [dropped_classify]
    exact pairwise_part x typeId _
  inherent_sorted := by
    rw [inherent_classify]
    exact pairwise_part x typeId _
  traits_sorted := ImplGroup.pairwise_traitImpls _
  kept k ts hts t ht := by
    rw [classify, traits_foldl, Table.get?_eq_some_iff] at hts
    have hkept : ts = _ := Table.eq_of_mem_foldl_push hts
    rw [hkept] at ht
    obtain ⟨i, hi, rfl⟩ := List.mem_map.1 ht
    simpa [traitImpl] using (List.mem_filter.1 hi).2
  inherentMembers := by
    rw [inherentMembers_classify, inherent_classify, List.flatMap_map]
    refine List.flatMap_congr fun i hi => ?_
    exact implMembers_eq (mem_implsFor.1 (List.mem_of_mem_filter hi)).1
  traits t ht := by
    obtain ⟨i, b, hblock, -, -, rfl⟩ := mem_traitImpls.1 ht
    have hmembers := implMembers_eq hblock
    refine ⟨b, hblock, rfl, rfl, rfl, hmembers, pairwise_defaultsOf b, ?_⟩
    rw [show (x.traitImpl i b).members = _ from hmembers]
    exact defaultsOf_perm hblock

end Export

end CrateBook
