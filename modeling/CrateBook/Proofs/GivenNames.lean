import CrateBook.Layout.Names
import CrateBook.Proofs.Tables

/-!
# Names that were given out

What a name looks like once the clashes are settled, and when all names of a directory or a
page differ: it is enough that no name without a number reads like one with a number.
-/
namespace CrateBook.Layout

/-- The names of requests, without the account of the clashes. -/
def namesOf (reserved : List String) (requests : List Request) : Table Id String :=
  let sorted := sortById (·.id) requests
  Table.ofList (numbered (firstName reserved sorted) [] sorted)

/-- Allocation that ends gives the names that the requests determine. -/
theorem eq_namesOf_of_allocate {directory : String} {reserved : List String}
    {requests : List Request} {names : Table Id String} {collisions : List Collision}
    (h : allocate directory reserved requests = .ok (names, collisions)) :
    names = namesOf reserved requests := by
  obtain ⟨u, -, h⟩ := Except.bind_eq_ok.1 h
  cases h
  rfl

section

variable (first : Request → String)

/-- The name of a request behind others that are named already. -/
def nameBehind (before : List Request) (r : Request) : String :=
  let n := before.countP fun q => Text.lower (first q) == Text.lower (first r)
  if n = 0 then first r else first r ++ "-" ++ toString (n + 1)

theorem numbered_cons (before : List Request) (r : Request) (rest : List Request) :
    numbered first before (r :: rest) =
      (r.id, nameBehind first before r) :: numbered first (r :: before) rest := rfl

theorem map_fst_numbered (before rest : List Request) :
    (numbered first before rest).map Prod.fst = rest.map (·.id) := by
  induction rest generalizing before with
  | nil => rfl
  | cons r rest ih => rw [numbered_cons, List.map_cons, ih, List.map_cons]

variable {first}

/-- Each given name is that of a request behind those in front of it. -/
theorem mem_numbered {before rest : List Request} {e : Id × String}
    (h : e ∈ numbered first before rest) : ∃ front r back, rest = front ++ r :: back ∧
      e = (r.id, nameBehind first (front.reverse ++ before) r) := by
  induction rest generalizing before with
  | nil => simp [numbered] at h
  | cons r rest ih =>
    rw [numbered_cons] at h
    rcases List.mem_cons.1 h with rfl | h
    · exact ⟨[], r, rest, rfl, rfl⟩
    · obtain ⟨front, q, back, rfl, rfl⟩ := ih h
      exact ⟨r :: front, q, back, rfl, by simp⟩

/-- How many requests ask for the first name of a given one, whatever the case. -/
def sharing (first : Request → String) (requests : List Request) (r : Request) : Nat :=
  requests.countP fun q => Text.lower (first q) == Text.lower (first r)

theorem nameBehind_eq (before : List Request) (r : Request) : nameBehind first before r =
    if sharing first before r = 0 then first r
    else first r ++ "-" ++ toString (sharing first before r + 1) := rfl

/-- A request shares its first name with itself and with those around it. -/
theorem sharing_split (front back : List Request) (q r : Request)
    (h : Text.lower (first q) = Text.lower (first r)) :
    sharing first (front ++ q :: back) r = sharing first front r + sharing first back r + 1 := by
  rw [sharing, List.countP_append, List.countP_cons_of_pos (by simpa using h)]
  rfl

theorem sharing_congr {q r : Request} (h : Text.lower (first q) = Text.lower (first r))
    (requests : List Request) : sharing first requests q = sharing first requests r := by
  rw [sharing, h]
  rfl

/-- Two requests, the second one behind the first, do not get one name if none without a number
reads like the other one with a number that is in use. -/
theorem nameBehind_ne {β : Type} {f : String → β} {r q : Request} {before more : List Request}
    (hlower : ∀ a b, f a = f b → Text.lower a = Text.lower b)
    (hplain : ∀ k : Nat, 1 < k → k ≤ sharing first (more ++ r :: before) q + 1 →
      f (first r) ≠ f (first q ++ "-" ++ toString k))
    (hnumbered : ∀ k : Nat, 1 < k → k ≤ sharing first before r + 1 →
      f (first q) ≠ f (first r ++ "-" ++ toString k))
    (hnumber : ∀ j k : Nat, f (first r ++ "-" ++ toString j) =
      f (first q ++ "-" ++ toString k) → f (first r) = f (first q) ∧ j = k) :
    f (nameBehind first before r) ≠ f (nameBehind first (more ++ r :: before) q) := by
  intro h
  have hlt (hkey : Text.lower (first r) = Text.lower (first q)) :
      sharing first before r < sharing first (more ++ r :: before) q := by
    rw [sharing_split more before r q hkey, sharing_congr hkey]
    omega
  rw [nameBehind_eq, nameBehind_eq] at h
  split at h
  · next hr =>
    split at h
    · next hq =>
      have := hlt (hlower _ _ h)
      omega
    · next hq => exact hplain _ (by omega) (Nat.le_refl _) h
  · next hr =>
    split at h
    · next hq => exact hnumbered _ (by omega) (Nat.le_refl _) h.symm
    · obtain ⟨hkey, heq⟩ := hnumber _ _ h
      have := hlt (hlower _ _ hkey)
      omega

/-- Names differ if none without a number reads like one with a number that is in use. -/
theorem nodup_numbered {β : Type} {f : String → β} {rest before : List Request}
    (hlower : ∀ a b, f a = f b → Text.lower a = Text.lower b)
    (hplain : ∀ r ∈ rest, ∀ q ∈ rest, ∀ k : Nat, 1 < k →
      k ≤ sharing first (rest.reverse ++ before) q →
      f (first r) ≠ f (first q ++ "-" ++ toString k))
    (hnumber : ∀ r ∈ rest, ∀ q ∈ rest, ∀ j k : Nat, f (first r ++ "-" ++ toString j) =
      f (first q ++ "-" ++ toString k) → f (first r) = f (first q) ∧ j = k) :
    ((numbered first before rest).map fun e => f e.2).Nodup := by
  induction rest generalizing before with
  | nil => exact List.nodup_nil
  | cons r rest ih =>
    rw [List.reverse_cons, List.append_assoc, List.singleton_append] at hplain
    rw [numbered_cons, List.map_cons, List.nodup_cons]
    constructor
    · intro hm
      obtain ⟨e, he, hname⟩ := List.mem_map.1 hm
      obtain ⟨front, q, back, rfl, rfl⟩ := mem_numbered he
      have hqr : q ∈ r :: (front ++ q :: back) := by simp
      have hall : (front ++ q :: back).reverse ++ r :: before =
          back.reverse ++ q :: (front.reverse ++ r :: before) := by simp
      rw [hall] at hplain
      refine nameBehind_ne hlower (fun k hk hle => ?_) (fun k hk hle => ?_)
        (hnumber r List.mem_cons_self q hqr) hname.symm
      · refine hplain r List.mem_cons_self q hqr k hk ?_
        rw [sharing_split _ _ q q rfl]
        omega
      · refine hplain q hqr r List.mem_cons_self k hk ?_
        have hmore : sharing first (back.reverse ++ q :: (front.reverse ++ r :: before)) r =
            sharing first (back.reverse ++ q :: front.reverse) r + sharing first before r + 1 := by
          rw [← sharing_split _ before r r rfl]
          simp
        omega
    · exact ih
        (fun a ha b hb => hplain a (List.mem_cons_of_mem _ ha) b (List.mem_cons_of_mem _ hb))
        (fun a ha b hb => hnumber a (List.mem_cons_of_mem _ ha) b (List.mem_cons_of_mem _ hb))

end

section

variable {reserved : List String} {requests : List Request}

theorem sorted_perm : (sortById (·.id) requests).Perm requests := List.mergeSort_perm _ _

/-- The order of requests has no say in whether a plain name clashes. -/
theorem clashes_congr {others : List Request} (h : others.Perm requests) (r : Request) :
    clashes reserved others r = clashes reserved requests r := by
  simp only [clashes]
  rw [h.countP_eq]

/-- The order of requests has no say in what a name is before numbers are added. -/
theorem firstName_congr {others : List Request} (h : others.Perm requests) (r : Request) :
    firstName reserved others r = firstName reserved requests r := by
  simp only [firstName, clashes_congr h]

theorem mem_keys_namesOf {id : Id} :
    id ∈ (namesOf reserved requests).keys ↔ id ∈ requests.map (·.id) := by
  rw [namesOf, Table.mem_keys_ofList, map_fst_numbered]
  exact (sorted_perm.map _).mem_iff

theorem entries_namesOf (h : (requests.map (·.id)).Nodup) :
    (namesOf reserved requests).entries =
      numbered (firstName reserved (sortById (·.id) requests)) []
        (sortById (·.id) requests) := by
  refine Table.entries_ofList ?_
  rw [map_fst_numbered]
  exact ((sorted_perm.map _).nodup_iff).2 h

/-- What holds of plain and qualified names, with a number or without, holds of given names. -/
theorem forall_names {P : String → Prop} (h : ∀ r ∈ requests, P r.base ∧ P r.qualified)
    (hnumber : ∀ s, ∀ k : Nat, P s → P (s ++ "-" ++ toString k)) {id : Id} {name : String}
    (hname : (namesOf reserved requests).get? id = some name) : P name := by
  obtain ⟨front, r, back, hsorted, heq⟩ := mem_numbered (Table.mem_of_get?_ofList hname)
  have hr : r ∈ sortById (·.id) requests := by simp [hsorted]
  obtain ⟨hbase, hqualified⟩ := h r (sorted_perm.mem_iff.1 hr)
  have hfirst : P (firstName reserved (sortById (·.id) requests) r) := by
    unfold firstName
    split
    · exact hqualified
    · exact hbase
  rw [(Prod.mk.inj heq).2]
  unfold nameBehind
  dsimp only
  split
  · exact hfirst
  · exact hnumber _ _ hfirst

/-- A given name is the plain or the qualified one, with a number or without; only other
requests have a say in the number. -/
theorem exists_name (h : (requests.map (·.id)).Nodup) {r : Request} (hr : r ∈ requests) :
    ∃ before, (∀ q ∈ before, q ∈ requests ∧ q.id ≠ r.id) ∧
      (namesOf reserved requests).get? r.id =
        some (nameBehind (firstName reserved requests) before r) := by
  have hkey : r.id ∈ (namesOf reserved requests).keys :=
    mem_keys_namesOf.2 (List.mem_map_of_mem hr)
  obtain ⟨name, hname⟩ := Table.mem_keys_iff.1 hkey
  have hmem := Table.get?_eq_some_iff.1 hname
  rw [entries_namesOf h] at hmem
  obtain ⟨front, q, back, hsorted, heq⟩ := mem_numbered hmem
  rw [Prod.mk.injEq] at heq
  have hof : ∀ p ∈ front ++ q :: back, p ∈ requests :=
    fun p hp => sorted_perm.mem_iff.1 (hsorted ▸ hp)
  have hqr : q = r := List.inj_on_of_nodup_map h (hof q (by simp)) hr heq.1.symm
  have hfirst : firstName reserved (sortById (·.id) requests) = firstName reserved requests :=
    funext fun p => firstName_congr sorted_perm p
  have hnodup : ((front ++ q :: back).map (·.id)).Nodup :=
    hsorted ▸ ((sorted_perm.map _).nodup_iff).2 h
  rw [List.map_append, List.nodup_append] at hnodup
  refine ⟨front.reverse ++ [], fun p hp => ?_, ?_⟩
  · have hp : p ∈ front := by simpa using hp
    refine ⟨hof p (by simp [hp]), fun hid => ?_⟩
    exact hnodup.2.2 _ (List.mem_map_of_mem hp) _ (by simp) (hqr ▸ hid)
  · rw [hname, heq.2, hqr, hfirst]

/-- A name that is not reserved, and that no other request could take, is given as it is. -/
theorem get?_namesOf_of_alone (h : (requests.map (·.id)).Nodup) {r : Request} (hr : r ∈ requests)
    (hreserved : Text.lower r.base ∉ reserved)
    (halone : ∀ q ∈ requests, q.id ≠ r.id →
      Text.lower q.base ≠ Text.lower r.base ∧ Text.lower q.qualified ≠ Text.lower r.base) :
    (namesOf reserved requests).get? r.id = some r.base := by
  have honce : requests.countP (fun q => Text.lower q.base == Text.lower r.base) ≤ 1 := by
    have hself : ∀ q ∈ requests, (Text.lower q.base == Text.lower r.base) = true ↔
        (q == r) = true := by
      intro q hq
      rw [beq_iff_eq, beq_iff_eq]
      refine ⟨fun hbase => ?_, fun hqr => hqr ▸ rfl⟩
      by_contra hne
      have hid : q.id ≠ r.id := fun hid => hne (List.inj_on_of_nodup_map h hq hr hid)
      exact (halone q hq hid).1 hbase
    rw [List.countP_congr hself]
    exact List.nodup_iff_count_le_one.1 (List.Nodup.of_map _ h) r
  have hclash : clashes reserved requests r = false := by
    simp [clashes, hreserved, honce]
  have hfirst : firstName reserved requests r = r.base := by
    rw [firstName, hclash, if_neg Bool.false_ne_true]
  obtain ⟨before, hbefore, hname⟩ :
      ∃ before, (∀ q ∈ before, q ∈ requests ∧ q.id ≠ r.id) ∧
        (namesOf reserved requests).get? r.id =
          some (nameBehind (firstName reserved requests) before r) := exists_name h hr
  have hnone : before.countP (fun q => Text.lower (firstName reserved requests q) ==
      Text.lower (firstName reserved requests r)) = 0 := by
    rw [List.countP_eq_zero]
    intro q hq
    obtain ⟨hqr, hid⟩ := hbefore q hq
    obtain ⟨hbase, hqualified⟩ := halone q hqr hid
    rw [beq_iff_eq, hfirst]
    unfold firstName
    split
    · exact hqualified
    · exact hbase
  rw [hname, nameBehind, hnone, if_pos rfl, hfirst]

/-- Two requests get different names if none without a number reads like one with a
number. -/
theorem names_ne {β : Type} {f : String → β} (h : (requests.map (·.id)).Nodup)
    (hlower : ∀ a b, f a = f b → Text.lower a = Text.lower b)
    (hplain : ∀ r ∈ requests, ∀ q ∈ requests, ∀ k : Nat,
      f (firstName reserved requests r) ≠
        f (firstName reserved requests q ++ "-" ++ toString k))
    (hnumber : ∀ r ∈ requests, ∀ q ∈ requests, ∀ j k : Nat,
      f (firstName reserved requests r ++ "-" ++ toString j) =
        f (firstName reserved requests q ++ "-" ++ toString k) →
      f (firstName reserved requests r) = f (firstName reserved requests q) ∧ j = k)
    {i j : Id} {a b : String} (hi : (namesOf reserved requests).get? i = some a)
    (hj : (namesOf reserved requests).get? j = some b) (hij : i ≠ j) : f a ≠ f b := by
  have hfirst : firstName reserved (sortById (·.id) requests) = firstName reserved requests :=
    funext fun p => firstName_congr sorted_perm p
  have hnodup : ((namesOf reserved requests).entries.map fun e => f e.2).Nodup := by
    rw [entries_namesOf h, hfirst]
    exact nodup_numbered hlower
      (fun r hr q hq k _ _ => hplain r (sorted_perm.mem_iff.1 hr) q (sorted_perm.mem_iff.1 hq) k)
      (fun r hr q hq => hnumber r (sorted_perm.mem_iff.1 hr) q (sorted_perm.mem_iff.1 hq))
  intro hab
  have := List.inj_on_of_nodup_map hnodup (Table.get?_eq_some_iff.1 hi)
    (Table.get?_eq_some_iff.1 hj) hab
  rw [Prod.mk.injEq] at this
  exact hij this.1

end

end CrateBook.Layout
