import CrateBook.TypeText.Basic

/-!
# Heights of parts

What is read from a value is nested less deeply than the value: a member, an element, what a
value runs through. A value that holds nothing is read as the empty object, which has height
one.
-/
namespace CrateBook.Value

theorem height_le_heights {v : Value} {vs : List Value} (h : v ∈ vs) : v.height ≤ heights vs := by
  induction vs with
  | nil => exact absurd h List.not_mem_nil
  | cons w vs ih =>
    rw [heights]
    rcases List.mem_cons.1 h with rfl | hmem
    · omega
    · have := ih hmem
      omega

theorem heights_le {vs : List Value} {n : Nat} (h : ∀ v ∈ vs, v.height ≤ n) : heights vs ≤ n := by
  induction vs with
  | nil => exact Nat.zero_le n
  | cons w vs ih =>
    rw [heights]
    exact Nat.max_le.2 ⟨h w List.mem_cons_self, ih fun v hv => h v (List.mem_cons_of_mem w hv)⟩

theorem height_le_memberHeights {ms : List (String × Value)} {k : String} {v : Value}
    (h : ms.lookup k = some v) : v.height ≤ memberHeights ms := by
  induction ms with
  | nil => simp at h
  | cons m ms ih =>
    obtain ⟨l, w⟩ := m
    rw [memberHeights]
    by_cases hk : k = l
    · simp only [hk, List.lookup_cons_self, Option.some.injEq] at h
      subst h
      omega
    · rw [List.lookup_cons, beq_false_of_ne hk] at h
      have := ih h
      omega

/-- A part of an object; it is null where it is missing. -/
theorem height_part (ms : List (String × Value)) (k : String) :
    ((ms.lookup k).getD null).height < (object ms).height := by
  rw [height.eq_2]
  cases h : ms.lookup k with
  | none => simp [height]
  | some v => exact Nat.lt_succ_of_le (height_le_memberHeights h)

theorem height_single (k : String) (v : Value) : (object [(k, v)]).height = v.height + 1 := by
  simp [height, memberHeights]

theorem height_orObject (v : Value) : v.orObject.height ≤ max v.height 1 := by
  unfold orObject orElse
  split
  · exact Nat.le_max_left _ _
  · exact Nat.le_max_right _ _

theorem height_field {v w : Value} {k : String} (h : v.field k = .ok w) :
    w.height < v.height := by
  cases v with
  | object ms =>
    cases h
    exact height_part ms k
  | _ => cases h

theorem height_member {v w : Value} {k : String} (h : v.member k = .ok w) :
    w.height < v.height := by
  cases v with
  | object ms =>
    rw [member] at h
    cases hw : ms.lookup k with
    | none => simp [hw] at h
    | some u =>
      simp only [hw, Except.ok.injEq] at h
      subst h
      exact Nat.lt_succ_of_le (height_le_memberHeights hw)
  | _ => cases h

/-- A part of a value that is read as an object. -/
theorem height_orObject_field {v w : Value} {k : String} (h : v.orObject.field k = .ok w) :
    w.height ≤ v.height - 1 := by
  have hobject := height_orObject v
  have hpart := height_field h
  omega

theorem height_element {v w : Value} {i : Nat} (h : v.element i = .ok w) :
    w.height ≤ v.height - 1 := by
  cases v with
  | list xs =>
    rw [element] at h
    cases hw : xs[i]? with
    | none => simp [hw] at h
    | some u =>
      simp only [hw, Except.ok.injEq] at h
      subst h
      exact height_le_heights (List.mem_of_getElem? hw)
  | str s =>
    rw [element] at h
    cases hw : (Text.characters s)[i]? with
    | none => simp [hw] at h
    | some c =>
      simp only [hw, Except.ok.injEq] at h
      subst h
      simp [height]
  | _ => cases h

theorem heights_elements {v : Value} {vs : List Value} (h : v.elements = .ok vs) :
    heights vs ≤ v.height - 1 := by
  cases v with
  | list xs =>
    cases h
    exact Nat.le_refl _
  | str s =>
    cases h
    exact heights_le (by simp [height])
  | object ms =>
    cases h
    refine heights_le fun key hkey => ?_
    obtain ⟨m, -, rfl⟩ := List.mem_map.1 hkey
    exact Nat.zero_le _
  | _ => cases h

theorem heights_elementsOrNone {v : Value} {vs : List Value} (h : v.elementsOrNone = .ok vs) :
    heights vs ≤ v.height - 1 := by
  rw [elementsOrNone] at h
  split at h
  · exact heights_elements h
  · cases h
    exact Nat.zero_le _

theorem height_of_mem_elementsOrNone {v w : Value} {vs : List Value}
    (h : v.elementsOrNone = .ok vs) (hw : w ∈ vs) : w.height ≤ v.height - 1 :=
  Nat.le_trans (height_le_heights hw) (heights_elementsOrNone h)

end CrateBook.Value
