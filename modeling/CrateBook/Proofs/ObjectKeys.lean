import CrateBook.Export.Index
import CrateBook.Json.Reader

/-!
# Keys of objects

Every object that is read from a text lists each of its keys once, however deep it lies in the
value of the text.
-/
namespace CrateBook

/-- A value whose objects, at any depth, list each key once. -/
inductive Value.Keyed : Value → Prop
  | null : Keyed .null
  | bool (b : Bool) : Keyed (.bool b)
  | int (n : Int) : Keyed (.int n)
  | float (x : Float) : Keyed (.float x)
  | str (s : String) : Keyed (.str s)
  | list {vs : List Value} : (∀ v ∈ vs, Keyed v) → Keyed (.list vs)
  | object {ms : List (String × Value)} : (ms.map Prod.fst).Nodup → (∀ m ∈ ms, Keyed m.2) →
      Keyed (.object ms)

namespace Json

theorem keyed_number {start cs rest : List Char} {negative : Bool} {v : Value}
    (h : number start negative cs = .ok (v, rest)) : v.Keyed := by
  unfold number at h
  dsimp only at h
  repeat' split at h
  all_goals cases h <;> constructor

theorem keyed_scalar {cs rest : List Char} {v : Value} (h : scalar cs = .ok (v, rest)) :
    v.Keyed := by
  unfold scalar at h
  split at h
  · next found hfound =>
    cases h
    obtain ⟨w, hw, hfound⟩ := List.exists_of_findSome?_eq_some hfound
    obtain ⟨after, -, heq⟩ := Option.map_eq_some_iff.1 hfound
    cases heq
    simp only [words, List.mem_cons, List.not_mem_nil, or_false] at hw
    rcases hw with rfl | rfl | rfl | rfl | rfl | rfl
    · exact .null
    · exact .bool true
    · exact .bool false
    all_goals exact .float _
  · split at h
    · exact keyed_number h
    · exact keyed_number h

/-- What is read with some fuel has distinct keys: values, and objects and lists whose parts
that are read already have them. -/
theorem keyed_of_fuel (fuel : Nat) :
    (∀ room cs v rest, value room fuel cs = .ok (v, rest) → v.Keyed) ∧
    (∀ room done cs v rest, (done.map Prod.fst).Nodup → (∀ m ∈ done, m.2.Keyed) →
      members room fuel done cs = .ok (v, rest) → v.Keyed) ∧
    (∀ room done cs v rest, (∀ w ∈ done, w.Keyed) →
      elements room fuel done cs = .ok (v, rest) → v.Keyed) := by
  induction fuel with
  | zero =>
    refine ⟨fun _ _ _ _ h => ?_, fun _ _ _ _ _ _ _ h => ?_, fun _ _ _ _ _ _ h => ?_⟩
    · rw [value] at h
      cases h
    · rw [members] at h
      cases h
    · rw [elements] at h
      cases h
  | succ fuel ih =>
    obtain ⟨hvalue, hmembers, helements⟩ := ih
    refine ⟨fun room cs v rest h => ?_, fun room done cs v rest hnodup hdone h => ?_,
      fun room done cs v rest hdone h => ?_⟩
    · unfold value at h
      split at h
      · obtain ⟨⟨s, after⟩, -, h⟩ := Except.bind_eq_ok.1 h
        cases h
        exact .str s
      · split at h
        · cases h
        · split at h
          · cases h
            exact .object List.nodup_nil (List.forall_mem_nil _)
          · exact hmembers _ [] _ _ _ List.nodup_nil (List.forall_mem_nil _) h
      · split at h
        · cases h
        · split at h
          · cases h
            exact .list (List.forall_mem_nil _)
          · exact helements _ _ _ _ _ (List.forall_mem_nil _) h
      · exact keyed_scalar h
    · unfold members at h
      split at h
      · obtain ⟨⟨k, after⟩, -, h⟩ := Except.bind_eq_ok.1 h
        dsimp only at h
        split at h
        · obtain ⟨⟨w, after'⟩, hw, h⟩ := Except.bind_eq_ok.1 h
          have hmore : ∀ m ∈ setEntry k w done, m.2.Keyed := by
            intro m hm
            rcases mem_setEntry hm with rfl | hm
            · exact hvalue _ _ _ _ hw
            · exact hdone m hm
          dsimp only at h
          split at h
          · cases h
            exact .object (nodup_setEntry hnodup) hmore
          · exact hmembers _ _ _ _ _ (nodup_setEntry hnodup) hmore h
          · cases h
        · cases h
      · cases h
    · unfold elements at h
      obtain ⟨⟨w, after⟩, hw, h⟩ := Except.bind_eq_ok.1 h
      have hmore : ∀ u ∈ w :: done, u.Keyed :=
        List.forall_mem_cons.2 ⟨hvalue _ _ _ _ hw, hdone⟩
      dsimp only at h
      split at h
      · cases h
        exact .list fun u hu => hmore u (List.mem_reverse.1 hu)
      · exact helements _ _ _ _ _ hmore h
      · cases h

/-- The value of a text has distinct keys. -/
theorem keyed_of_parse {text : String} {v : Value} (h : parse text = .ok v) : v.Keyed := by
  have hdocument : document text.toList = .ok v := by
    unfold parse at h
    dsimp only at h
    split at h
    · next hv => exact hv.trans (congrArg Except.ok (Except.ok.inj h))
    · cases h
  unfold document at hdocument
  split at hdocument
  · cases hdocument
  · obtain ⟨⟨w, rest⟩, hw, hdocument⟩ := Except.bind_eq_ok.1 hdocument
    dsimp only at hdocument
    split at hdocument
    · cases hdocument
      exact (keyed_of_fuel _).1 _ _ _ _ hw
    · cases hdocument

end Json

end CrateBook
