import CrateBook.Proofs.LowerCase
import CrateBook.Proofs.Urls

/-!
# Numbers that meet names

Of the requests that share a first name all but one get a number, and nobody looks whether
another name reads like that already. The names that are given out differ in lower case
exactly if no first name reads like a name with a number that is in use. Names of files have
a dot in front of the last plain name, so theirs never do.
-/
namespace CrateBook.Layout

section

variable {first : Request → String}

/-- Of the requests with one first name, the `n`-th has the number `n`, but for the first. -/
theorem exists_mem_numbered {rest : List Request} (before : List Request) {r : Request} {n : Nat}
    (hlow : sharing first before r < n)
    (hhigh : n ≤ sharing first before r + sharing first rest r) :
    ∃ q ∈ rest, Text.lower (first q) = Text.lower (first r) ∧
      (q.id, if n = 1 then first q else first q ++ "-" ++ toString n) ∈
        numbered first before rest := by
  induction rest generalizing before with
  | nil =>
    have hnil : sharing first [] r = 0 := rfl
    omega
  | cons p rest ih =>
    rw [numbered_cons]
    by_cases hkey : Text.lower (first p) = Text.lower (first r)
    · have hrest : sharing first (p :: rest) r = sharing first rest r + 1 :=
        List.countP_cons_of_pos (by simpa using hkey)
      have hbefore : sharing first (p :: before) r = sharing first before r + 1 :=
        List.countP_cons_of_pos (by simpa using hkey)
      by_cases hn : n = sharing first before r + 1
      · refine ⟨p, List.mem_cons_self, hkey, List.mem_cons.2 (.inl ?_)⟩
        rw [nameBehind_eq, sharing_congr hkey, hn]
        simp
      · obtain ⟨q, hq, hqr, hmem⟩ := ih (p :: before) (by omega) (by omega)
        exact ⟨q, List.mem_cons_of_mem p hq, hqr, List.mem_cons_of_mem _ hmem⟩
    · have hrest : sharing first (p :: rest) r = sharing first rest r :=
        List.countP_cons_of_neg (by simpa using hkey)
      have hbefore : sharing first (p :: before) r = sharing first before r :=
        List.countP_cons_of_neg (by simpa using hkey)
      obtain ⟨q, hq, hqr, hmem⟩ := ih (p :: before) (by omega) (by omega)
      exact ⟨q, List.mem_cons_of_mem p hq, hqr, List.mem_cons_of_mem _ hmem⟩

end

/-- The name of one request, before numbers are added, reads like that of another one with a
number that is in use. -/
def MeetsNumber (reserved : List String) (requests : List Request) : Prop :=
  ∃ q ∈ requests, ∃ r ∈ requests, ∃ n : Nat, 1 < n ∧
    n ≤ sharing (firstName reserved requests) requests r ∧
    Text.lower (firstName reserved requests q) =
      Text.lower (firstName reserved requests r) ++ "-" ++ toString n

/-- A request for the name of a file: the plain name has no hyphen, and stands behind a dot
in the qualified one. -/
def IsFileRequest (r : Request) : Prop :=
  '-' ∉ r.base.toList ∧ ∃ word, r.qualified = word ++ "." ++ r.base

section

variable {reserved : List String} {requests : List Request}

/-- In lower case no name of a file reads like one with a number. -/
theorem IsFileRequest.lower_firstName_ne {r : Request} (h : IsFileRequest r) (s : String)
    (k : Nat) : Text.lower (firstName reserved requests r) ≠ s ++ "-" ++ toString k := by
  obtain ⟨hdashless, word, hword⟩ := h
  have hlower {before : List Char} : '-' ∉ Text.lowerAfter before r.base.toList :=
    fun hdash => hdashless ((Text.mem_lowerAfter (by decide)).1 hdash)
  intro heq
  have hnumber := suffix_numbered s k
  rw [← heq, Text.lower, String.toList_ofList] at hnumber
  rcases firstName_cases reserved requests r with ⟨hbase, -⟩ | hqualified
  · rw [hbase] at hnumber
    exact hlower (hnumber.subset List.mem_cons_self)
  · have hsplit : r.qualified.toList = word.toList ++ '.' :: r.base.toList := by
      rw [hword]
      simp
    have hlast := Text.suffix_lowerAfter [] word.toList ('.' :: r.base.toList)
    rw [← hsplit, Text.lowerAfter, Text.lowerAt_of_isSign (by decide)] at hlast
    rw [hqualified] at hnumber
    exact not_suffix_number hlast hlower k hnumber

/-- The names that are given out differ in lower case exactly if no first name reads like a
name with a number that is in use. -/
theorem nodup_lower_namesOf (h : (requests.map (·.id)).Nodup) :
    ((namesOf reserved requests).entries.map fun e => Text.lower e.2).Nodup ↔
      ¬ MeetsNumber reserved requests := by
  have hfirst : firstName reserved (sortById (·.id) requests) = firstName reserved requests :=
    funext fun p => firstName_congr sorted_perm p
  have hmem {r : Request} : r ∈ sortById (·.id) requests ↔ r ∈ requests := sorted_perm.mem_iff
  have hsharing (r : Request) : sharing (firstName reserved requests)
      (sortById (·.id) requests) r = sharing (firstName reserved requests) requests r :=
    sorted_perm.countP_eq _
  rw [entries_namesOf h, hfirst]
  constructor
  · rintro hnodup ⟨q, hq, r, hr, n, hn, hle, hmeets⟩
    have hpos : 1 ≤ sharing (firstName reserved requests) requests q :=
      List.countP_pos_iff.2 ⟨q, hq, by simp⟩
    have hgiven {p : Request} {k : Nat} (hk : 0 < k)
        (hkp : k ≤ sharing (firstName reserved requests) requests p) :=
      exists_mem_numbered [] hk (Nat.le_trans (hsharing p ▸ hkp) (Nat.le_add_left _ _))
    obtain ⟨q', hq', hkeyq, hplain⟩ := hgiven Nat.zero_lt_one hpos
    obtain ⟨r', hr', hkeyr, hnumber⟩ := hgiven (Nat.lt_trans Nat.zero_lt_one hn) hle
    rw [if_pos rfl] at hplain
    rw [if_neg (by omega)] at hnumber
    have hsame := List.inj_on_of_nodup_map hnodup hplain hnumber
      (by rw [Text.lower_numbered, hkeyq, hkeyr, hmeets])
    rw [Prod.mk.injEq] at hsame
    have hqr : q' = r' := List.inj_on_of_nodup_map h (hmem.1 hq') (hmem.1 hr') hsame.1
    have hlen := congrArg String.length hsame.2
    rw [hqr, String.length_append, String.length_append] at hlen
    have hdash : "-".length = 1 := by decide
    omega
  · intro hmeets
    refine nodup_numbered (fun a b hab => hab) (fun r hr q hq k hk hle hname => hmeets ?_)
      fun r hr q hq j k hjk => ?_
    · rw [List.append_nil] at hle
      refine ⟨r, hmem.1 hr, q, hmem.1 hq, k, hk, ?_, ?_⟩
      · rw [← hsharing]
        exact Nat.le_trans hle (Nat.le_of_eq ((List.reverse_perm _).countP_eq _))
      · rwa [Text.lower_numbered] at hname
    · rw [Text.lower_numbered, Text.lower_numbered] at hjk
      exact numbered_inj hjk

/-- Requests in the order of their ids are named in this order. -/
theorem entries_namesOf_of_pairwise (h : (requests.map (·.id)).Nodup)
    (hsorted : requests.Pairwise fun a b => a.id.key.le b.id.key = true) :
    (namesOf reserved requests).entries =
      numbered (firstName reserved requests) [] requests := by
  have hsort : sortById (·.id) requests = requests := List.mergeSort_of_pairwise hsorted
  rw [entries_namesOf h, hsort]

/-- Every request gets a name, and the names differ in lower case exactly if no first name
reads like a name with a number that is in use; those of files always do. -/
theorem nodup_lower_names_iff (directory : String) (reserved : List String)
    (requests : List Request) (hkeys : ∀ r ∈ requests, (Id.key? r.id).isSome = true)
    (hids : (requests.map (·.id)).Nodup) :
    ∃ names collisions, allocate directory reserved requests = .ok (names, collisions) ∧
      names.keys.Perm (requests.map (·.id)) ∧
      ((names.entries.map fun e => Text.lower e.2).Nodup ↔ ¬ MeetsNumber reserved requests) ∧
      ((∀ r ∈ requests, IsFileRequest r) →
        (names.entries.map fun e => Text.lower e.2).Nodup) := by
  obtain ⟨⟨names, collisions⟩, hallocate⟩ :
      ∃ d, allocate directory reserved requests = .ok d := exists_allocate hkeys
  refine ⟨names, collisions, hallocate, ?_⟩
  obtain rfl := eq_namesOf_of_allocate hallocate
  have hnames : (namesOf reserved requests).keys.Perm (requests.map (·.id)) := by
    rw [Table.keys, entries_namesOf hids, map_fst_numbered]
    exact sorted_perm.map _
  refine ⟨hnames, nodup_lower_namesOf hids, fun hfiles => (nodup_lower_namesOf hids).2 ?_⟩
  rintro ⟨q, hq, r, -, n, -, -, hmeets⟩
  exact (hfiles q hq).lower_firstName_ne _ n hmeets

end

/-- The requests of a directory for the files of four items, one of them named like a child
directory. -/
def fooFiles : List Request :=
  [⟨"1", "Foo", "struct.Foo"⟩, ⟨"2", "foo", "fn.foo"⟩, ⟨"3", "FOO", "fn.FOO"⟩,
    ⟨"4", "bar", "fn.bar"⟩]

/-- Requests that meet in lower case and with a reserved name get names that stay apart. -/
theorem nodup_lower_names_fooFiles : ∃ names collisions,
    allocate "" ["index", "bar"] fooFiles = .ok (names, collisions) ∧
      names.entries =
        [("1", "struct.Foo"), ("2", "fn.foo"), ("3", "fn.FOO-2"), ("4", "fn.bar")] ∧
      (names.entries.map fun e => Text.lower e.2).Nodup ∧
      ¬ MeetsNumber ["index", "bar"] fooFiles := by
  obtain ⟨names, collisions, hallocate, -, hiff, hfiles⟩ :=
    nodup_lower_names_iff "" ["index", "bar"] fooFiles (by decide +kernel) (by decide)
  have hnodup := hfiles (by
    intro r hr
    simp only [fooFiles, List.mem_cons, List.not_mem_nil, or_false] at hr
    rcases hr with rfl | rfl | rfl | rfl
    · exact ⟨by decide, "struct", rfl⟩
    · exact ⟨by decide, "fn", rfl⟩
    · exact ⟨by decide, "fn", rfl⟩
    · exact ⟨by decide, "fn", rfl⟩)
  have hentries : (namesOf ["index", "bar"] fooFiles).entries =
      [("1", "struct.Foo"), ("2", "fn.foo"), ("3", "fn.FOO-2"), ("4", "fn.bar")] := by
    rw [entries_namesOf_of_pairwise (by decide) (by decide +kernel)]
    decide +kernel
  refine ⟨names, collisions, hallocate, ?_, hnodup, hiff.1 hnodup⟩
  rw [eq_namesOf_of_allocate hallocate, hentries]

/-- The requests of a page for the anchors of three functions. -/
def underscored : List Request :=
  [anchorRequest "1" "function" "a_b", anchorRequest "2" "function" "a__b",
    anchorRequest "3" "function" "fn_a_b_2"]

/-- Two functions share an anchor: the second of those that clash gets the number that the
third one has in its own name. -/
theorem not_nodup_lower_names_underscored : (underscored.map (·.id)).Nodup ∧
    ∃ names collisions, allocate "index.md" [] underscored = .ok (names, collisions) ∧
      names.entries = [("1", "fn-a-b"), ("2", "fn-a-b-2"), ("3", "fn-a-b-2")] ∧
      ¬ (names.entries.map fun e => Text.lower e.2).Nodup := by
  obtain ⟨⟨names, collisions⟩, hallocate⟩ :
      ∃ d, allocate "index.md" [] underscored = .ok d := exists_allocate (by decide +kernel)
  have hentries : (namesOf [] underscored).entries =
      [("1", "fn-a-b"), ("2", "fn-a-b-2"), ("3", "fn-a-b-2")] := by
    rw [entries_namesOf_of_pairwise (by decide) (by decide +kernel)]
    decide +kernel
  refine ⟨by decide, names, collisions, hallocate, ?_⟩
  rw [eq_namesOf_of_allocate hallocate, hentries]
  exact ⟨rfl, by decide +kernel⟩

end CrateBook.Layout
