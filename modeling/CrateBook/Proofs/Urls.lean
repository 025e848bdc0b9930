import CrateBook.Proofs.Sites

/-!
# Addresses of pages

A page's address is its package's address followed by segments. Where the segments are not
empty and have no slash, the address tells them all; so the addresses of two files differ if
their segments do, although an index page goes by its directory.
-/
namespace CrateBook

namespace Text

theorem dropSuffix_append (s back : String) : dropSuffix back (s ++ back) = s := by
  have hends : endsWith back (s ++ back) = true := by
    simp [endsWith]
  rw [dropSuffix, if_pos hends]
  simp

theorem dropSuffix_of_not_suffix {s back : String} (h : ¬ back.toList <:+ s.toList) :
    dropSuffix back s = s := by
  have hends : ¬ endsWith back s = true := by
    simpa [endsWith] using h
  rw [dropSuffix, if_neg hends]

end Text

/-- Two suffixes that start at the last of some character are the same. -/
theorem eq_of_suffix_cons {α : Type} {c : α} {as bs l : List α} (ha : c :: as <:+ l)
    (hb : c :: bs <:+ l) (hca : c ∉ as) (hcb : c ∉ bs) : as = bs := by
  rcases List.suffix_or_suffix_of_suffix ha hb with h | h
  · rcases List.suffix_cons_iff.1 h with h | h
    · exact (List.cons.inj h).2
    · exact absurd (h.subset List.mem_cons_self) hcb
  · rcases List.suffix_cons_iff.1 h with h | h
    · exact (List.cons.inj h).2.symm
    · exact absurd (h.subset List.mem_cons_self) hca

namespace Layout

/-- A segment of an address: not empty, and without a slash. -/
def IsSegment (s : String) : Prop := s ≠ "" ∧ '/' ∉ s.toList

/-- Segments can be read off their address. -/
theorem intercalate_inj {as bs : List String} (ha : ∀ a ∈ as, IsSegment a)
    (hb : ∀ b ∈ bs, IsSegment b) (h : "/".intercalate as = "/".intercalate bs) : as = bs := by
  have hsplit {cs : List String} (hcs : ∀ c ∈ cs, IsSegment c) :
      (((String.singleton '/').intercalate cs).split '/').toList.map (·.copy) =
        if cs = [] then [""] else cs :=
    String.toList_split_intercalate fun c hc => (hcs c hc).2
  have hslash : String.singleton '/' = "/" := rfl
  have has := hsplit ha
  have hbs := hsplit hb
  rw [hslash] at has hbs
  rw [h, hbs] at has
  by_cases hane : as = [] <;> by_cases hbne : bs = []
  · rw [hane, hbne]
  · rw [if_pos hane, if_neg hbne] at has
    exact absurd rfl (hb "" (has ▸ List.mem_cons_self)).1
  · rw [if_neg hane, if_pos hbne] at has
    exact absurd rfl (ha "" (has ▸ List.mem_cons_self)).1
  · rw [if_neg hane, if_neg hbne] at has
    exact has.symm

/-- The page of a module goes by the module's directory. -/
theorem pagePath_moduleFile (path : List String) :
    pagePath (moduleFile path) = directoryOf path := by
  unfold pagePath moduleFile directoryOf
  by_cases htail : path.tail = []
  · rw [htail]
    rfl
  · have hfile : "/".intercalate (path.tail ++ ["index.md"]) =
        "/".intercalate path.tail ++ "/index" ++ ".md" := by
      rw [String.intercalate_append_of_ne_nil htail (by simp), String.intercalate_singleton]
      simp only [String.append_assoc]
      rfl
    have hindex : ("/".intercalate path.tail ++ "/index" == "index") = false := by
      rw [beq_eq_false_iff_ne]
      intro h
      have hlen := congrArg String.length h
      have hindex : "/index".length = 6 ∧ "index".length = 5 := by decide
      rw [String.length_append, hindex.1, hindex.2] at hlen
      omega
    simp only [hfile, Text.dropSuffix_append, hindex]
    rfl

/-- The page of an item goes by its directory and name, unless the name is that of an index. -/
theorem pagePath_itemFile {directory name : String} (hname : '/' ∉ name.toList)
    (hindex : name ≠ "index") : pagePath (itemFile directory name) =
      if directory.isEmpty then name else directory ++ "/" ++ name := by
  have hslash : "/index".toList = '/' :: "index".toList := rfl
  have hcut (rel : String) (hrel : rel ≠ "index") (hsuffix : ¬ "/index".toList <:+ rel.toList) :
      pagePath (rel ++ ".md") = rel := by
    have hbeq : (rel == "index") = false := by simpa using hrel
    simp only [pagePath, Text.dropSuffix_append, hbeq, Text.dropSuffix_of_not_suffix hsuffix]
    rfl
  unfold itemFile
  split
  · refine hcut name hindex fun hsuffix => hname ?_
    exact hsuffix.subset (hslash ▸ List.mem_cons_self)
  · have hfile : directory ++ "/" ++ (name ++ ".md") = directory ++ "/" ++ name ++ ".md" := by
      simp only [String.append_assoc]
    have hlast : '/' :: name.toList <:+ (directory ++ "/" ++ name).toList := by
      simp
    rw [hfile]
    refine hcut _ (fun h => ?_) fun hsuffix => hindex ?_
    · rw [h] at hlast
      exact absurd (hlast.subset List.mem_cons_self) (by decide)
    · rw [hslash] at hsuffix
      exact String.toList_inj.1 (eq_of_suffix_cons hlast hsuffix hname (by decide))

/-- The address of a page tells where it is below the package. -/
theorem pagePath_inj {basePath package path path' : String}
    (h : pageUrl basePath package path = pageUrl basePath package path') :
    pagePath path = pagePath path' := by
  unfold pageUrl at h
  generalize Text.trimEndChar '/' basePath ++ "/" ++ package = url at h
  have hlonger (rel : String) : url ≠ url ++ "/" ++ rel := by
    intro heq
    have hlen := congrArg String.length heq
    have hslash : "/".length = 1 := by decide
    rw [String.length_append, String.length_append, hslash] at hlen
    omega
  dsimp only at h
  split at h
  · next hempty =>
    split at h
    · next hempty' =>
      rw [String.isEmpty_iff.1 hempty, String.isEmpty_iff.1 hempty']
    · exact absurd h (hlonger _)
  · split at h
    · exact absurd h.symm (hlonger _)
    · have hlist := congrArg String.toList h
      simp only [String.toList_append] at hlist
      exact String.toList_inj.1 (List.append_cancel_left hlist)

section

/-- A number is written with digits only. -/
theorem notMem_toString {c : Char} (h : c.isDigit = false) (k : Nat) :
    c ∉ (toString k).toList := by
  rw [Nat.toString_eq_repr, Nat.toList_repr]
  intro hc
  have hdigit := Nat.isDigit_of_mem_toDigits (by decide) (by decide) hc
  rw [h] at hdigit
  exact absurd hdigit (by decide)

theorem toString_inj {j k : Nat} (h : toString j = toString k) : j = k := by
  have hdigits := congrArg String.toList h
  rw [Nat.toString_eq_repr, Nat.toString_eq_repr, Nat.toList_repr, Nat.toList_repr] at hdigits
  rw [← Nat.ofDigitChars_ten_toDigits (n := j), hdigits, Nat.ofDigitChars_ten_toDigits]

theorem toList_numbered (s : String) (k : Nat) :
    (s ++ "-" ++ toString k).toList = s.toList ++ '-' :: (toString k).toList := by
  simp

theorem suffix_numbered (s : String) (k : Nat) :
    '-' :: (toString k).toList <:+ (s ++ "-" ++ toString k).toList := by
  rw [toList_numbered]
  exact List.suffix_append _ _

/-- What has a dot in front of its last part, which has no hyphen, does not end in a number
behind a hyphen: the number would be that part, or hold the dot. -/
theorem not_suffix_number {as cs : List Char} (hdot : '.' :: as <:+ cs) (hdash : '-' ∉ as)
    (k : Nat) : ¬ '-' :: (toString k).toList <:+ cs := by
  intro hnumber
  rcases List.suffix_or_suffix_of_suffix hdot hnumber with hs | hs
  · rcases List.suffix_cons_iff.1 hs with hs | hs
    · exact absurd (List.cons.inj hs).1 (by decide)
    · exact notMem_toString (by decide) k (hs.subset List.mem_cons_self)
  · rcases List.suffix_cons_iff.1 hs with hs | hs
    · exact absurd (List.cons.inj hs).1 (by decide)
    · exact hdash (hs.subset List.mem_cons_self)

/-- A name with a number tells the name and the number. -/
theorem numbered_inj {s t : String} {j k : Nat}
    (h : s ++ "-" ++ toString j = t ++ "-" ++ toString k) : s = t ∧ j = k := by
  have hdash (k : Nat) : '-' ∉ (toString k).toList := notMem_toString (by decide) k
  have hj := suffix_numbered s j
  rw [h] at hj
  have hdigits := eq_of_suffix_cons hj (suffix_numbered t k) (hdash j) (hdash k)
  have hjk := toString_inj (String.toList_inj.1 hdigits)
  subst hjk
  have hlist := congrArg String.toList h
  rw [toList_numbered, toList_numbered] at hlist
  exact ⟨String.toList_inj.1 (List.append_cancel_right hlist), rfl⟩

end

/-- A request whose plain name is a segment without a dash, and whose qualified name puts a
word in front of it. -/
structure PlainRequest (r : Request) : Prop where
  segment : IsSegment r.base
  dashless : '-' ∉ r.base.toList
  qualified : ∃ word, '/' ∉ word.toList ∧ r.qualified = word ++ "." ++ r.base

section

variable {reserved : List String} {requests : List Request} {r : Request}

theorem firstName_cases (reserved : List String) (requests : List Request) (r : Request) :
    firstName reserved requests r = r.base ∧ Text.lower r.base ∉ reserved ∨
      firstName reserved requests r = r.qualified := by
  unfold firstName
  split
  · exact .inr rfl
  · next h =>
    refine .inl ⟨rfl, fun hmem => h ?_⟩
    simp [clashes, hmem]

/-- The qualified name of a plain request ends in a dot and its base. -/
theorem PlainRequest.suffix (h : PlainRequest r) : '.' :: r.base.toList <:+ r.qualified.toList := by
  obtain ⟨word, -, hword⟩ := h.qualified
  rw [hword]
  simp

/-- No name without a number reads like one with a number. -/
theorem PlainRequest.firstName_ne (h : PlainRequest r) (s : String) (k : Nat) :
    firstName reserved requests r ≠ s ++ "-" ++ toString k := by
  intro heq
  have hnumber := suffix_numbered s k
  rw [← heq] at hnumber
  rcases firstName_cases reserved requests r with ⟨hbase, -⟩ | hqualified
  · rw [hbase] at hnumber
    exact h.dashless (hnumber.subset List.mem_cons_self)
  · rw [hqualified] at hnumber
    exact not_suffix_number h.suffix h.dashless k hnumber

theorem PlainRequest.segment_firstName (h : PlainRequest r) :
    IsSegment (firstName reserved requests r) := by
  rcases firstName_cases reserved requests r with ⟨hbase, -⟩ | hqualified
  · exact hbase ▸ h.segment
  · obtain ⟨word, hword, heq⟩ := h.qualified
    rw [hqualified]
    refine ⟨fun hempty => ?_, fun hslash => ?_⟩
    · have hdot := h.suffix.subset List.mem_cons_self
      rw [hempty] at hdot
      exact absurd hdot (by decide)
    · rw [heq] at hslash
      simp only [String.toList_append, List.mem_append] at hslash
      rcases hslash with (hslash | hslash) | hslash
      · exact hword hslash
      · exact absurd hslash (by decide)
      · exact h.segment.2 hslash

/-- A name that was given out is a segment. It is the plain one, and not reserved, or it has
a dot or a dash. -/
theorem PlainRequest.given (h : PlainRequest r) (hids : (requests.map (·.id)).Nodup)
    (hr : r ∈ requests) {name : String}
    (hname : (namesOf reserved requests).get? r.id = some name) : IsSegment name ∧
      (name = r.base ∧ Text.lower r.base ∉ reserved ∨ '.' ∈ name.toList ∨ '-' ∈ name.toList) := by
  obtain ⟨before, -, hbefore⟩ : ∃ before, (∀ q ∈ before, q ∈ requests ∧ q.id ≠ r.id) ∧
      (namesOf reserved requests).get? r.id =
        some (nameBehind (firstName reserved requests) before r) := exists_name hids hr
  obtain rfl := Option.some.inj (hbefore.symm.trans hname)
  unfold nameBehind
  dsimp only
  split
  · refine ⟨h.segment_firstName, ?_⟩
    rcases firstName_cases reserved requests r with hbase | hqualified
    · exact .inl hbase
    · exact .inr (.inl (hqualified ▸ h.suffix.subset List.mem_cons_self))
  · generalize before.countP _ + 1 = k
    have hdash := (suffix_numbered (firstName reserved requests r) k).subset List.mem_cons_self
    refine ⟨⟨fun hempty => ?_, fun hslash => ?_⟩, .inr (.inr hdash)⟩
    · rw [hempty] at hdash
      exact absurd hdash (by decide)
    · rw [toList_numbered, List.mem_append, List.mem_cons] at hslash
      rcases hslash with hslash | hslash | hslash
      · exact h.segment_firstName.2 hslash
      · exact absurd hslash (by decide)
      · exact notMem_toString (by decide) k hslash

end

end Layout

end CrateBook
