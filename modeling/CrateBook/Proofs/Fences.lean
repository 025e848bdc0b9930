import CrateBook.Docs.Links
import CrateBook.Docs.Sanitize
import Mathlib.Data.List.TakeWhile

/-!
# Fences and the lines of docs

Links are resolved in two passes over the lines, and each pass looks for fences by itself. The
first one changes only lines that define a label: such a line starts with a bracket, and what is
put in its place does too, or is empty, so it opens and closes no fence and the second pass finds
the same ones. Lines outside fences are changed one by one, all others stay, and no line is broken
by what is written into it. Sanitizing looks for fences by a rule for whole lines, which comes to
the same until it meets a block of HTML.
-/
namespace CrateBook.Docs

open List (takeWhile_append_dropWhile)

/-! ## What the rules take from a line -/

/-- A definition stands on a line of its own, behind blanks and a bracket. -/
theorem eq_of_definition? {line : List Char} {f : Definition} (h : definition? line = some f) :
    line = f.lead ++ f.dest ++ f.rest ∧
      ∃ indent body, (∀ c ∈ indent, Text.isBlank c = true) ∧ f.lead = indent ++ '[' :: body := by
  unfold definition? at h
  dsimp only at h
  split at h
  · cases h
  · split at h
    · next body hbody =>
      split at h
      · next c label more hlabel hclose =>
        split at h
        · cases h
        · obtain rfl := Option.some.inj h
          refine ⟨?_, line.takeWhile Text.isBlank, _, fun c hc => List.mem_takeWhile_imp hc,
            List.append_assoc _ _ _⟩
          calc line
            _ = line.takeWhile Text.isBlank ++ '[' :: body := by
              rw [← hbody, takeWhile_append_dropWhile]
            _ = line.takeWhile Text.isBlank ++
                '[' :: (body.takeWhile (· != ']') ++ ']' :: ':' :: more) := by
              rw [← hclose, takeWhile_append_dropWhile]
            _ = line.takeWhile Text.isBlank ++ '[' :: (body.takeWhile (· != ']') ++
                ']' :: ':' :: (more.takeWhile Text.isBlank ++ more.dropWhile Text.isBlank)) := by
              rw [takeWhile_append_dropWhile]
            _ = _ := by simp
      · cases h
    · cases h

theorem eq_of_linkTail (cs : List Char) : cs = (linkTail cs).1.source ++ (linkTail cs).2 := by
  unfold linkTail
  split
  · next more =>
    split
    · next c d rest htake hdrop =>
      have hmore := takeWhile_append_dropWhile (p := isDestChar) (l := more)
      rw [htake, hdrop] at hmore
      simp [LinkTail.source, ← hmore]
    · rfl
  · next more =>
    split
    · next rest hdrop =>
      have hmore := takeWhile_append_dropWhile (p := fun c => !isBracket c) (l := more)
      rw [hdrop] at hmore
      simp [LinkTail.source, hmore]
    · rfl
  · rfl

/-- A link is read from the start of what stands behind its bracket. -/
theorem eq_of_link? {cs label rest : List Char} {tail : LinkTail}
    (h : link? cs = some (label, tail, rest)) : cs = label ++ ']' :: (tail.source ++ rest) := by
  unfold link? at h
  split at h
  · next c l more htake hdrop =>
    simp only [Option.some.injEq, Prod.mk.injEq] at h
    obtain ⟨rfl, htail⟩ := h
    have hcs := takeWhile_append_dropWhile (p := fun c => !isBracket c) (l := cs)
    have hmore := eq_of_linkTail more
    rw [htail] at hmore
    rw [htake, hdrop, hmore] at hcs
    exact hcs.symm
  · cases h

/-! ## Lines outside fences -/

variable {d : Destinations} {fence : Option (List Char)} {line : List Char}

theorem definition?_of_notMem (h : '[' ∉ line) : definition? line = none := by
  cases hdef : definition? line with
  | none => rfl
  | some f =>
    obtain ⟨hline, indent, body, -, hlead⟩ := eq_of_definition? hdef
    refine absurd ?_ h
    rw [hline, hlead]
    simp

/-- Without a bracket there is no link. -/
theorem relinkLine_of_notMem (dropped : List String) (before : Char) (h : '[' ∉ line) :
    relinkLine d dropped before line = (line, []) := by
  induction line generalizing before with
  | nil => rw [relinkLine]
  | cons c rest ih =>
    obtain ⟨hc, hrest⟩ := not_or.1 (List.mem_cons.not.1 h)
    rw [relinkLine, if_neg fun hopen => hc hopen.1.symm, ih c hrest]

/-- What becomes of a line outside fences. -/
def proseLine (d : Destinations) (dropped : List String) (line : List Char) : List Char :=
  (linkLine d dropped (defineLine d line).1).1

theorem proseLine_of_notMem (dropped : List String) (h : '[' ∉ line) :
    proseLine d dropped line = line := by
  have hdef := definition?_of_notMem h
  simp [proseLine, defineLine, linkLine, hdef, relinkLine_of_notMem dropped ' ' h]

/-- Where a character of a written line is from: from the line, from the marks of a link, or from
an address. -/
def Sourced (d : Destinations) (line : List Char) (c : Char) : Prop :=
  c ∈ line ∨ c ∈ ['[', ']', '(', ')'] ∨
    ∃ id title href, d.hrefOf id title = some href ∧ c ∈ href.toList

section

variable {c : Char}

theorem Sourced.mono {other : List Char} (h : Sourced d line c) (hsub : ∀ b ∈ line, b ∈ other) :
    Sourced d other c := h.imp_left (hsub c)

theorem sourced_resolve {key label : List Char} {href : String}
    (h : (d.resolve key label).1 = .known (some href)) (hc : c ∈ href.toList) :
    Sourced d line c := by
  unfold Destinations.resolve at h
  split at h
  · cases h
  · next id _ =>
    dsimp only at h
    split at h
    · next found hfound =>
      cases h
      exact .inr (.inr ⟨id, _, href, hfound, hc⟩)
    · cases h

theorem sourced_markdownLink {key label : List Char} {href : Option String}
    (h : (d.resolve key label).1 = .known href)
    (hc : c ∈ (Target.markdownLink (String.ofList label) href).toList) : Sourced d label c := by
  cases href with
  | none => exact .inl (by simpa [Target.markdownLink] using hc)
  | some href =>
    have hparts : c = '[' ∨ c ∈ label ∨ c = ']' ∨ c = '(' ∨ c ∈ href.toList ∨ c = ')' := by
      simpa [Target.markdownLink, or_assoc] using hc
    rcases hparts with rfl | hc | rfl | rfl | hc | rfl
    · exact .inr (.inl (by decide))
    · exact .inl hc
    · exact .inr (.inl (by decide))
    · exact .inr (.inl (by decide))
    · exact sourced_resolve h hc
    · exact .inr (.inl (by decide))

/-- What is written for a link is made of its text and tail, marks, and an address. -/
theorem sourced_relinked {dropped : List String} {label : List Char} {tail : LinkTail}
    (hc : c ∈ (relinked d dropped label tail).1) :
    Sourced d (label ++ ']' :: tail.source) c := by
  have hlabel : c ∈ label → Sourced d (label ++ ']' :: tail.source) c :=
    fun hc => .inl (List.mem_append_left _ hc)
  have hsource : c ∈ '[' :: label ++ ']' :: tail.source →
      Sourced d (label ++ ']' :: tail.source) c := by
    intro hc
    rcases List.mem_cons.1 hc with rfl | hc
    · exact .inr (.inl List.mem_cons_self)
    · exact .inl hc
  have hput {key : List Char} {href : Option String} (h : (d.resolve key label).1 = .known href)
      (hc : c ∈ (Target.markdownLink (String.ofList label) href).toList) :
      Sourced d (label ++ ']' :: tail.source) c :=
    (sourced_markdownLink h hc).mono fun _ => List.mem_append_left _
  unfold relinked at hc
  cases tail with
  | dest dest =>
    dsimp only at hc
    split at hc
    · exact hsource hc
    · next href hknown => exact hput hknown hc
  | label l =>
    dsimp only at hc
    generalize (if l.isEmpty = true then label else l) = key at hc
    split at hc
    · exact hlabel hc
    split at hc
    · exact hsource hc
    · next href hknown => exact hput hknown hc
  | bare =>
    dsimp only at hc
    split at hc
    · exact hlabel hc
    split at hc
    · exact hsource hc
    · next href hknown => exact hput hknown hc

theorem sourced_relinkLine {dropped : List String} {before : Char}
    (hc : c ∈ (relinkLine d dropped before line).1) : Sourced d line c := by
  fun_induction relinkLine d dropped before line with
  | case1 => exact absurd hc List.not_mem_nil
  | case2 before a rest hopen label tail after hlink out more ih =>
    have hrest := eq_of_link? hlink
    rcases List.mem_append.1 hc with hc | hc
    · refine (sourced_relinked hc).mono fun b hb => List.mem_cons_of_mem a ?_
      rw [hrest]
      simp only [List.mem_append, List.mem_cons] at hb ⊢
      exact hb.imp_right (Or.imp_right .inl)
    · refine (ih hc).mono fun b hb => List.mem_cons_of_mem a ?_
      rw [hrest]
      simp [hb]
  | case3 before a rest hopen hlink more ih =>
    rcases List.mem_cons.1 hc with rfl | hc
    · exact .inl List.mem_cons_self
    · exact (ih hc).mono fun b hb => List.mem_cons_of_mem a hb
  | case4 before a rest hopen more ih =>
    rcases List.mem_cons.1 hc with rfl | hc
    · exact .inl List.mem_cons_self
    · exact (ih hc).mono fun b hb => List.mem_cons_of_mem a hb

theorem sourced_defineLine (hc : c ∈ (defineLine d line).1) : Sourced d line c := by
  unfold defineLine at hc
  split at hc
  · exact .inl hc
  · next f hf =>
    have hline := (eq_of_definition? hf).1
    split at hc
    · exact .inl hc
    · next href notes hresolve =>
      rw [List.mem_append, List.mem_append] at hc
      rcases hc with (hc | hc) | hc
      · exact .inl (hline ▸ List.mem_append_left _ (List.mem_append_left _ hc))
      · exact sourced_resolve (congrArg Prod.fst hresolve) hc
      · exact .inl (hline ▸ List.mem_append_right _ hc)
    · exact absurd hc List.not_mem_nil

theorem sourced_proseLine {dropped : List String} (hc : c ∈ proseLine d dropped line) :
    Sourced d line c := by
  have hlinked : c ∈ (linkLine d dropped (defineLine d line).1).1 := hc
  unfold linkLine at hlinked
  split at hlinked
  · exact sourced_defineLine hlinked
  · rcases sourced_relinkLine hlinked with hc | hc | hc
    · exact sourced_defineLine hc
    · exact .inr (.inl hc)
    · exact .inr (.inr hc)

end

/-! ## Both passes find the same fences -/

theorem fenceMarker?_behind_bracket {indent : List Char}
    (hindent : ∀ c ∈ indent, Text.isBlank c = true) (body : List Char) :
    fenceMarker? (indent ++ '[' :: body) = none := by
  have hbracket : Text.isBlank '[' = false := by decide
  have hdrop : (indent ++ '[' :: body).dropWhile Text.isBlank = '[' :: body := by
    rw [List.dropWhile_append_of_pos hindent, List.dropWhile_cons_of_neg (by simp [hbracket])]
  rw [fenceMarker?, hdrop]
  exact if_neg (by decide)

theorem isProse_roleOf : (roleOf fence line).isProse = true ↔
    fence = none ∧ fenceMarker? line = none := by
  cases fence with
  | none => cases hmarker : fenceMarker? line <;> simp [roleOf, hmarker, LineRole.isProse]
  | some open_ =>
    cases hmarker : fenceMarker? line with
    | none => simp [roleOf, hmarker, LineRole.isProse]
    | some marker =>
      simp only [roleOf, hmarker, reduceCtorEq, false_and, iff_false]
      split <;> simp [LineRole.isProse]

/-- A definition is resolved into a line that is no fence either. -/
theorem fenceMarker?_defineLine (h : fenceMarker? line = none) :
    fenceMarker? (defineLine d line).1 = none := by
  unfold defineLine
  split
  · exact h
  · next f hf =>
    obtain ⟨-, indent, body, hindent, hlead⟩ := eq_of_definition? hf
    split
    · exact h
    · rw [hlead, List.append_assoc, List.append_assoc]
      exact fenceMarker?_behind_bracket hindent _
    · rfl

theorem roleOf_defineLine (h : (roleOf fence line).isProse = true) :
    roleOf fence (defineLine d line).1 = roleOf fence line := by
  obtain ⟨rfl, hmarker⟩ := isProse_roleOf.1 h
  simp only [roleOf, hmarker, fenceMarker?_defineLine hmarker]

/-- The second pass finds the fences that the first one has found. -/
theorem roles_defineLines (ls : List (List Char)) :
    roles fence (defineLines d fence ls).lines = roles fence ls := by
  induction ls generalizing fence with
  | nil => rfl
  | cons l ls ih =>
    rw [defineLines]
    dsimp only
    split
    · next hprose => rw [roles, roleOf_defineLine hprose, ih, roles]
    · rw [roles, ih, roles]

/-- The first pass resolves definitions on the lines outside fences. -/
theorem lines_defineLines (ls : List (List Char)) : (defineLines d fence ls).lines =
    List.zipWith (fun r l => if r.isProse then (defineLine d l).1 else l) (roles fence ls) ls := by
  induction ls generalizing fence with
  | nil => rfl
  | cons l ls ih =>
    rw [defineLines, roles, List.zipWith_cons_cons, ← ih]
    dsimp only
    split <;> rfl

/-- The second pass resolves links on the lines outside fences. -/
theorem linkLines_eq (dropped : List String) (ls : List (List Char)) :
    (linkLines d dropped fence ls).1 =
      List.zipWith (fun r l => if r.isProse then (linkLine d dropped l).1 else l)
        (roles fence ls) ls := by
  induction ls generalizing fence with
  | nil => rfl
  | cons l ls ih =>
    rw [linkLines, roles, List.zipWith_cons_cons, ← ih]
    dsimp only
    split <;> rfl

/-- Each line outside fences is changed by itself, and all others stay. -/
theorem relinkLines_eq (d : Destinations) (ls : List (List Char)) : ∃ dropped,
    (relinkLines d ls).1 =
      List.zipWith (fun r l => if r.isProse then proseLine d dropped l else l)
        (roles none ls) ls := by
  refine ⟨(defineLines d none ls).dropped, ?_⟩
  rw [relinkLines]
  dsimp only
  rw [linkLines_eq, roles_defineLines, lines_defineLines]
  generalize (defineLines d none ls).dropped = dropped
  generalize roles none ls = rs
  induction rs generalizing ls with
  | nil => rfl
  | cons r rs ih =>
    cases ls with
    | nil => rfl
    | cons l ls =>
      rw [List.zipWith_cons_cons, List.zipWith_cons_cons, List.zipWith_cons_cons, ih]
      cases hprose : r.isProse
      · rfl
      · rfl

/-- A fence that no line closes runs to the end. -/
theorem roles_of_unclosed {marker : List Char} {ls : List (List Char)}
    (h : ∀ l ∈ ls, ∀ m, fenceMarker? l = some m → marker.isPrefixOf m = false) :
    roles (some marker) ls = ls.map fun _ => .code := by
  induction ls with
  | nil => rfl
  | cons l ls ih =>
    have hcode : roleOf (some marker) l = .code := by
      cases hmarker : fenceMarker? l with
      | none => simp only [roleOf, hmarker]
      | some m =>
        simp only [roleOf, hmarker, h l List.mem_cons_self m hmarker]
        rfl
    rw [roles, hcode]
    exact congrArg _ (ih fun k hk => h k (List.mem_cons_of_mem l hk))

/-! ## The fences that sanitizing finds -/

theorem endsLine_of_notMem {cs : List Char} (h : '\n' ∉ cs) : endsLine cs = true := by
  have hnone : cs.dropWhile (· != '\n') = [] :=
    List.dropWhile_eq_nil_iff.2 fun c hc => by simpa using fun heq : c = '\n' => h (heq ▸ hc)
  rw [endsLine, hnone]

/-- A whole line is a fence if its start is one, where it has no line feed. -/
theorem fenceMarker?_eq (h : '\n' ∉ line) :
    fenceMarker? line = (fenceLine? line).map (·.marker) := by
  unfold fenceMarker? fenceLine?
  have hsub : ∀ c ∈ line.dropWhile Text.isBlank, c ∈ line :=
    (List.dropWhile_suffix _).subset
  dsimp only
  cases hrest : line.dropWhile Text.isBlank with
  | nil => rfl
  | cons c rest =>
    have hends : endsLine (rest.dropWhile (· == c)) = true :=
      endsLine_of_notMem fun hmem => h <| hsub _ <| hrest ▸
        List.mem_cons_of_mem c ((List.dropWhile_suffix _).subset hmem)
    dsimp only
    by_cases hsign : c = '\x60' ∨ c = '~'
    · rw [if_pos hsign, if_pos hsign]
      by_cases hlong : 3 ≤ (c :: rest.takeWhile (· == c)).length
      · rw [if_pos hlong, if_pos ⟨hlong, hends⟩, Option.map_some]
      · rw [if_neg hlong, if_neg fun hboth => hlong hboth.1, Option.map_none]
    · rw [if_neg hsign, if_neg hsign, Option.map_none]

/-- The role of a line where sanitizing stands; none in a block of HTML. -/
def Place.role (place : Place) (line : List Char) : Option LineRole :=
  match place with
  | .prose => some (((fenceLine? line).map fun f => .opening f.marker).getD .prose)
  | .fence marker _ => some (if closes marker line then .closing else .code)
  | .html _ => none

/-- The roles of lines where sanitizing comes to them. -/
def placedRoles (place : Place) : List (List Char) → List (Option LineRole)
  | [] => []
  | l :: ls => place.role l :: placedRoles (place.after l) ls

/-- Sanitizing stands where this fence is open, or none. -/
def Place.Within (place : Place) (fence : Option (List Char)) : Prop :=
  (place = .prose ∧ fence = none) ∨ ∃ marker rust, place = .fence marker rust ∧ fence = some marker

theorem Place.Within.role {place : Place} (h : place.Within fence) (hline : '\n' ∉ line) :
    place.role line = some (roleOf fence line) := by
  have hmarker := fenceMarker?_eq hline
  rcases h with ⟨rfl, rfl⟩ | ⟨marker, rust, rfl, rfl⟩
  · cases hfence : fenceLine? line <;> simp [Place.role, roleOf, hmarker, hfence]
  · cases hfence : fenceLine? line with
    | none => simp [Place.role, roleOf, hmarker, hfence, closes]
    | some f => simp [Place.role, roleOf, hmarker, hfence, closes]

/-- Sanitizing goes on with the fence that is open behind a line that starts no block of HTML. -/
theorem Place.Within.after {place : Place} (h : place.Within fence) (hline : '\n' ∉ line)
    (htag : (roleOf fence line).isProse = true →
      blockTag? (Text.dropAround Text.isBlank line) = none) :
    (place.after line).Within (fenceAfter fence (roleOf fence line)) := by
  have hmarker := fenceMarker?_eq hline
  rcases h with ⟨rfl, rfl⟩ | ⟨marker, rust, rfl, rfl⟩
  · cases hfence : fenceLine? line with
    | none =>
      rw [hfence, Option.map_none] at hmarker
      have hnone := htag (isProse_roleOf.2 ⟨rfl, hmarker⟩)
      refine .inl ⟨?_, ?_⟩
      · simp [Place.after, hfence, hnone]
      · simp [roleOf, hmarker, fenceAfter]
    | some f =>
      rw [hfence, Option.map_some] at hmarker
      refine .inr ⟨f.marker, isRust f.info, ?_, ?_⟩
      · simp [Place.after, hfence]
      · simp [roleOf, hmarker, fenceAfter]
  · cases hfence : fenceLine? line with
    | none =>
      rw [hfence, Option.map_none] at hmarker
      refine .inr ⟨marker, rust, ?_, ?_⟩
      · simp [Place.after, closes, hfence]
      · simp [roleOf, hmarker, fenceAfter]
    | some f =>
      rw [hfence, Option.map_some] at hmarker
      cases hcloses : marker.isPrefixOf f.marker
      · refine .inr ⟨marker, rust, ?_, ?_⟩
        · simp [Place.after, closes, hfence, hcloses]
        · simp [roleOf, hmarker, fenceAfter, hcloses]
      · refine .inl ⟨?_, ?_⟩
        · simp [Place.after, closes, hfence, hcloses]
        · simp [roleOf, hmarker, fenceAfter, hcloses]

/-- Sanitizing finds the same fences until a line outside them starts a block of HTML. -/
theorem placedRoles_eq {place : Place} {ls : List (List Char)} (h : place.Within fence)
    (hlines : ∀ l ∈ ls, '\n' ∉ l)
    (htags : ∀ p ∈ (roles fence ls).zip ls, p.1.isProse = true →
      blockTag? (Text.dropAround Text.isBlank p.2) = none) :
    placedRoles place ls = (roles fence ls).map some := by
  induction ls generalizing place fence with
  | nil => rfl
  | cons l ls ih =>
    have hline := hlines l List.mem_cons_self
    rw [roles, List.zip_cons_cons] at htags
    have hafter := h.after hline (htags _ List.mem_cons_self)
    rw [placedRoles, roles, List.map_cons, h.role hline,
      ih hafter (fun k hk => hlines k (List.mem_cons_of_mem l hk))
        fun p hp => htags p (List.mem_cons_of_mem _ hp)]

/-! ## Texts and their lines -/

/-- A line is a run of characters that end no line. -/
def IsLine (line : List Char) : Prop := ∀ c ∈ line, Text.isLineBreak c = false

theorem IsLine.notMem (h : IsLine line) : '\n' ∉ line := fun hmem =>
  absurd (h _ hmem) (by decide)

theorem isLine_consFirst {c : Char} {ls : List (List Char)}
    (hc : Text.isLineBreak c = false) (h : ∀ l ∈ ls, IsLine l) :
    ∀ l ∈ Text.consFirst c ls, IsLine l := by
  cases ls with
  | nil => simpa [Text.consFirst, IsLine] using hc
  | cons l ls =>
    obtain ⟨hl, hls⟩ := List.forall_mem_cons.1 h
    exact List.forall_mem_cons.2 ⟨List.forall_mem_cons.2 ⟨hc, hl⟩, hls⟩

theorem isLine_of_mem_splitLines (cs : List Char) : ∀ l ∈ Text.splitLines cs, IsLine l := by
  fun_induction Text.splitLines cs with
  | case1 => simp
  | case2 rest ih => exact List.forall_mem_cons.2 ⟨by simp [IsLine], ih⟩
  | case3 c rest _ hbreak ih => exact List.forall_mem_cons.2 ⟨by simp [IsLine], ih⟩
  | case4 c rest _ hbreak ih => exact isLine_consFirst (by simpa using hbreak) ih

theorem splitLines_ne_nil {cs : List Char} (h : cs ≠ []) : Text.splitLines cs ≠ [] := by
  fun_cases Text.splitLines cs with
  | case1 => exact absurd rfl h
  | case2 rest => simp
  | case3 c rest => simp
  | case4 c rest => cases Text.splitLines rest <;> simp [Text.consFirst]

theorem splitLines_cons {c : Char} (hc : Text.isLineBreak c = false) (rest : List Char) :
    Text.splitLines (c :: rest) = Text.consFirst c (Text.splitLines rest) := by
  have hreturn : ∀ more, c = '\r' → rest = '\n' :: more → False := by
    rintro more rfl -
    exact absurd hc (by decide)
  rw [Text.splitLines.eq_3 c rest hreturn, hc]
  rfl

theorem splitLines_append (h : IsLine line) (rest : List Char) :
    Text.splitLines (line ++ '\n' :: rest) = line :: Text.splitLines rest := by
  induction line with
  | nil =>
    rw [List.nil_append, Text.splitLines.eq_3 '\n' rest fun _ heq => absurd heq (by decide)]
    exact if_pos (by decide)
  | cons c line ih =>
    obtain ⟨hc, hline⟩ := List.forall_mem_cons.1 h
    rw [List.cons_append, splitLines_cons hc, ih hline, Text.consFirst]

theorem splitLines_line (h : IsLine line) :
    Text.splitLines line = if line = [] then [] else [line] := by
  induction line with
  | nil => rfl
  | cons c line ih =>
    obtain ⟨hc, hline⟩ := List.forall_mem_cons.1 h
    rw [splitLines_cons hc, ih hline, if_neg (List.cons_ne_nil c line)]
    cases line <;> rfl

theorem joinLines_singleton (l : List Char) : joinLines [l] = l := List.intercalate_singleton

theorem joinLines_cons_cons (l k : List Char) (ls : List (List Char)) :
    joinLines (l :: k :: ls) = l ++ '\n' :: joinLines (k :: ls) := by
  simp [joinLines, List.intercalate, List.intersperse]

/-- Joined lines are read back, but for an empty one at the end. -/
theorem splitLines_joinLines {ls : List (List Char)} (h : ∀ l ∈ ls, IsLine l) :
    Text.splitLines (joinLines ls) = if ls.getLast? = some [] then ls.dropLast else ls := by
  induction ls with
  | nil => rfl
  | cons l ls ih =>
    obtain ⟨hl, hls⟩ := List.forall_mem_cons.1 h
    cases ls with
    | nil =>
      rw [joinLines_singleton, splitLines_line hl]
      cases l <;> rfl
    | cons k ls =>
      rw [joinLines_cons_cons, splitLines_append hl, ih hls, List.getLast?_cons_cons,
        List.dropLast_cons_cons]
      split <;> rfl

/-! ## What resolving links keeps -/

/-- Behind the line that opens a fence, roles go on inside it. -/
theorem drop_roles_of_opening {marker : List Char} {i : Nat} {ls : List (List Char)}
    (h : (roles fence ls)[i]? = some (.opening marker)) :
    (roles fence ls).drop (i + 1) = roles (some marker) (ls.drop (i + 1)) := by
  induction ls generalizing fence i with
  | nil => cases h
  | cons l ls ih =>
    rw [roles] at h ⊢
    cases i with
    | zero =>
      have hrole : roleOf fence l = .opening marker := Option.some.inj h
      simp only [hrole, fenceAfter, List.drop_succ_cons, List.drop_zero]
    | succ i => simpa using ih h

/-- Behind a fence that no line closes, all lines are inside it. -/
theorem role_behind_unclosed {marker : List Char} {i j : Nat} {ls : List (List Char)}
    (hopening : (roles fence ls)[i]? = some (.opening marker))
    (hopen : ∀ l ∈ ls.drop (i + 1), ∀ m, fenceMarker? l = some m → marker.isPrefixOf m = false)
    (hj : i + 1 + j < ls.length) : (roles fence ls)[i + 1 + j]? = some .code := by
  have hinside := (drop_roles_of_opening hopening).trans (roles_of_unclosed hopen)
  rw [← List.getElem?_drop, hinside, List.getElem?_map, List.getElem?_drop,
    List.getElem?_eq_getElem hj]
  rfl

/-- What resolving the links of a text keeps, by its lines and the lines written for them. -/
structure KeepsLines (d : Destinations) (ls written : List (List Char)) : Prop where
  /-- As many lines are written as there are. -/
  length_eq : written.length = ls.length
  /-- The second pass finds the fences of the first one. -/
  passes : roles none (defineLines d none ls).lines = roles none ls
  /-- Fences and the lines between them stay. -/
  fenced : ∀ (i : Nat) (role : LineRole), (roles none ls)[i]? = some role →
    role.isProse = false → written[i]? = ls[i]?
  /-- Behind a fence that no line closes, all lines stay. -/
  unclosed : ∀ (i : Nat) (marker : List Char), (roles none ls)[i]? = some (.opening marker) →
    (∀ l ∈ ls.drop (i + 1), ∀ m, fenceMarker? l = some m → marker.isPrefixOf m = false) →
    written.drop i = ls.drop i
  /-- Lines without a bracket stay. -/
  plain : ∀ (i : Nat) (l : List Char), ls[i]? = some l → '[' ∉ l → written[i]? = some l
  /-- Sanitizing finds the same fences where no line outside them starts a block of HTML. -/
  sanitized : (∀ p ∈ (roles none ls).zip ls, p.1.isProse = true →
      blockTag? (Text.dropAround Text.isBlank p.2) = none) →
    placedRoles .prose ls = (roles none ls).map some

theorem keepsLines_relinkLines (d : Destinations) {ls : List (List Char)}
    (hlines : ∀ l ∈ ls, '\n' ∉ l) : KeepsLines d ls (relinkLines d ls).1 := by
  obtain ⟨dropped, hwritten⟩ := relinkLines_eq d ls
  have hlength : (relinkLines d ls).1.length = ls.length := by
    rw [hwritten, List.length_zipWith, length_roles, Nat.min_self]
  have hat {i : Nat} {role : LineRole} {l : List Char} (hrole : (roles none ls)[i]? = some role)
      (hl : ls[i]? = some l) :
      (relinkLines d ls).1[i]? = some (if role.isProse then proseLine d dropped l else l) := by
    rw [hwritten, List.getElem?_zipWith, hrole, hl]
  have hrole {i : Nat} {l : List Char} (hl : ls[i]? = some l) :
      ∃ role, (roles none ls)[i]? = some role := by
    have hlt : i < (roles none ls).length :=
      (length_roles none ls).symm ▸ (List.getElem?_eq_some_iff.1 hl).1
    exact ⟨_, List.getElem?_eq_getElem hlt⟩
  have hfenced (i : Nat) (role : LineRole) (h : (roles none ls)[i]? = some role)
      (hprose : role.isProse = false) : (relinkLines d ls).1[i]? = ls[i]? := by
    have hlt : i < ls.length := length_roles none ls ▸ (List.getElem?_eq_some_iff.1 h).1
    have hl := List.getElem?_eq_getElem hlt
    rw [hat h hl, hl, hprose]
    rfl
  refine ⟨hlength, roles_defineLines ls, hfenced, ?_, ?_, placedRoles_eq (.inl ⟨rfl, rfl⟩) hlines⟩
  · intro i marker hopening hopen
    refine List.ext_getElem? fun j => ?_
    rw [List.getElem?_drop, List.getElem?_drop]
    cases j with
    | zero => exact hfenced i _ hopening rfl
    | succ j =>
      rw [Nat.add_succ, ← Nat.succ_add]
      by_cases hj : i + 1 + j < ls.length
      · exact hfenced _ _ (role_behind_unclosed hopening hopen hj) rfl
      · rw [List.getElem?_eq_none (Nat.le_of_not_lt hj),
          List.getElem?_eq_none (hlength ▸ Nat.le_of_not_lt hj)]
  · intro i l hl hbracket
    obtain ⟨role, h⟩ := hrole hl
    rw [hat h hl, proseLine_of_notMem dropped hbracket, ite_self]

/-- A character that is no mark stands in the written lines only if the lines or an address hold
it. -/
theorem forall_mem_relinkLines {p : Char → Prop} {ls : List (List Char)}
    (hlines : ∀ l ∈ ls, ∀ c ∈ l, p c) (hmarks : ∀ c ∈ ['[', ']', '(', ')'], p c)
    (hhref : ∀ id title href, d.hrefOf id title = some href → ∀ c ∈ href.toList, p c) :
    ∀ l ∈ (relinkLines d ls).1, ∀ c ∈ l, p c := by
  obtain ⟨dropped, hwritten⟩ := relinkLines_eq d ls
  intro l hl c hc
  rw [hwritten, List.mem_iff_getElem?] at hl
  obtain ⟨i, hl⟩ := hl
  obtain ⟨role, k, -, hk, rfl⟩ := List.getElem?_zipWith_eq_some.1 hl
  have hk := hlines k (List.mem_of_getElem? hk)
  cases hprose : role.isProse with
  | false =>
    rw [hprose] at hc
    exact hk c hc
  | true =>
    rw [hprose, if_pos rfl] at hc
    rcases sourced_proseLine hc with hline | hmark | ⟨id, title, href, hfound, hmem⟩
    · exact hk c hline
    · exact hmarks c hmark
    · exact hhref id title href hfound c hmem

/-- Resolving the links of a text keeps its lines and its fences. -/
theorem keepsLines_relinkBy {links : List (String × Id)} (hlinks : links ≠ [])
    {hrefOf : Id → String → Option String}
    (hhref : ∀ id title href, hrefOf id title = some href → '\n' ∉ href.toList) (text : String) :
    ∃ written, KeepsLines ⟨fun k => links.lookup k, hrefOf⟩ (Text.splitLines text.toList) written ∧
      (relinkBy links hrefOf text).1.toList = joinLines written ∧
      (text ≠ "" → (relinkBy links hrefOf text).1.toList.splitOn '\n' = written) ∧
      ((∀ id title href, hrefOf id title = some href → IsLine href.toList) →
        Text.splitLines (relinkBy links hrefOf text).1.toList =
          if written.getLast? = some [] then written.dropLast else written) := by
  have hlines := isLine_of_mem_splitLines text.toList
  set d : Destinations := ⟨fun k => links.lookup k, hrefOf⟩ with hd
  set ls := Text.splitLines text.toList with hls
  have hkeeps : KeepsLines d ls (relinkLines d ls).1 :=
    keepsLines_relinkLines d fun l hl => (hlines l hl).notMem
  have hout : (relinkBy links hrefOf text).1.toList = joinLines (relinkLines d ls).1 := by
    rw [relinkBy]
    by_cases htext : text = ""
    · subst htext
      rfl
    · rw [if_neg (by simp [htext, hlinks])]
      exact String.toList_ofList
  refine ⟨(relinkLines d ls).1, hkeeps, hout, fun htext => ?_, fun hbreaks => ?_⟩
  · have hfeeds : ∀ l ∈ (relinkLines d ls).1, ∀ c ∈ l, c ≠ '\n' :=
      forall_mem_relinkLines (fun l hl c hc heq => (hlines l hl).notMem (heq ▸ hc)) (by simp)
        fun id title href hfound c hc heq => hhref id title href hfound (heq ▸ hc)
    have hsome : (relinkLines d ls).1 ≠ [] := by
      have hne : ls ≠ [] := splitLines_ne_nil (by simpa using htext)
      rw [← List.length_pos_iff, hkeeps.length_eq]
      exact List.length_pos_iff.2 hne
    rw [hout]
    exact List.splitOn_intercalate '\n' (fun l hl hmem => hfeeds l hl _ hmem rfl) hsome
  · rw [hout]
    have hmarks : ∀ c ∈ ['[', ']', '(', ')'], Text.isLineBreak c = false := by
      simp [Text.isLineBreak]
    exact splitLines_joinLines (forall_mem_relinkLines hlines hmarks hbreaks)

/-- A definition, and a link behind a fence that nothing closes. -/
theorem keepsLines_fencedLink :
    let links : List (String × Id) := [("Foo", "7")]
    let hrefOf : Id → String → Option String := fun _ _ => some "foo.md"
    let text := "[a]: Foo\n```\n[Foo]"
    links ≠ [] ∧ (∀ id title href, hrefOf id title = some href → '\n' ∉ href.toList) ∧
    ∃ written, KeepsLines ⟨fun k => links.lookup k, hrefOf⟩ (Text.splitLines text.toList) written ∧
      (relinkBy links hrefOf text).1.toList = joinLines written ∧
      (text ≠ "" → (relinkBy links hrefOf text).1.toList.splitOn '\n' = written) ∧
      ((∀ id title href, hrefOf id title = some href → IsLine href.toList) →
        Text.splitLines (relinkBy links hrefOf text).1.toList =
          if written.getLast? = some [] then written.dropLast else written) := by
  have hlinks : ([("Foo", "7")] : List (String × Id)) ≠ [] := List.cons_ne_nil _ _
  have hhref : ∀ (id : Id) (title href : String),
      some "foo.md" = some href → '\n' ∉ href.toList := by
    rintro - - _ ⟨⟩
    decide
  exact ⟨hlinks, hhref, keepsLines_relinkBy hlinks hhref _⟩

end CrateBook.Docs
