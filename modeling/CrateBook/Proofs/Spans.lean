import CrateBook.Markdown
import CrateBook.Proofs.DocParts
import CrateBook.Proofs.Tags

/-!
# Code spans and code blocks

A code span ends at the first run of backquotes that is as long as the one that opens it, and a
fenced block at the first line that starts with a run at least as long as its fence. Spans and
blocks are written with one of two widths. So a span holds its text unless this has no characters,
or a run of exactly two backquotes; and a block holds its code unless one of the lines starts with
four or more.
-/
namespace CrateBook.Markdown

open Docs (scan scanFrom fenceLine? closes isBlankLine trimBack)
open Text (isBlank dropBack)

/-! ## Runs of backquotes -/

/-- The lengths of the runs of backquotes in a text, behind a run that is still open. -/
def runs (run : Nat) : List Char → List Nat
  | [] => if run = 0 then [] else [run]
  | c :: cs =>
    if c = '\x60' then runs (run + 1) cs
    else if run = 0 then runs 0 cs
    else run :: runs 0 cs

/-- The text of the span that ends at the next run of so many backquotes, and what follows, behind
a run that is still open. -/
def spanFrom (width run : Nat) : List Char → Option (List Char × List Char)
  | [] => if run = width then some ([], []) else none
  | c :: cs =>
    if c = '\x60' then spanFrom width (run + 1) cs
    else if run = width then some ([], c :: cs)
    else (spanFrom width 0 cs).map fun s => (List.replicate run '\x60' ++ c :: s.1, s.2)

/-- The text of the code span that a text starts with, and what follows it. -/
def span? (cs : List Char) : Option (List Char × List Char) :=
  spanFrom (cs.takeWhile (· == '\x60')).length 0 (cs.dropWhile (· == '\x60'))

section

variable {width run : Nat} {c : Char} {cs ds : List Char}

theorem runs_replicate_append (run n : Nat) (cs : List Char) :
    runs run (List.replicate n '\x60' ++ cs) = runs (run + n) cs := by
  induction n generalizing run with
  | zero => rfl
  | succ n ih =>
    rw [List.replicate_succ, List.cons_append, runs, if_pos rfl, ih]
    congr 1
    omega

/-- A character that is no backquote closes the run in front of it. -/
theorem runs_replicate_cons (hc : c ≠ '\x60') (n : Nat) (cs : List Char) :
    runs 0 (List.replicate n '\x60' ++ c :: cs) = if n = 0 then runs 0 cs else n :: runs 0 cs := by
  rw [runs_replicate_append, Nat.zero_add, runs, if_neg hc]

theorem runs_of_notMem (h : '\x60' ∉ cs) : runs 0 cs = [] := by
  induction cs with
  | nil => rfl
  | cons c cs ih =>
    obtain ⟨hc, hcs⟩ := not_or.1 (List.mem_cons.not.1 h)
    rw [runs, if_neg (Ne.symm hc), if_pos rfl, ih hcs]

theorem runs_append_singleton (hc : c ≠ '\x60') (run : Nat) (cs : List Char) :
    runs run (cs ++ [c]) = runs run cs := by
  induction cs generalizing run with
  | nil => simp [runs, hc]
  | cons b cs ih => simp only [List.cons_append, runs, ih]

theorem takeWhile_replicate_append (h : ∀ c ∈ cs.head?, c ≠ '\x60') (n : Nat) :
    (List.replicate n '\x60' ++ cs).takeWhile (· == '\x60') = List.replicate n '\x60' := by
  have hstop : cs.takeWhile (· == '\x60') = [] := by
    cases cs with
    | nil => rfl
    | cons c cs => exact List.takeWhile_cons_of_neg (by simpa using h c rfl)
  rw [List.takeWhile_append_of_pos (by simp), hstop, List.append_nil]

theorem dropWhile_replicate_append (h : ∀ c ∈ cs.head?, c ≠ '\x60') (n : Nat) :
    (List.replicate n '\x60' ++ cs).dropWhile (· == '\x60') = cs := by
  rw [List.dropWhile_append_of_pos (by simp)]
  cases cs with
  | nil => rfl
  | cons c cs => exact List.dropWhile_cons_of_neg (by simpa using h c rfl)

/-- A run that another character ends is all of the run that a text starts with. -/
theorem replicate_append_inj {m n : Nat} (hcs : ∀ c ∈ cs.head?, c ≠ '\x60')
    (hds : ∀ c ∈ ds.head?, c ≠ '\x60')
    (h : List.replicate m '\x60' ++ cs = List.replicate n '\x60' ++ ds) : m = n ∧ cs = ds := by
  have htake := congrArg (List.takeWhile (· == '\x60')) h
  have hdrop := congrArg (List.dropWhile (· == '\x60')) h
  rw [takeWhile_replicate_append hcs, takeWhile_replicate_append hds] at htake
  rw [dropWhile_replicate_append hcs, dropWhile_replicate_append hds] at hdrop
  exact ⟨by simpa using congrArg List.length htake, hdrop⟩

/-- Behind a run that another character ends, a text ends either at once or further on. -/
theorem split_cases {a b : List Char} (hc : c ≠ '\x60')
    (ha : ∀ c ∈ a.getLast?, c ≠ '\x60') (hb : ∀ c ∈ b.head?, c ≠ '\x60')
    (h : List.replicate run '\x60' ++ c :: cs = a ++ (List.replicate width '\x60' ++ b)) :
    (a = [] ∧ run = width ∧ c :: cs = b) ∨
      ∃ more, a = List.replicate run '\x60' ++ c :: more ∧
        cs = more ++ (List.replicate width '\x60' ++ b) := by
  have hcs : ∀ d ∈ (c :: cs).head?, d ≠ '\x60' := by simpa using hc
  induction run generalizing a with
  | zero =>
    cases a with
    | nil => exact .inl ⟨rfl, replicate_append_inj hcs hb h⟩
    | cons d more =>
      obtain ⟨rfl, hmore⟩ := List.cons.inj h
      exact .inr ⟨more, rfl, hmore⟩
  | succ run ih =>
    cases a with
    | nil => exact .inl ⟨rfl, replicate_append_inj hcs hb h⟩
    | cons d more =>
      obtain ⟨rfl, hmore⟩ := List.cons.inj h
      have hne : more ≠ [] := by
        rintro rfl
        exact ha '\x60' rfl rfl
      have hlast : ∀ c ∈ more.getLast?, c ≠ '\x60' := by
        obtain ⟨d, ds, rfl⟩ := List.exists_cons_of_ne_nil hne
        exact ha
      rcases ih hlast hmore with ⟨rfl, -⟩ | ⟨rest, rfl, hrest⟩
      · exact absurd rfl hne
      · exact .inr ⟨rest, rfl, hrest⟩

/-- What stands in front of a character that is no backquote does not count for the end. -/
theorem getLast?_replicate_cons (hc : c ≠ '\x60') (n : Nat) (cs : List Char) :
    (∀ b ∈ (List.replicate n '\x60' ++ c :: cs).getLast?, b ≠ '\x60') ↔
      ∀ b ∈ cs.getLast?, b ≠ '\x60' := by
  cases cs with
  | nil => simpa using hc
  | cons b cs => simp

/-- A span ends where a run of its width stands, and no earlier. -/
theorem spanFrom_eq_some_iff {a b : List Char} (hwidth : width ≠ 0) :
    spanFrom width run cs = some (a, b) ↔
      List.replicate run '\x60' ++ cs = a ++ (List.replicate width '\x60' ++ b) ∧
      (∀ c ∈ a.getLast?, c ≠ '\x60') ∧ (∀ c ∈ b.head?, c ≠ '\x60') ∧ width ∉ runs 0 a := by
  induction cs generalizing run a b with
  | nil =>
    have hlast {a : List Char} (h : ∀ c ∈ a, c = '\x60') (ha : ∀ c ∈ a.getLast?, c ≠ '\x60') :
        a = [] := by
      by_contra hne
      exact ha _ (List.getLast?_eq_some_getLast hne) (h _ (List.getLast_mem hne))
    rw [spanFrom]
    constructor
    · intro h
      split at h
      · next hrun =>
        obtain ⟨rfl, rfl⟩ := Prod.mk.inj (Option.some.inj h)
        simp [hrun, runs]
      · cases h
    · rintro ⟨htext, ha, hb, -⟩
      have hall : ∀ c ∈ a ++ (List.replicate width '\x60' ++ b), c = '\x60' := by
        rw [← htext]
        simp
      obtain rfl := hlast (fun c hc => hall c (List.mem_append_left _ hc)) ha
      rw [List.nil_append] at htext
      obtain ⟨hrun, rfl⟩ := replicate_append_inj (by simp) hb htext
      rw [if_pos hrun]
  | cons c cs ih =>
    rw [spanFrom]
    by_cases hc : c = '\x60'
    · subst hc
      rw [if_pos rfl, ih, List.replicate_succ', List.append_assoc, List.singleton_append]
    · rw [if_neg hc]
      by_cases hrun : run = width
      · subst hrun
        rw [if_pos rfl]
        constructor
        · intro h
          obtain ⟨rfl, rfl⟩ := Prod.mk.inj (Option.some.inj h)
          simpa [runs] using hc
        · rintro ⟨htext, ha, hb, hruns⟩
          rcases split_cases hc ha hb htext with ⟨rfl, -, rfl⟩ | ⟨more, rfl, -⟩
          · rfl
          · rw [runs_replicate_cons hc, if_neg hwidth] at hruns
            exact absurd List.mem_cons_self hruns
      · have hruns (more : List Char) :
            width ∉ runs 0 (List.replicate run '\x60' ++ c :: more) ↔ width ∉ runs 0 more := by
          rw [runs_replicate_cons hc]
          split
          · rfl
          · rw [List.mem_cons, not_or, and_iff_right (Ne.symm hrun)]
        rw [if_neg hrun, Option.map_eq_some_iff]
        constructor
        · rintro ⟨⟨more, rest⟩, hspan, heq⟩
          obtain ⟨rfl, rfl⟩ := Prod.mk.inj heq
          obtain ⟨htext, hlast, hhead, hmore⟩ := ih.1 hspan
          rw [List.replicate_zero, List.nil_append] at htext
          refine ⟨?_, (getLast?_replicate_cons hc run more).2 hlast, hhead, (hruns more).2 hmore⟩
          rw [htext, List.append_assoc, List.cons_append]
        · rintro ⟨htext, ha, hb, hmem⟩
          rcases split_cases hc ha hb htext with ⟨-, heq, -⟩ | ⟨more, rfl, hcs⟩
          · exact absurd heq hrun
          · exact ⟨(more, b), ih.2 ⟨by rwa [List.replicate_zero, List.nil_append],
              (getLast?_replicate_cons hc run more).1 ha, hb, (hruns more).1 hmem⟩, rfl⟩

end

/-! ## Code spans -/

/-- How many backquotes stand around the text of a code span. -/
def spanWidth (s : String) : Nat := if '\x60' ∈ s.toList then 2 else 1

/-- What stands between the backquotes of a code span. -/
def spanText (s : String) : List Char :=
  if ['\x60'] <+: s.toList ∨ ['\x60'] <:+ s.toList then ' ' :: s.toList ++ [' '] else s.toList

variable {s : String}

theorem toList_code (s : String) : (code s).toList = List.replicate (spanWidth s) '\x60' ++
    (spanText s ++ List.replicate (spanWidth s) '\x60') := by
  have hwidth : (if s.toList.contains '\x60' then "\x60\x60" else "\x60").toList =
      List.replicate (spanWidth s) '\x60' := by
    unfold spanWidth
    by_cases h : '\x60' ∈ s.toList <;> simp [h]
  have htext : (if Text.startsWith "\x60" s || Text.endsWith "\x60" s then " " else "").toList ++
      (s.toList ++
        (if Text.startsWith "\x60" s || Text.endsWith "\x60" s then " " else "").toList) =
      spanText s := by
    have hsign : "\x60".toList = ['\x60'] := rfl
    unfold spanText Text.startsWith Text.endsWith
    simp only [Bool.or_eq_true, List.isPrefixOf_iff_prefix, List.isSuffixOf_iff_suffix, hsign]
    split <;> simp
  rw [← hwidth, ← htext]
  simp [code]

/-- The text of a span does not start or end with a backquote. -/
theorem head?_spanText (s : String) : ∀ c ∈ (spanText s).head?, c ≠ '\x60' := by
  unfold spanText
  split
  · simp
  · next h =>
    rintro c hc rfl
    obtain ⟨rest, hrest⟩ := List.head?_eq_some_iff.1 hc
    exact h (.inl ⟨rest, hrest.symm⟩)

theorem getLast?_spanText (s : String) : ∀ c ∈ (spanText s).getLast?, c ≠ '\x60' := by
  unfold spanText
  split
  · rw [List.getLast?_concat]
    simp
  · next h =>
    rintro c hc rfl
    obtain ⟨front, hfront⟩ := List.getLast?_eq_some_iff.1 hc
    exact h (.inr ⟨front, hfront.symm⟩)

theorem runs_spanText (s : String) : runs 0 (spanText s) = runs 0 s.toList := by
  unfold spanText
  split
  · rw [List.cons_append, runs, if_neg (by decide), if_pos rfl, runs_append_singleton (by decide)]
  · rfl

theorem spanText_eq_nil_iff : spanText s = [] ↔ s = "" := by
  unfold spanText
  split
  · next h =>
    have hne : s ≠ "" := by
      rintro rfl
      exact absurd h (by decide)
    simpa using hne
  · exact String.toList_eq_nil_iff

/-- No run of a text is as long as those around it unless it is one of two backquotes. -/
theorem spanWidth_mem_runs_iff :
    spanWidth s ∈ runs 0 s.toList ↔ 2 ∈ runs 0 s.toList := by
  unfold spanWidth
  split
  · rfl
  · next h => simp [runs_of_notMem h]

/-- A code span ends with its own last run unless it has no text, or one with a run of two
backquotes. -/
theorem span?_code_eq_some_iff {rest : List Char} (hrest : ∀ c ∈ rest.head?, c ≠ '\x60') :
    span? ((code s).toList ++ rest) = some (spanText s, rest) ↔
      s ≠ "" ∧ 2 ∉ runs 0 s.toList := by
  by_cases hs : s = ""
  · subst hs
    have htext : (code "").toList ++ rest = List.replicate 2 '\x60' ++ rest := by
      rw [toList_code]
      rfl
    rw [htext, span?, takeWhile_replicate_append hrest, dropWhile_replicate_append hrest,
      List.length_replicate, spanFrom_eq_some_iff (by decide)]
    refine iff_of_false (fun h => ?_) fun h => h.1 rfl
    have hlength := congrArg List.length h.1
    rw [List.length_append, List.length_append, List.length_append, List.length_replicate,
      List.length_replicate] at hlength
    omega
  · have hwidth : spanWidth s ≠ 0 := by
      unfold spanWidth
      split <;> decide
    have hhead : ∀ c ∈ (spanText s ++ (List.replicate (spanWidth s) '\x60' ++ rest)).head?,
        c ≠ '\x60' := by
      obtain ⟨c, cs, hcs⟩ := List.exists_cons_of_ne_nil (spanText_eq_nil_iff.not.2 hs)
      have hc := head?_spanText s
      rw [hcs] at hc ⊢
      exact hc
    rw [toList_code, List.append_assoc, List.append_assoc, span?,
      takeWhile_replicate_append hhead, dropWhile_replicate_append hhead, List.length_replicate,
      spanFrom_eq_some_iff hwidth, List.replicate_zero, List.nil_append, runs_spanText,
      spanWidth_mem_runs_iff]
    exact ⟨fun h => ⟨hs, h.2.2.2⟩, fun h => ⟨rfl, getLast?_spanText s, hrest, h.2⟩⟩

/-! ## Code blocks -/

/-- How many backquotes a line starts with, behind its indentation. -/
def openingRun (line : List Char) : Nat :=
  ((line.dropWhile isBlank).takeWhile (· == '\x60')).length

/-- How many backquotes the fences of a code block have. -/
def blockWidth (source : String) : Nat :=
  if Text.occursIn "\x60\x60\x60" source then 4 else 3

/-- The lines of a text, at its line feeds. -/
def feedLines (s : String) : List (List Char) := s.toList.splitOn '\n'

/-- A line closes a block if it starts with a run at least as long as the fence. -/
theorem closes_replicate_iff {width : Nat} (hwidth : 3 ≤ width) {line : List Char}
    (hline : '\n' ∉ line) :
    closes (List.replicate width '\x60') line = true ↔ width ≤ openingRun line := by
  cases hblank : isBlankLine line with
  | true =>
    rw [Docs.closes_of_isBlankLine hblank, openingRun, Docs.dropWhile_of_isBlankLine hblank]
    simp
    omega
  | false =>
    obtain ⟨indent, c, rest, rfl, hindent, hc⟩ := Docs.exists_indent hblank
    rw [closes, openingRun, Docs.dropWhile_indent hindent hc, Docs.fenceLine?_indent hindent hc,
      Docs.fenceAt?]
    by_cases hsign : c = '\x60'
    · subst hsign
      have hends : Docs.endsLine (rest.dropWhile (· == '\x60')) = true :=
        Docs.endsLine_of_notMem fun hmem => hline <| List.mem_append_right _ <|
          List.mem_cons_of_mem _ ((List.dropWhile_suffix _).subset hmem)
      obtain ⟨n, hn⟩ : ∃ n, rest.takeWhile (· == '\x60') = List.replicate n '\x60' :=
        ⟨_, List.eq_replicate_iff.2 ⟨rfl, fun b hb => by simpa using List.mem_takeWhile_imp hb⟩⟩
      have hfront : List.replicate width '\x60' <+: '\x60' :: List.replicate n '\x60' ↔
          width ≤ n + 1 := by
        rw [← List.replicate_succ, List.prefix_replicate_iff]
        simp
      rw [List.takeWhile_cons_of_pos (by rfl), hn]
      simp only [true_or, hends, List.length_replicate, List.length_cons, and_true, true_and]
      split
      · simpa using hfront
      · simp
        omega
    · obtain ⟨m, rfl⟩ : ∃ m, width = m + 1 := ⟨width - 1, by omega⟩
      have hnot : ¬List.replicate (m + 1) '\x60' <+: c :: rest.takeWhile (· == c) := by
        rw [List.replicate_succ, List.cons_prefix_cons]
        exact fun h => hsign h.1.symm
      rw [List.takeWhile_cons_of_neg (by simpa using hsign)]
      split <;> simp [hnot]

theorem openingRun_of_isBlankLine {line : List Char} (h : isBlankLine line = true) :
    openingRun line = 0 := by
  rw [openingRun, Docs.dropWhile_of_isBlankLine h]
  rfl

/-- Blanks at the end of a line do not count for its start. -/
theorem openingRun_dropBack (line : List Char) :
    openingRun (dropBack isBlank line) = openingRun line := by
  have hsign : ∀ c, (c == '\x60') = true → isBlank c = false :=
    fun c hc => Docs.isBlank_of_sign (.inl (eq_of_beq hc))
  cases hblank : isBlankLine line with
  | true =>
    rw [Text.dropBack_eq_nil_iff.2 (Docs.isBlankLine_iff.1 hblank),
      openingRun_of_isBlankLine hblank]
    rfl
  | false =>
    obtain ⟨indent, c, rest, rfl, hindent, hc⟩ := Docs.exists_indent hblank
    rw [Docs.dropBack_indent hc, openingRun, openingRun, Docs.dropWhile_indent hindent hc,
      Docs.dropWhile_indent hindent hc, ← Text.dropBack_cons_of_neg hc,
      Text.takeWhile_dropBack hsign]

/-- Lines that are cut off the end of a text are blank. -/
theorem openingRun_trimBack {n : Nat} (hn : 0 < n) (ls : List (List Char)) :
    (∀ l ∈ trimBack ls, openingRun l < n) ↔ ∀ l ∈ ls, openingRun l < n := by
  fun_induction trimBack ls with
  | case1 => rfl
  | case2 l ls hnil hblank ih =>
    rw [hnil] at ih
    rw [List.forall_mem_cons, ← ih, openingRun_of_isBlankLine hblank]
    simp [hn]
  | case3 l ls hnil hblank ih =>
    rw [hnil] at ih
    rw [List.forall_mem_singleton, List.forall_mem_cons, ← ih, openingRun_dropBack]
    simp
  | case4 l ls k ks hcons ih =>
    rw [List.forall_mem_cons, ← hcons, ih, List.forall_mem_cons]

theorem exists_of_mem_trimBack {ls : List (List Char)} {l : List Char} (h : l ∈ trimBack ls) :
    ∃ k ∈ ls, l <+: k := by
  fun_induction trimBack ls with
  | case1 => cases h
  | case2 => cases h
  | case3 k ls hnil hblank ih =>
    obtain rfl := List.mem_singleton.1 h
    exact ⟨k, List.mem_cons_self, List.rdropWhile_prefix _ k⟩
  | case4 k ls m ms hcons ih =>
    rcases List.mem_cons.1 h with rfl | h
    · exact ⟨l, List.mem_cons_self, List.prefix_rfl⟩
    · obtain ⟨j, hj, hl⟩ := ih (hcons ▸ h)
      exact ⟨j, List.mem_cons_of_mem k hj, hl⟩

/-- The lines of a text without the blanks at its end; a blank text has one line. -/
theorem feedLines_trimEnd (s : String) : feedLines (Text.trimEnd s) =
    if trimBack (feedLines s) = [] then [[]] else trimBack (feedLines s) := by
  have hlines : (Text.trimEnd s).toList = Docs.joinLines (trimBack (feedLines s)) := by
    rw [← Docs.dropBack_joinLines, Docs.joinLines, feedLines, List.intercalate_splitOn,
      Text.trimEnd, String.toList_ofList]
  rw [feedLines, hlines]
  split
  · next hnil =>
    rw [hnil]
    rfl
  · next hne =>
    refine List.splitOn_intercalate '\n' (fun l hl => ?_) hne
    obtain ⟨k, hk, hkept⟩ := exists_of_mem_trimBack hl
    exact fun hmem => Text.notMem_of_mem_splitOn hk (hkept.subset hmem)

theorem openingRun_trimEnd {n : Nat} (hn : 0 < n) (s : String) :
    (∀ l ∈ feedLines (Text.trimEnd s), openingRun l < n) ↔
      ∀ l ∈ feedLines s, openingRun l < n := by
  rw [← openingRun_trimBack hn (feedLines s), feedLines_trimEnd]
  split
  · next hnil => simp [hnil, hn, openingRun]
  · rfl

def blockFence (source : String) : List Char := List.replicate (blockWidth source) '\x60'

/-- The lines of a code block: its fence with the label, the lines of the code, and the fence. -/
theorem feedLines_codeBlock {lang : String} (hlang : '\n' ∉ lang.toList) (source : String) :
    feedLines (codeBlock lang source) = (blockFence source ++ lang.toList) ::
      (feedLines (Text.trimEnd source) ++ [blockFence source]) := by
  have hfence : (if Text.occursIn "\x60\x60\x60" source then "\x60\x60\x60\x60"
      else "\x60\x60\x60").toList = blockFence source := by
    unfold blockFence blockWidth
    split <;> rfl
  have hnot : '\n' ∉ blockFence source := by simp [blockFence]
  have hopen : '\n' ∉ blockFence source ++ lang.toList := by simp [hnot, hlang]
  have hblock : (codeBlock lang source).toList = (blockFence source ++ lang.toList) ++
      '\n' :: ((Text.trimEnd source).toList ++ '\n' :: blockFence source) := by
    rw [← hfence]
    simp [codeBlock]
  rw [feedLines, hblock, List.splitOn_append_cons_self_of_not_mem hopen,
    List.splitOn_append_cons_self, List.splitOn_eq_singleton hnot, feedLines]

theorem infix_joinLines {l : List Char} {ls : List (List Char)} (h : l ∈ ls) :
    l <:+: Docs.joinLines ls := by
  induction ls with
  | nil => cases h
  | cons k ls ih =>
    cases ls with
    | nil =>
      obtain rfl := List.mem_singleton.1 h
      exact (Docs.joinLines_singleton _).symm ▸ List.infix_rfl
    | cons m ms =>
      rw [Docs.joinLines_cons_cons]
      rcases List.mem_cons.1 h with rfl | h
      · exact (List.prefix_append _ _).isInfix
      · exact (ih h).trans ((List.suffix_cons '\n' _).trans (List.suffix_append k _)).isInfix

/-- A fence is wider than what each line starts with unless a line starts with four backquotes. -/
theorem openingRun_lt_blockWidth_iff (source : String) :
    (∀ l ∈ feedLines source, openingRun l < blockWidth source) ↔
      ∀ l ∈ feedLines source, openingRun l < 4 := by
  unfold blockWidth
  split
  · rfl
  · next hnone =>
    have hshort : ∀ l ∈ feedLines source, openingRun l < 3 := by
      intro l hl
      by_contra hlong
      have hrun : List.replicate 3 '\x60' <+: (l.dropWhile isBlank).takeWhile (· == '\x60') := by
        obtain ⟨n, hn⟩ : ∃ n, (l.dropWhile isBlank).takeWhile (· == '\x60') =
            List.replicate n '\x60' :=
          ⟨_, List.eq_replicate_iff.2 ⟨rfl, fun b hb => by simpa using List.mem_takeWhile_imp hb⟩⟩
        rw [openingRun, hn, List.length_replicate, not_lt] at hlong
        rw [hn, List.prefix_replicate_iff]
        simpa using hlong
      have hline : List.replicate 3 '\x60' <:+: l :=
        (hrun.trans (List.takeWhile_prefix _)).isInfix.trans (List.dropWhile_suffix _).isInfix
      have hsource : l <:+: source.toList := by
        have hjoin := infix_joinLines hl
        rwa [Docs.joinLines, feedLines, List.intercalate_splitOn] at hjoin
      exact hnone (Text.occursIn_iff.2 (hline.trans hsource))
    refine iff_of_true hshort fun l hl => ?_
    exact (hshort l hl).trans (by decide)

theorem three_le_blockWidth (source : String) : 3 ≤ blockWidth source := by
  unfold blockWidth
  split <;> decide

theorem fenceLine?_blockFence {info : List Char} (hinfo : ∀ c ∈ info, c ≠ '\n' ∧ c ≠ '\x60')
    (source : String) :
    fenceLine? (blockFence source ++ info) = some ⟨[], blockFence source, info⟩ := by
  have hwidth := three_le_blockWidth source
  obtain ⟨m, hm⟩ : ∃ m, blockWidth source = m + 1 := ⟨blockWidth source - 1, by omega⟩
  have hhead : ∀ c ∈ info.head?, c ≠ '\x60' := fun c hc => (hinfo c (List.mem_of_mem_head? hc)).2
  have hends : Docs.endsLine info = true :=
    Docs.endsLine_of_notMem fun hmem => (hinfo _ hmem).1 rfl
  have hblank : isBlankLine [] = true := rfl
  have hat : fenceLine? ([] ++ '\x60' :: (List.replicate m '\x60' ++ info)) =
      Docs.fenceAt? [] '\x60' (List.replicate m '\x60' ++ info) :=
    Docs.fenceLine?_indent hblank (Docs.isBlank_of_sign (.inl rfl))
  rw [Docs.fenceAt?, takeWhile_replicate_append hhead, dropWhile_replicate_append hhead,
    List.length_replicate, if_pos ⟨.inl rfl, by omega, hends⟩] at hat
  rw [blockFence, hm, List.replicate_succ]
  exact hat

/-- Only lines that do not close a block are its code. -/
theorem closes_of_mem_code {f : Docs.FenceLine} {code ls : List (List Char)} {b : Docs.Block}
    {ps : List Docs.Part} (h : scanFrom (some (f, code)) ls = .fenced b :: ps) :
    ∀ l ∈ b.code, l ∈ code ∨ closes f.marker l = false := by
  induction ls generalizing code with
  | nil =>
    obtain ⟨hb, -⟩ := List.cons.inj h
    obtain rfl := Docs.Part.fenced.inj hb
    exact fun l hl => .inl hl
  | cons k ls ih =>
    rw [scanFrom] at h
    split at h
    · obtain ⟨hb, -⟩ := List.cons.inj h
      obtain rfl := Docs.Part.fenced.inj hb
      exact fun l hl => .inl hl
    · next hopen =>
      intro l hl
      rcases ih h l hl with hcode | hcloses
      · rcases List.mem_append.1 hcode with hcode | hk
        · exact .inl hcode
        · exact .inr (List.mem_singleton.1 hk ▸ by simpa using hopen)
      · exact .inr hcloses

/-- The block that a code block is read as, if none of its lines closes it. -/
def wholeBlock (lang source : String) : Docs.Block where
  fence := ⟨[], blockFence source, lang.toList⟩
  code := feedLines (Text.trimEnd source)
  closing := some (blockFence source)

/-- A code block is read as one block unless a line of its code starts with a run at least as long
as its fence. -/
theorem scan_codeBlock_eq_iff {lang source : String}
    (hlang : ∀ c ∈ lang.toList, c ≠ '\n' ∧ c ≠ '\x60') :
    scan (feedLines (codeBlock lang source)) = [.fenced (wholeBlock lang source)] ↔
      ∀ l ∈ feedLines source, openingRun l < blockWidth source := by
  have hwidth := three_le_blockWidth source
  have hcode : ∀ l ∈ feedLines (Text.trimEnd source),
      closes (blockFence source) l = false ↔ openingRun l < blockWidth source := by
    intro l hl
    rw [← not_le, ← closes_replicate_iff hwidth (Text.notMem_of_mem_splitOn hl), Bool.not_eq_true,
      blockFence]
  have hfeed : '\n' ∉ lang.toList := fun hmem => (hlang _ hmem).1 rfl
  have hclosing : closes (blockFence source) (blockFence source) = true := by
    have hfence := @fenceLine?_blockFence [] (by simp) source
    rw [List.append_nil] at hfence
    simp [closes, hfence]
  rw [← openingRun_trimEnd (by omega) source, feedLines_codeBlock hfeed, scan, scanFrom,
    fenceLine?_blockFence hlang, wholeBlock]
  constructor
  · intro h l hl
    have hkept := closes_of_mem_code h
    simp only [List.not_mem_nil, false_or] at hkept
    exact (hcode l hl).1 (hkept l hl)
  · intro h
    have hopen : ∀ l ∈ feedLines (Text.trimEnd source), closes (blockFence source) l = false :=
      fun l hl => (hcode l hl).2 (h l hl)
    dsimp only
    rw [Docs.scanFrom_code hopen, scanFrom, if_pos hclosing, List.nil_append, scanFrom]

/-! ## Both of them -/

/-- A code span ends with its own last run, which is as long as no run of its text, exactly if the
text has no run of two backquotes and is not empty. A code block ends with its own last line, whose
fence is longer than what any line of the code starts with, exactly if no line starts with four
backquotes. -/
theorem ends_code_iff {rest : List Char} (hrest : ∀ c ∈ rest.head?, c ≠ '\x60') {lang : String}
    (hlang : ∀ c ∈ lang.toList, c ≠ '\n' ∧ c ≠ '\x60') :
    (∀ s, (code s).toList = List.replicate (spanWidth s) '\x60' ++
        (spanText s ++ List.replicate (spanWidth s) '\x60') ∧
      (∀ c ∈ (spanText s).head?, c ≠ '\x60') ∧ (∀ c ∈ (spanText s).getLast?, c ≠ '\x60') ∧
      (spanWidth s ∉ runs 0 s.toList ↔ 2 ∉ runs 0 s.toList) ∧
      (span? ((code s).toList ++ rest) = some (spanText s, rest) ↔
        s ≠ "" ∧ 2 ∉ runs 0 s.toList)) ∧
    ∀ source, feedLines (codeBlock lang source) = (blockFence source ++ lang.toList) ::
        (feedLines (Text.trimEnd source) ++ [blockFence source]) ∧
      ((∀ l ∈ feedLines source, openingRun l < (blockFence source).length) ↔
        ∀ l ∈ feedLines source, openingRun l < 4) ∧
      (scan (feedLines (codeBlock lang source)) = [.fenced (wholeBlock lang source)] ↔
        ∀ l ∈ feedLines source, openingRun l < 4) := by
  refine ⟨fun s => ⟨toList_code s, head?_spanText s, getLast?_spanText s,
    not_congr spanWidth_mem_runs_iff, span?_code_eq_some_iff hrest⟩, fun source => ?_⟩
  have hwide := openingRun_lt_blockWidth_iff source
  refine ⟨feedLines_codeBlock (fun hmem => (hlang _ hmem).1 rfl) source, ?_,
    (scan_codeBlock_eq_iff hlang).trans hwide⟩
  rwa [blockFence, List.length_replicate]

/-- Spans in front of a comma, and blocks of Rust code. -/
theorem ends_code_iff_rust :
    (∀ c ∈ [',', '\x60'].head?, c ≠ '\x60') ∧
    (∀ c ∈ "rust".toList, c ≠ '\n' ∧ c ≠ '\x60') ∧
    (span? ((code "a\x60b").toList ++ [',', '\x60']) = some ("a\x60b".toList, [',', '\x60'])) ∧
    (scan (feedLines (codeBlock "rust" "  \x60\x60\x60\nx\n")) =
      [.fenced (wholeBlock "rust" "  \x60\x60\x60\nx\n")]) := by
  have hrest : ∀ c ∈ [',', '\x60'].head?, c ≠ '\x60' := by simp
  have hlang : ∀ c ∈ "rust".toList, c ≠ '\n' ∧ c ≠ '\x60' := by simp
  have hends := ends_code_iff hrest hlang
  exact ⟨hrest, hlang, (hends.1 "a\x60b").2.2.2.2.2 (by decide +kernel),
    (hends.2 _).2.2.2 (by decide +kernel)⟩

/-- A run of two backquotes ends the span around it, and a line of four the block around it. -/
theorem not_ends_code_double :
    code "a\x60\x60b" = "\x60\x60a\x60\x60b\x60\x60" ∧
    span? (code "a\x60\x60b").toList = some (['a'], ['b', '\x60', '\x60']) ∧
    spanWidth "a\x60\x60b" ∈ runs 0 "a\x60\x60b".toList ∧
    codeBlock "" "\x60\x60\x60\x60" =
      "\x60\x60\x60\x60\n\x60\x60\x60\x60\n\x60\x60\x60\x60" ∧
    openingRun "\x60\x60\x60\x60".toList = blockWidth "\x60\x60\x60\x60" := by
  refine ⟨?_, ?_, ?_, ?_, ?_⟩ <;> decide +kernel

end CrateBook.Markdown
