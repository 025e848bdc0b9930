import CrateBook.Markdown
import CrateBook.Proofs.Trimming
import Mathlib.Algebra.Order.Ring.Nat

/-!
# Bars of a table

A bar ends a cell unless a backslash in front of it takes it for text, and a backslash does so
only if no other one takes it in turn: what counts is whether the run of backslashes in front of
the bar is even. A cell is escaped by a look at one character. That is enough for a bar without
backslashes and for one with an odd run of them; a bar behind an even run is left as it is, and
ends the cell.
-/
namespace CrateBook.Markdown

/-! ## Bars and the backslashes in front of them -/

/-- How many backslashes stand in front of what follows a character, if `run` of them stand in
front of it. -/
def runAfter (run : Nat) (c : Char) : Nat := if c = '\\' then run + 1 else 0

/-- The bars of a text for which the number of backslashes right in front passes a test; `run`
backslashes stand in front of the text. -/
def countBars (test : Nat → Bool) (run : Nat) : List Char → Nat
  | [] => 0
  | c :: cs => (if c = '|' ∧ test run then 1 else 0) + countBars test (runAfter run c) cs

/-- The bars that end a cell: those behind an even number of backslashes. -/
def separators (cs : List Char) : Nat := countBars (fun run => run % 2 == 0) 0 cs

/-- The bars of a text that stand behind backslashes, an even number of them. -/
def strayBars (s : String) : Nat :=
  countBars (fun run => run != 0 && run % 2 == 0) 0 s.toList

section

variable {test : Nat → Bool} {run : Nat} {c : Char} {cs ds : List Char}

theorem runAfter_of_ne (h : c ≠ '\\') (run : Nat) : runAfter run c = 0 := if_neg h

theorem runAfter_self (run : Nat) : runAfter run '\\' = run + 1 := if_pos rfl

theorem countBars_of_notMem (h : '|' ∉ cs) : countBars test run cs = 0 := by
  induction cs generalizing run with
  | nil => rfl
  | cons c cs ih =>
    obtain ⟨hc, hcs⟩ := not_or.1 (List.mem_cons.not.1 h)
    rw [countBars, if_neg fun hbar => hc hbar.1.symm, ih hcs]

/-- Another character tells the bars in front of it from those behind it. -/
theorem countBars_append_cons (hslash : c ≠ '\\') (hbar : c ≠ '|') (cs ds : List Char) :
    countBars test run (cs ++ c :: ds) = countBars test run cs + countBars test 0 ds := by
  induction cs generalizing run with
  | nil => simp [countBars, hbar, runAfter_of_ne hslash]
  | cons b cs ih => simp only [List.cons_append, countBars, ih, Nat.add_assoc]

theorem ne_of_isBlank (h : Text.isBlank c = true) : c ≠ '\\' ∧ c ≠ '|' :=
  ⟨fun hc => absurd (hc ▸ h) (by decide), fun hc => absurd (hc ▸ h) (by decide)⟩

/-- Blanks behind a text hold no bars. -/
theorem countBars_append_blanks (h : ∀ c ∈ ds, Text.isBlank c = true) :
    countBars test run (cs ++ ds) = countBars test run cs := by
  cases ds with
  | nil => rw [List.append_nil]
  | cons d ds =>
    obtain ⟨hd, hds⟩ := List.forall_mem_cons.1 h
    have hmem : '|' ∉ ds := fun hmem => (ne_of_isBlank (hds _ hmem)).2 rfl
    rw [countBars_append_cons (ne_of_isBlank hd).1 (ne_of_isBlank hd).2,
      countBars_of_notMem hmem, Nat.add_zero]

theorem countBars_dropBack (cs : List Char) :
    countBars test run (Text.dropBack Text.isBlank cs) = countBars test run cs := by
  have hback := Text.dropBack_append_back (p := Text.isBlank) cs
  have hblank : ∀ c ∈ (cs.reverse.takeWhile Text.isBlank).reverse, Text.isBlank c = true :=
    fun c hc => List.mem_takeWhile_imp (List.mem_reverse.1 hc)
  calc countBars test run (Text.dropBack Text.isBlank cs)
    _ = countBars test run
        (Text.dropBack Text.isBlank cs ++ (cs.reverse.takeWhile Text.isBlank).reverse) :=
      (countBars_append_blanks hblank).symm
    _ = countBars test run cs := by rw [hback]

/-- Trimming takes no bars, and no backslashes from in front of one. -/
theorem countBars_dropAround (cs : List Char) :
    countBars test 0 (Text.dropAround Text.isBlank cs) = countBars test 0 cs := by
  rw [Text.dropAround, countBars_dropBack]
  induction cs with
  | nil => rfl
  | cons c cs ih =>
    cases hc : Text.isBlank c with
    | true =>
      obtain ⟨hslash, hbar⟩ := ne_of_isBlank hc
      rw [List.dropWhile_cons_of_pos hc, ih]
      simp [countBars, hbar, runAfter_of_ne hslash]
    | false => rw [List.dropWhile_cons_of_neg (by simp [hc])]

/-- A line feed counts like the space that is put for it. -/
theorem countBars_flatten (cs : List Char) :
    countBars test run (cs.map fun c => if c = '\n' then ' ' else c) = countBars test run cs := by
  induction cs generalizing run with
  | nil => rfl
  | cons c cs ih =>
    rw [List.map_cons, countBars, countBars, ih]
    split
    · next hfeed => simp [hfeed, runAfter]
    · rfl

/-- A bar that is escaped has one backslash in front, any other one has as many as before. -/
theorem countBars_escapeBars {before : Option Char} (h : before = some '\\' ↔ run ≠ 0) :
    countBars (fun run => run % 2 == 0) run (escapeBars before cs) =
      countBars (fun run => run != 0 && run % 2 == 0) run cs := by
  induction cs generalizing before run with
  | nil => rfl
  | cons c cs ih =>
    have hnext : some c = some '\\' ↔ runAfter run c ≠ 0 := by
      simp [runAfter]
    rw [escapeBars]
    split
    · next hbar =>
      obtain ⟨rfl, hbefore⟩ := hbar
      obtain rfl : run = 0 := not_ne_iff.1 (h.not.1 hbefore)
      simpa [countBars, runAfter] using ih hnext
    · next hbar =>
      rw [countBars, countBars, ih hnext]
      by_cases hc : c = '|'
      · have hrun : run ≠ 0 := h.1 (not_not.1 fun hbefore => hbar ⟨hc, hbefore⟩)
        simp [hrun]
      · simp [hc]

end

/-! ## Cells -/

theorem toList_cell (s : String) : (cell s).toList = Text.dropAround Text.isBlank
    (escapeBars none (s.toList.map fun c => if c = '\n' then ' ' else c)) := by
  simp [cell, Text.trim, Text.trimBy, Text.replaceChar]

/-- The bars of a text that end the cell it is written to. -/
theorem separators_cell (s : String) : separators (cell s).toList = strayBars s := by
  rw [separators, toList_cell, countBars_dropAround, countBars_escapeBars (by simp),
    countBars_flatten, strayBars]

theorem mem_escapeBars {c : Char} (hslash : c ≠ '\\') {before : Option Char} {cs : List Char}
    (h : c ∈ escapeBars before cs) : c ∈ cs := by
  fun_induction escapeBars before cs with
  | case1 => exact h
  | case2 before b rest hbar ih =>
    rcases List.mem_cons.1 h with hc | h
    · exact absurd hc hslash
    · exact List.mem_cons.2 ((List.mem_cons.1 h).imp_right ih)
  | case3 before b rest hbar ih => exact List.mem_cons.2 ((List.mem_cons.1 h).imp_right ih)

/-- A cell is on one line. -/
theorem notMem_cell (s : String) : '\n' ∉ (cell s).toList := by
  intro h
  rw [toList_cell, Text.dropAround] at h
  have hfront := (List.rdropWhile_prefix _ _).subset h
  have hmem := mem_escapeBars (by decide) ((List.dropWhile_suffix _).subset hfront)
  obtain ⟨c, -, hc⟩ := List.mem_map.1 hmem
  split at hc
  · exact absurd hc (by decide)
  · next hfeed => exact hfeed hc

/-- Escaped text has a backslash in front of each bar, and gets no further one. -/
theorem cell_escape (t : String) :
    cell (escape t) = Text.trim (Text.replaceChar '\n' ' ' (escape t)) := by
  have hsame (before : Option Char) (cs : List Char) :
      escapeBars before ((cs.flatMap fun c => if isMarkup c then ['\\', c] else [c]).map
        fun c => if c = '\n' then ' ' else c) =
      (cs.flatMap fun c => if isMarkup c then ['\\', c] else [c]).map
        fun c => if c = '\n' then ' ' else c := by
    induction cs generalizing before with
    | nil => rfl
    | cons c cs ih =>
      rw [List.flatMap_cons, List.map_append]
      cases hc : isMarkup c with
      | true =>
        have hfeed : c ≠ '\n' := fun hfeed => absurd (hfeed ▸ hc) (by decide)
        simp [escapeBars, hfeed, ih]
      | false =>
        have hbar : (if c = '\n' then ' ' else c) ≠ '|' := by
          split
          · decide
          · exact fun hbar => absurd (hbar ▸ hc) (by decide)
        simp [escapeBars, hbar, ih]
  rw [cell, Text.replaceChar, String.toList_ofList, escape, String.toList_ofList, hsame]

theorem strayBars_escape (t : String) : strayBars (escape t) = 0 := by
  -- an escaped character leaves an even run, which is zero unless the character is a backslash
  have hrun (run : Nat) (heven : run % 2 = 0) (cs : List Char) :
      countBars (fun run => run != 0 && run % 2 == 0) run
        (cs.flatMap fun c => if isMarkup c then ['\\', c] else [c]) = 0 := by
    induction cs generalizing run with
    | nil => rfl
    | cons c cs ih =>
      rw [List.flatMap_cons]
      cases hc : isMarkup c with
      | true =>
        have hodd : (run + 1) % 2 ≠ 0 := by omega
        have hnext : runAfter (run + 1) c % 2 = 0 := by
          unfold runAfter
          split <;> omega
        simp [countBars, runAfter_self, hodd, ih _ hnext]
      | false =>
        have hbar : c ≠ '|' := fun hbar => absurd (hbar ▸ hc) (by decide)
        have hslash : c ≠ '\\' := fun hslash => absurd (hslash ▸ hc) (by decide)
        simp [countBars, hbar, runAfter_of_ne hslash, ih 0 rfl]
  rw [strayBars, escape, String.toList_ofList, hrun 0 rfl]

/-! ## Rows and tables -/

/-- A cell of a row, up to the bar that ends it. -/
def boxed (c : String) : List Char := ' ' :: c.toList ++ [' ', '|']

theorem toList_row {cells : List String} (h : cells ≠ []) :
    (row cells).toList = '|' :: cells.flatMap boxed := by
  have hjoin (c : String) (cs : List String) :
      ' ' :: ([' ', '|', ' '].intercalate ((c :: cs).map String.toList) ++ [' ', '|']) =
        (c :: cs).flatMap boxed := by
    induction cs generalizing c with
    | nil => simp [boxed]
    | cons d ds ih =>
      rw [List.flatMap_cons, ← ih d, List.map_cons, List.map_cons, List.intercalate_cons_cons]
      simp [boxed]
  cases cells with
  | nil => exact absurd rfl h
  | cons c cs => simp [← hjoin, row, String.toList_intercalate]

theorem separators_boxed_append (c : String) (cs : List Char) :
    separators (boxed c ++ cs) = separators c.toList + 1 + separators cs := by
  have hsplit : boxed c ++ cs = [] ++ ' ' :: (c.toList ++ ' ' :: '|' :: cs) := by simp [boxed]
  rw [hsplit, separators, countBars_append_cons (by decide) (by decide),
    countBars_append_cons (by decide) (by decide)]
  simp [countBars, separators, runAfter, Nat.add_assoc]

/-- A row has a bar in front, one behind, and one between each two cells. -/
theorem separators_row (cells : List String) : separators (row cells).toList =
    max cells.length 1 + 1 + (cells.map fun c => separators c.toList).sum := by
  have hboxes (cs : List String) : separators (cs.flatMap boxed) =
      cs.length + (cs.map fun c => separators c.toList).sum := by
    induction cs with
    | nil => rfl
    | cons c cs ih =>
      rw [List.flatMap_cons, separators_boxed_append, ih, List.map_cons, List.sum_cons,
        List.length_cons]
      omega
  by_cases h : cells = []
  · subst h
    decide
  · have hfront : separators ('|' :: cells.flatMap boxed) =
        1 + separators (cells.flatMap boxed) := by
      simp [countBars, separators, runAfter]
    have hlength := List.length_pos_iff.2 h
    rw [toList_row h, hfront, hboxes]
    omega

theorem notMem_row {cells : List String} (h : ∀ c ∈ cells, '\n' ∉ c.toList) :
    '\n' ∉ (row cells).toList := by
  by_cases hcells : cells = []
  · subst hcells
    decide
  · simpa [toList_row hcells, boxed] using h

/-- The lines of a table, with the bars that end its cells. -/
structure TableLines (headers : List String) (rows : List (List String))
    (lines : List (List Char)) : Prop where
  /-- Under the header and the rule, there is one line a row. -/
  length_eq : lines.length = rows.length + 2
  /-- The header and the rule have one bar more than there are columns. -/
  head : ∀ l ∈ lines.take 2, separators l = max headers.length 1 + 1
  /-- The line of a row has these bars, and the stray ones of its cells. -/
  body : (lines.drop 2).map separators =
    rows.map fun r => max headers.length 1 + 1 + (r.map strayBars).sum

theorem splitOn_table {headers : List String} {rows : List (List String)}
    (hheaders : ∀ h ∈ headers, '\n' ∉ h.toList) (hrows : rows ≠ []) :
    (table headers rows).toList.splitOn '\n' = (row headers).toList ::
      (row (headers.map fun _ => "---")).toList :: rows.map fun r => (row (r.map cell)).toList := by
  have hjoin : (table headers rows).toList = ['\n'].intercalate ((row headers).toList ::
      (row (headers.map fun _ => "---")).toList ::
        rows.map fun r => (row (r.map cell)).toList) := by
    rw [table, if_neg (by simpa using hrows), Text.joinLines, String.toList_intercalate,
      List.map_cons, List.map_cons, List.map_map]
    rfl
  have hrule : ∀ h ∈ headers.map fun _ => "---", '\n' ∉ h.toList := by simp
  have hbody (r : List String) : ∀ c ∈ r.map cell, '\n' ∉ c.toList :=
    List.forall_mem_map.2 fun c _ => notMem_cell c
  rw [hjoin]
  refine List.splitOn_intercalate '\n' ?_ (List.cons_ne_nil _ _)
  exact List.forall_mem_cons.2 ⟨notMem_row hheaders, List.forall_mem_cons.2 ⟨notMem_row hrule,
    List.forall_mem_map.2 fun r _ => notMem_row (hbody r)⟩⟩

/-- Bars in neither the header nor the rule are in a cell. -/
theorem separators_row_of_notMem (cells : List String) (h : ∀ c ∈ cells, '|' ∉ c.toList) :
    separators (row cells).toList = max cells.length 1 + 1 := by
  have hzero : cells.map (fun c => separators c.toList) = cells.map fun _ => 0 :=
    List.map_congr_left fun c hc => countBars_of_notMem (h c hc)
  rw [separators_row, hzero]
  simp

theorem separators_row_cells (r : List String) : separators (row (r.map cell)).toList =
    max r.length 1 + 1 + (r.map strayBars).sum := by
  simp [separators_row, separators_cell, Function.comp_def]

/-- A table has a line for its header, for the rule, and for each row. There is one bar more on
each line than there are columns only if no bar in a cell stands behind an even number of
backslashes that is not zero. Text that is escaped is not escaped again. -/
theorem separators_table_iff {headers : List String} {rows : List (List String)}
    (hheaders : ∀ h ∈ headers, '|' ∉ h.toList ∧ '\n' ∉ h.toList) (hrows : rows ≠ [])
    (hcells : ∀ r ∈ rows, r.length = headers.length) :
    TableLines headers rows ((table headers rows).toList.splitOn '\n') ∧
    ((∀ l ∈ (table headers rows).toList.splitOn '\n', separators l = headers.length + 1) ↔
      headers ≠ [] ∧ ∀ r ∈ rows, ∀ c ∈ r, strayBars c = 0) ∧
    ∀ t, strayBars (escape t) = 0 ∧
      cell (escape t) = Text.trim (Text.replaceChar '\n' ' ' (escape t)) := by
  have hlines := splitOn_table (fun h hh => (hheaders h hh).2) hrows
  have hhead := separators_row_of_notMem headers fun h hh => (hheaders h hh).1
  have hrule := separators_row_of_notMem (headers.map fun _ => "---") (by simp)
  rw [List.length_map] at hrule
  have hbody (r : List String) (hr : r ∈ rows) : separators (row (r.map cell)).toList =
      max headers.length 1 + 1 + (r.map strayBars).sum := by
    rw [separators_row_cells, hcells r hr]
  have hplain (r : List String) (hr : r ∈ rows) :
      separators (row (r.map cell)).toList = max headers.length 1 + 1 ↔
        ∀ c ∈ r, strayBars c = 0 := by
    rw [hbody r hr, Nat.add_eq_left, List.sum_eq_zero_iff_forall_eq_nat, List.forall_mem_map]
  refine ⟨⟨?_, ?_, ?_⟩, ?_, fun t => ⟨strayBars_escape t, cell_escape t⟩⟩
  · simp [hlines]
  · rw [hlines]
    exact List.forall_mem_cons.2 ⟨hhead, List.forall_mem_singleton.2 hrule⟩
  · rw [hlines, List.drop_succ_cons, List.drop_succ_cons, List.drop_zero, List.map_map]
    exact List.map_congr_left hbody
  · rw [hlines, List.forall_mem_cons, List.forall_mem_cons, List.forall_mem_map, hhead, hrule]
    by_cases hnil : headers = []
    · simp [hnil]
    · have hcolumns : max headers.length 1 = headers.length := by
        have hlength := List.length_pos_iff.2 hnil
        omega
      rw [hcolumns] at hplain ⊢
      simpa [hnil] using forall₂_congr hplain

/-- A table of two columns, with bars behind one backslash and behind two. -/
theorem separators_table_iff_nameType :
    let headers := ["Name", "Type"]
    let rows := [["x", "a\\|b"], ["y\\\\|z", "one\ntwo"]]
    (∀ h ∈ headers, '|' ∉ h.toList ∧ '\n' ∉ h.toList) ∧ rows ≠ [] ∧
    (∀ r ∈ rows, r.length = headers.length) ∧
    (TableLines headers rows ((table headers rows).toList.splitOn '\n') ∧
      ((∀ l ∈ (table headers rows).toList.splitOn '\n', separators l = headers.length + 1) ↔
        headers ≠ [] ∧ ∀ r ∈ rows, ∀ c ∈ r, strayBars c = 0) ∧
      ∀ t, strayBars (escape t) = 0 ∧
        cell (escape t) = Text.trim (Text.replaceChar '\n' ' ' (escape t))) := by
  have hheaders : ∀ h ∈ ["Name", "Type"], '|' ∉ h.toList ∧ '\n' ∉ h.toList := by decide
  have hcells : ∀ r ∈ [["x", "a\\|b"], ["y\\\\|z", "one\ntwo"]], r.length = 2 := by decide
  exact ⟨hheaders, List.cons_ne_nil _ _, hcells,
    separators_table_iff hheaders (List.cons_ne_nil _ _) hcells⟩

/-- A bar behind two backslashes stays as it is, and ends its cell. -/
theorem not_separators_table_slashes :
    table ["H"] [["a\\\\|b"]] = "| H |\n| --- |\n| a\\\\|b |" ∧
    ((table ["H"] [["a\\\\|b"]]).toList.splitOn '\n').map separators = [2, 2, 3] := by
  have htable : table ["H"] [["a\\\\|b"]] = "| H |\n| --- |\n| a\\\\|b |" := by rfl
  refine ⟨htable, ?_⟩
  rw [htable]
  decide

end CrateBook.Markdown
