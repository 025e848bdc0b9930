import CrateBook.Proofs.Trimming

/-!
# The parts of docs

Docs are read as lines outside fences and fenced blocks, and no line belongs to two parts. As long
as no line outside fences starts a block of HTML, sanitizing works on the parts one by one: lines
outside fences stay, a block of Rust code is labelled and loses what is hidden in it, any other
block stays. What is written is read as the parts so changed, since nothing that is written into
a block opens or closes one.
-/
namespace CrateBook.Docs

open Text (isBlank dropAround dropBack)

/-! ## Fences -/

namespace FenceLine

def line (f : FenceLine) : List Char := f.indent ++ f.marker ++ f.info

/-- What stands behind the marker, without blanks at the end. -/
def label (f : FenceLine) : List Char := dropBack isBlank f.info

end FenceLine

/-- The fence that a sign starts behind an indentation. -/
def fenceAt? (indent : List Char) (c : Char) (rest : List Char) : Option FenceLine :=
  if (c = '\x60' ∨ c = '~') ∧ 2 ≤ (rest.takeWhile (· == c)).length ∧
      endsLine (rest.dropWhile (· == c)) then
    some ⟨indent, c :: rest.takeWhile (· == c), rest.dropWhile (· == c)⟩
  else none

variable {f : FenceLine} {line indent rest marker : List Char} {c : Char}

theorem isBlank_of_sign (h : c = '\x60' ∨ c = '~') : isBlank c = false := by
  rcases h with rfl | rfl <;> decide

theorem fenceLine?_of_isBlankLine (h : isBlankLine line = true) : fenceLine? line = none := by
  rw [fenceLine?, dropWhile_of_isBlankLine h]

/-- A line that is not blank has a first character behind its indentation. -/
theorem exists_indent (h : isBlankLine line = false) : ∃ indent c rest,
    line = indent ++ c :: rest ∧ isBlankLine indent = true ∧ isBlank c = false := by
  cases hdrop : line.dropWhile isBlank with
  | nil =>
    have hblank := isBlankLine_iff.2 (List.dropWhile_eq_nil_iff.1 hdrop)
    rw [h] at hblank
    cases hblank
  | cons c rest =>
    have happend := List.takeWhile_append_dropWhile (p := isBlank) (l := line)
    have hhead := List.head?_dropWhile_not isBlank line
    rw [hdrop] at happend hhead
    exact ⟨_, c, rest, happend.symm,
      isBlankLine_iff.2 fun b hb => List.mem_takeWhile_imp hb, hhead⟩

theorem takeWhile_indent (hindent : isBlankLine indent = true) (hc : isBlank c = false) :
    (indent ++ c :: rest).takeWhile isBlank = indent := by
  rw [List.takeWhile_append_of_pos (isBlankLine_iff.1 hindent),
    List.takeWhile_cons_of_neg (by simp [hc]), List.append_nil]

theorem dropWhile_indent (hindent : isBlankLine indent = true) (hc : isBlank c = false) :
    (indent ++ c :: rest).dropWhile isBlank = c :: rest := by
  rw [List.dropWhile_append_of_pos (isBlankLine_iff.1 hindent),
    List.dropWhile_cons_of_neg (by simp [hc])]

theorem fenceLine?_indent (hindent : isBlankLine indent = true) (hc : isBlank c = false) :
    fenceLine? (indent ++ c :: rest) = fenceAt? indent c rest := by
  unfold fenceLine? fenceAt?
  rw [takeWhile_indent hindent hc, dropWhile_indent hindent hc]
  dsimp only
  by_cases hsign : c = '\x60' ∨ c = '~'
  · simp [hsign]
  · simp [hsign]

/-- A fence is a run of one sign behind an indentation. -/
theorem fence_cases (h : fenceLine? line = some f) : ∃ indent c rest,
    isBlankLine indent = true ∧ (c = '\x60' ∨ c = '~') ∧ line = indent ++ c :: rest ∧
      2 ≤ (rest.takeWhile (· == c)).length ∧ endsLine (rest.dropWhile (· == c)) = true ∧
      f = ⟨indent, c :: rest.takeWhile (· == c), rest.dropWhile (· == c)⟩ := by
  cases hblank : isBlankLine line with
  | true =>
    rw [fenceLine?_of_isBlankLine hblank] at h
    cases h
  | false =>
    obtain ⟨indent, c, rest, rfl, hindent, hc⟩ := exists_indent hblank
    rw [fenceLine?_indent hindent hc, fenceAt?] at h
    split at h
    · next hfence =>
      obtain ⟨hsign, hlong, hends⟩ := hfence
      exact ⟨indent, c, rest, hindent, hsign, rfl, hlong, hends, (Option.some.inj h).symm⟩
    · cases h

theorem line_of_fenceLine? (h : fenceLine? line = some f) : f.line = line := by
  obtain ⟨indent, c, rest, -, -, rfl, -, -, rfl⟩ := fence_cases h
  simp [FenceLine.line]

/-- A fence keeps its marker with another label, which does not start with a sign. -/
theorem fenceLine?_relabelled {label : List Char} (h : fenceLine? line = some f)
    (hends : endsLine label = true) (hlabel : ∀ c ∈ label.head?, c ≠ '\x60' ∧ c ≠ '~') :
    fenceLine? (f.indent ++ f.marker ++ label) = some { f with info := label } := by
  obtain ⟨indent, c, rest, hindent, hsign, rfl, hlong, -, rfl⟩ := fence_cases h
  have hmarker : ∀ b ∈ rest.takeWhile (· == c), (b == c) = true :=
    fun b hb => List.mem_takeWhile_imp (p := (· == c)) hb
  have hstop : ∀ b ∈ label.head?, ¬(b == c) = true := by
    intro b hb heq
    obtain ⟨hgrave, htilde⟩ := hlabel b hb
    obtain rfl := eq_of_beq heq
    exact hsign.elim hgrave htilde
  have htake : label.takeWhile (· == c) = [] := by
    cases label with
    | nil => rfl
    | cons b more => exact List.takeWhile_cons_of_neg (hstop b rfl)
  have hdrop : label.dropWhile (· == c) = label := by
    cases label with
    | nil => rfl
    | cons b more => exact List.dropWhile_cons_of_neg (hstop b rfl)
  dsimp only
  rw [List.append_assoc, List.cons_append, fenceLine?_indent hindent (isBlank_of_sign hsign),
    fenceAt?, List.takeWhile_append_of_pos hmarker, List.dropWhile_append_of_pos hmarker, htake,
    hdrop, List.append_nil, if_pos ⟨hsign, hlong, hends⟩]

/-! ## Lines of code -/

/-- The line of Rust code is hidden. -/
def isHidden (line : List Char) : Bool :=
  dropAround isBlank line == ['#'] || ['#', ' '].isPrefixOf (dropAround isBlank line)

/-- The line starts with two number signs, behind its indentation. -/
def isEscaped (line : List Char) : Bool := ['#', '#'].isPrefixOf (line.dropWhile isBlank)

/-- A line of Rust code with one number sign where it starts with two. -/
def unescaped (line : List Char) : List Char :=
  if isEscaped line then line.takeWhile isBlank ++ (line.dropWhile isBlank).tail else line

theorem dropAround_of_isBlankLine (h : isBlankLine line = true) : dropAround isBlank line = [] := by
  rw [dropAround, dropWhile_of_isBlankLine h]
  rfl

theorem dropAround_indent (hindent : isBlankLine indent = true) (hc : isBlank c = false) :
    dropAround isBlank (indent ++ c :: rest) = c :: dropBack isBlank rest := by
  rw [dropAround, dropWhile_indent hindent hc, Text.dropBack_cons_of_neg hc]

theorem dropBack_indent (hc : isBlank c = false) :
    dropBack isBlank (indent ++ c :: rest) = indent ++ c :: dropBack isBlank rest := by
  rw [Text.dropBack_append, Text.dropBack_cons_of_neg hc, if_neg (List.cons_ne_nil _ _)]

/-- Hidden lines of Rust code go, and escaped ones lose a sign. -/
theorem codeLine_eq (rust : Bool) (line : List Char) :
    codeLine rust line = if rust then
      if isHidden line then [] else [unescaped line]
    else [line] := by
  cases rust with
  | false => rfl
  | true =>
    unfold codeLine
    simp only [if_true]
    cases hblank : isBlankLine line with
    | true =>
      have hdrop := dropWhile_of_isBlankLine hblank
      simp [isHidden, unescaped, isEscaped, dropAround_of_isBlankLine hblank, hdrop]
    | false =>
      obtain ⟨indent, c, rest, rfl, hindent, hc⟩ := exists_indent hblank
      have hback := Text.dropBack_append_back (p := isBlank) (indent ++ c :: rest)
      rw [dropBack_indent hc] at hback
      simp only [isHidden, unescaped, isEscaped, dropAround_indent hindent hc,
        dropWhile_indent hindent hc, takeWhile_indent hindent hc]
      -- the line is looked at without the blanks at its end, and written with them
      generalize ((indent ++ c :: rest).reverse.takeWhile isBlank).reverse = back at hback ⊢
      by_cases hsign : c = '#'
      · subst hsign
        cases hrest : dropBack isBlank rest with
        | nil => simp
        | cons b more =>
          rw [hrest] at hback
          have hrest : rest = b :: (more ++ back) := by simpa using hback.symm
          by_cases hspace : b = ' '
          · simp [hspace]
          · by_cases htwo : b = '#'
            · simp [htwo, hrest]
            · simp [hspace, htwo, hrest, Ne.symm hspace, Ne.symm htwo]
      · simp [hsign, Ne.symm hsign]

/-- An unescaped line starts with a number sign, so it is no fence. -/
theorem fenceLine?_unescaped (h : isEscaped line = true) : fenceLine? (unescaped line) = none := by
  obtain ⟨more, hdrop⟩ := List.isPrefixOf_iff_prefix.1 h
  have hindent : isBlankLine (line.takeWhile isBlank) = true :=
    isBlankLine_iff.2 fun c hc => List.mem_takeWhile_imp hc
  have hsign : isBlank '#' = false := by decide
  rw [unescaped, if_pos h, ← hdrop]
  exact (fenceLine?_indent hindent hsign).trans (if_neg (by simp))

/-- A line of code that is written closes a block only if the line did. -/
theorem closes_of_mem_codeLine {rust : Bool} (h : closes marker line = false) :
    ∀ l ∈ codeLine rust line, closes marker l = false := by
  intro l hl
  rw [codeLine_eq] at hl
  split at hl
  · split at hl
    · cases hl
    · obtain rfl := List.mem_singleton.1 hl
      cases hescaped : isEscaped line with
      | true => rw [closes, fenceLine?_unescaped hescaped]; rfl
      | false => rwa [unescaped, if_neg (by simp [hescaped])]
  · exact List.mem_singleton.1 hl ▸ h

/-! ## Parts -/

/-- A fence with the label that sanitizing gives it. -/
def FenceLine.sanitized (f : FenceLine) : FenceLine :=
  if isRust f.info then { f with info := "rust".toList } else f

/-- The lines of code that sanitizing leaves: hidden lines of Rust code go, and escaped ones lose
a sign. -/
def sanitizedCode (rust : Bool) (code : List (List Char)) : List (List Char) :=
  if rust then (code.filter (!isHidden ·)).map unescaped else code

/-- A fenced block: its fence, the lines of code in it, and the line that closes it, if there is
one. -/
structure Block where
  fence : FenceLine
  code : List (List Char)
  closing : Option (List Char)

namespace Block

def lines (b : Block) : List (List Char) := b.fence.line :: b.code ++ b.closing.toList

/-- The block that sanitizing makes of a block. -/
def sanitized (b : Block) : Block :=
  ⟨b.fence.sanitized, sanitizedCode (isRust b.fence.info) b.code, b.closing⟩

end Block

/-- A part of docs: a line outside fences, or a fenced block. -/
inductive Part where
  | prose (line : List Char)
  | fenced (b : Block)

namespace Part

def lines : Part → List (List Char)
  | prose line => [line]
  | fenced b => b.lines

/-- The part that sanitizing makes of a part. -/
def sanitized : Part → Part
  | prose line => prose line
  | fenced b => fenced b.sanitized

end Part

/-- The parts of lines, behind the fence that is open and the lines of code since. -/
def scanFrom : Option (FenceLine × List (List Char)) → List (List Char) → List Part
  | none, [] => []
  | some (f, code), [] => [.fenced ⟨f, code, none⟩]
  | none, l :: ls =>
    match fenceLine? l with
    | none => .prose l :: scanFrom none ls
    | some f => scanFrom (some (f, [])) ls
  | some (f, code), l :: ls =>
    if closes f.marker l then .fenced ⟨f, code, some l⟩ :: scanFrom none ls
    else scanFrom (some (f, code ++ [l])) ls

def scan (ls : List (List Char)) : List Part := scanFrom none ls

theorem lines_scanFrom (opened : Option (FenceLine × List (List Char))) (ls : List (List Char)) :
    (scanFrom opened ls).flatMap Part.lines =
      opened.toList.flatMap (fun o => o.1.line :: o.2) ++ ls := by
  fun_induction scanFrom opened ls with
  | case1 => rfl
  | case2 f code => simp [Part.lines, Block.lines]
  | case3 l ls hfence ih => simp [Part.lines, ih]
  | case4 l ls f hfence ih => simp [ih, line_of_fenceLine? hfence]
  | case5 f code l ls hcloses ih => simp [Part.lines, Block.lines, ih]
  | case6 f code l ls hcloses ih => simp [ih]

/-- Each line belongs to one part. -/
theorem lines_scan (ls : List (List Char)) : (scan ls).flatMap Part.lines = ls :=
  lines_scanFrom none ls

/-! ## Sanitizing part by part -/

/-- Where sanitizing stands behind the fence that is open. -/
def Place.behind : Option (FenceLine × List (List Char)) → Place
  | none => .prose
  | some (f, _) => .fence f.marker (isRust f.info)

/-- What sanitizing makes of a block that is still open. -/
def sanitizedOpen (o : FenceLine × List (List Char)) : FenceLine × List (List Char) :=
  (o.1.sanitized, sanitizedCode (isRust o.1.info) o.2)

@[simp] theorem marker_sanitized (f : FenceLine) : f.sanitized.marker = f.marker := by
  unfold FenceLine.sanitized
  split <;> rfl

/-- Behind more code stands what is written for it. -/
theorem sanitizedCode_append (rust : Bool) (code : List (List Char)) (l : List Char) :
    sanitizedCode rust (code ++ [l]) = sanitizedCode rust code ++ codeLine rust l := by
  rw [codeLine_eq]
  cases rust with
  | false => rfl
  | true => cases hhidden : isHidden l <;> simp [sanitizedCode, hhidden]

/-- The signs of the label that is written. -/
theorem toList_rust : "rust".toList = ['r', 'u', 's', 't'] := rfl

/-- The line that opens a block is written as the fence with its label. -/
theorem fenceLine?_openingLine (h : fenceLine? line = some f) :
    fenceLine? (openingLine f line) = some f.sanitized := by
  unfold openingLine FenceLine.sanitized
  rw [toList_rust]
  split
  · exact fenceLine?_relabelled h (by decide) (by simp)
  · exact h

/-- Lines that close no block stay in it. -/
theorem scanFrom_code {code ks : List (List Char)} (h : ∀ l ∈ ks, closes f.marker l = false)
    (ls : List (List Char)) :
    scanFrom (some (f, code)) (ks ++ ls) = scanFrom (some (f, code ++ ks)) ls := by
  induction ks generalizing code with
  | nil => simp
  | cons k ks ih =>
    obtain ⟨hk, hks⟩ := List.forall_mem_cons.1 h
    rw [List.cons_append, scanFrom, if_neg (by simp [hk]), ih hks]
    simp

/-- What is written is read as the parts that sanitizing makes of the parts. -/
theorem scanFrom_sanitizeFrom (opened : Option (FenceLine × List (List Char)))
    {ls : List (List Char)} (last : List Char)
    (h : ∀ l, .prose l ∈ scanFrom opened ls → blockTag? (dropAround isBlank l) = none) :
    scanFrom (opened.map sanitizedOpen) (sanitizeFrom (.behind opened) last ls) =
      (scanFrom opened ls).map Part.sanitized := by
  fun_induction scanFrom opened ls generalizing last with
  | case1 => rfl
  | case2 f code => rfl
  | case3 l ls hfence ih =>
    have htag := h l List.mem_cons_self
    have hwritten : writtenFor .prose last l ls = [l] := by simp [writtenFor, hfence, htag]
    have hafter : Place.prose.after l = .prose := by simp [Place.after, hfence, htag]
    have hrest := ih l fun k hk => h k (List.mem_cons_of_mem _ hk)
    rw [sanitizeFrom, Place.behind, hwritten, hafter]
    simp [scanFrom, hfence, Part.sanitized, ← hrest, Place.behind]
  | case4 l ls f hfence ih =>
    have hwritten : writtenFor .prose last l ls = [openingLine f l] := by
      simp [writtenFor, hfence]
    have hafter : Place.prose.after l = .fence f.marker (isRust f.info) := by
      simp [Place.after, hfence]
    rw [sanitizeFrom, Place.behind, hwritten, hafter, ← ih (openingLine f l) h]
    simp [scanFrom, fenceLine?_openingLine hfence, sanitizedOpen, sanitizedCode, Place.behind]
  | case5 f code l ls hcloses ih =>
    have hrest := ih l fun k hk => h k (List.mem_cons_of_mem _ hk)
    rw [sanitizeFrom, Place.behind]
    simp [writtenFor, Place.after, hcloses, scanFrom, sanitizedOpen, Part.sanitized,
      Block.sanitized, ← hrest, Place.behind]
  | case6 f code l ls hcloses ih =>
    have hwritten : writtenFor (.behind (some (f, code))) last l ls =
        codeLine (isRust f.info) l := by
      simp [writtenFor, Place.behind, hcloses]
    have hafter : (Place.behind (some (f, code))).after l = .behind (some (f, code ++ [l])) := by
      simp [Place.after, Place.behind, hcloses]
    -- the lines written for a line of code stay in the block, so they join the code before them
    have hstay : ∀ k ∈ codeLine (isRust f.info) l, closes f.sanitized.marker k = false := by
      rw [marker_sanitized]
      exact closes_of_mem_codeLine (by simpa using hcloses)
    rw [sanitizeFrom, hwritten, hafter, ← ih _ h]
    simp only [Option.map_some, sanitizedOpen]
    rw [scanFrom_code hstay, sanitizedCode_append]

section

variable {ls : List (List Char)}
  (h : ∀ l, .prose l ∈ scan ls → blockTag? (dropAround isBlank l) = none)

include h

theorem scan_sanitizeLines : scan (sanitizeLines ls) = (scan ls).map Part.sanitized :=
  scanFrom_sanitizeFrom none [] h

/-- The lines that are written are those of the parts that sanitizing makes. -/
theorem sanitizeLines_eq :
    sanitizeLines ls = ((scan ls).map Part.sanitized).flatMap Part.lines := by
  rw [← scan_sanitizeLines h, lines_scan]

end

/-! ## Fences of a trimmed text -/

/-- What tells the blocks of docs: marker, label, and whether a line closes the block. -/
def Part.outline? : Part → Option (List Char × List Char × Bool)
  | prose _ => none
  | fenced b => some (b.fence.marker, b.fence.label, b.closing.isSome)

/-- The blocks behind the fence that is open, in order. -/
def outlineFrom (opened : Option (FenceLine × List (List Char))) (ls : List (List Char)) :
    List (List Char × List Char × Bool) :=
  (scanFrom opened ls).filterMap Part.outline?

theorem fenceLine?_dropWhile (line : List Char) : fenceLine? (line.dropWhile isBlank) =
    (fenceLine? line).map fun f => { f with indent := [] } := by
  cases hblank : isBlankLine line with
  | true => rw [fenceLine?_of_isBlankLine hblank, dropWhile_of_isBlankLine hblank]; rfl
  | false =>
    obtain ⟨indent, c, rest, rfl, hindent, hc⟩ := exists_indent hblank
    have hnone : isBlankLine [] = true := rfl
    have hnil : fenceLine? ([] ++ c :: rest) = fenceAt? [] c rest := fenceLine?_indent hnone hc
    rw [List.nil_append] at hnil
    rw [dropWhile_indent hindent hc, hnil, fenceLine?_indent hindent hc]
    unfold fenceAt?
    split <;> rfl

theorem fenceLine?_dropBack (hline : '\n' ∉ line) : fenceLine? (dropBack isBlank line) =
    (fenceLine? line).map fun f => { f with info := dropBack isBlank f.info } := by
  cases hblank : isBlankLine line with
  | true =>
    rw [fenceLine?_of_isBlankLine hblank, Text.dropBack_eq_nil_iff.2 (isBlankLine_iff.1 hblank)]
    rfl
  | false =>
    obtain ⟨indent, c, rest, rfl, hindent, hc⟩ := exists_indent hblank
    rw [dropBack_indent hc, fenceLine?_indent hindent hc, fenceLine?_indent hindent hc]
    by_cases hsign : c = '\x60' ∨ c = '~'
    · have hrun : ∀ b, (b == c) = true → isBlank b = false :=
        fun b hb => eq_of_beq hb ▸ isBlank_of_sign hsign
      have hinfo : ∀ b ∈ rest.dropWhile (· == c), b ∈ indent ++ c :: rest := fun b hb =>
        List.mem_append_right _ (List.mem_cons_of_mem c ((List.dropWhile_suffix _).subset hb))
      have hends : endsLine (rest.dropWhile (· == c)) = true :=
        endsLine_of_notMem fun hmem => hline (hinfo _ hmem)
      have hback : endsLine (dropBack isBlank (rest.dropWhile (· == c))) = true :=
        endsLine_of_notMem fun hmem => hline (hinfo _ ((List.rdropWhile_prefix _ _).subset hmem))
      rw [fenceAt?, fenceAt?, Text.takeWhile_dropBack hrun, Text.dropWhile_dropBack hrun]
      simp only [hsign, hends, hback, true_and, and_true]
      split <;> rfl
    · simp [fenceAt?, hsign]

theorem closes_of_isBlankLine (h : isBlankLine line = true) : closes marker line = false := by
  rw [closes, fenceLine?_of_isBlankLine h]
  rfl

/-- The marker and the label of the fence that a line is. -/
def signature? (line : List Char) : Option (List Char × List Char) :=
  (fenceLine? line).map fun f => (f.marker, f.label)

theorem signature?_dropWhile (line : List Char) :
    signature? (line.dropWhile isBlank) = signature? line := by
  rw [signature?, fenceLine?_dropWhile, Option.map_map]
  rfl

theorem signature?_dropBack (hline : '\n' ∉ line) :
    signature? (dropBack isBlank line) = signature? line := by
  rw [signature?, fenceLine?_dropBack hline, Option.map_map]
  simp only [signature?, Function.comp_def, FenceLine.label, Text.dropBack_dropBack]

theorem closes_eq_signature? (marker line : List Char) :
    closes marker line = (signature? line).any fun s => marker.isPrefixOf s.1 := by
  rw [signature?, Option.any_map]
  rfl

/-- Only the marker and the label of the open fence count. -/
theorem outlineFrom_congr {f g : FenceLine} (hmarker : f.marker = g.marker)
    (hlabel : f.label = g.label) (code other : List (List Char)) (ls : List (List Char)) :
    outlineFrom (some (f, code)) ls = outlineFrom (some (g, other)) ls := by
  induction ls generalizing code other with
  | nil => simp [outlineFrom, scanFrom, Part.outline?, hmarker, hlabel]
  | cons l ls ih =>
    unfold outlineFrom at ih ⊢
    rw [scanFrom, scanFrom, hmarker]
    split
    · simp [Part.outline?, hmarker, hlabel]
    · exact ih _ _

/-- So do only the marker and the label of a line. -/
theorem outlineFrom_cons_congr {l k : List Char} {ls ks : List (List Char)}
    (hline : signature? l = signature? k) (hrest : ∀ o, outlineFrom o ls = outlineFrom o ks)
    (opened : Option (FenceLine × List (List Char))) :
    outlineFrom opened (l :: ls) = outlineFrom opened (k :: ks) := by
  cases opened with
  | none =>
    unfold signature? at hline
    cases hl : fenceLine? l with
    | none =>
      have hk : fenceLine? k = none := by simpa [hl] using hline.symm
      simpa [outlineFrom, scanFrom, hl, hk, List.filterMap_cons, Part.outline?] using hrest none
    | some f =>
      rw [hl] at hline
      obtain ⟨g, hk, hsame⟩ := Option.map_eq_some_iff.1 hline.symm
      have hopen := outlineFrom_congr (congrArg Prod.fst hsame).symm (congrArg Prod.snd hsame).symm
        [] [] ls
      simpa [outlineFrom, scanFrom, hl, hk] using hopen.trans (hrest _)
  | some o =>
    obtain ⟨f, code⟩ := o
    have hcloses : closes f.marker l = closes f.marker k := by
      rw [closes_eq_signature?, closes_eq_signature?, hline]
    have hopen := outlineFrom_congr (f := f) rfl rfl (code ++ [l]) (code ++ [k]) ls
    unfold outlineFrom at hrest hopen ⊢
    rw [scanFrom, scanFrom, hcloses]
    split
    · simp [Part.outline?, hrest]
    · exact hopen.trans (hrest _)

/-- Blank lines tell of no block, and close none. -/
theorem outlineFrom_cons_of_isBlankLine {l : List Char} (h : isBlankLine l = true)
    (opened : Option (FenceLine × List (List Char))) (ls : List (List Char)) :
    outlineFrom opened (l :: ls) = outlineFrom opened ls := by
  cases opened with
  | none =>
    rw [outlineFrom, scanFrom, fenceLine?_of_isBlankLine h]
    rfl
  | some o =>
    rw [outlineFrom, scanFrom, closes_of_isBlankLine h]
    exact outlineFrom_congr rfl rfl _ _ ls

theorem outlineFrom_trimFront (ls : List (List Char)) :
    outlineFrom none (trimFront ls) = outlineFrom none ls := by
  fun_induction trimFront ls with
  | case1 => rfl
  | case2 l ls hblank ih => rw [ih, outlineFrom_cons_of_isBlankLine hblank]
  | case3 l ls hblank =>
    exact outlineFrom_cons_congr (signature?_dropWhile l) (fun _ => rfl) none

theorem outlineFrom_trimBack {ls : List (List Char)} (h : ∀ l ∈ ls, '\n' ∉ l)
    (opened : Option (FenceLine × List (List Char))) :
    outlineFrom opened (trimBack ls) = outlineFrom opened ls := by
  fun_induction trimBack ls generalizing opened with
  | case1 => rfl
  | case2 l ls hnil hblank ih =>
    rw [hnil] at ih
    rw [outlineFrom_cons_of_isBlankLine hblank, ih (List.forall_mem_cons.1 h).2]
  | case3 l ls hnil hblank ih =>
    rw [hnil] at ih
    obtain ⟨hl, hls⟩ := List.forall_mem_cons.1 h
    exact outlineFrom_cons_congr (signature?_dropBack hl) (ih hls) opened
  | case4 l ls k ks hcons ih =>
    rw [hcons] at ih
    exact outlineFrom_cons_congr rfl (ih (List.forall_mem_cons.1 h).2) opened

/-! ## What sanitizing keeps -/

theorem isLine_sanitizedCode {rust : Bool} {code : List (List Char)} (h : ∀ l ∈ code, IsLine l) :
    ∀ l ∈ sanitizedCode rust code, IsLine l := by
  unfold sanitizedCode
  split
  · intro l hl
    obtain ⟨k, hk, rfl⟩ := List.mem_map.1 hl
    have hline := h k (List.mem_filter.1 hk).1
    intro c hc
    refine hline c ?_
    unfold unescaped at hc
    split at hc
    · rw [← List.takeWhile_append_dropWhile (p := isBlank) (l := k)]
      exact List.mem_append.2 ((List.mem_append.1 hc).imp_right List.mem_of_mem_tail)
    · exact hc
  · exact h

theorem isLine_sanitized {p : Part} (h : ∀ l ∈ p.lines, IsLine l) :
    ∀ l ∈ p.sanitized.lines, IsLine l := by
  cases p with
  | prose line => exact h
  | fenced b =>
    simp only [Part.lines, Part.sanitized, Block.lines, Block.sanitized, List.cons_append,
      List.forall_mem_cons, List.forall_mem_append] at h ⊢
    obtain ⟨hfence, hcode, hclosing⟩ := h
    refine ⟨?_, isLine_sanitizedCode hcode, hclosing⟩
    unfold FenceLine.sanitized
    split
    · intro c hc
      rcases List.mem_append.1 hc with hc | hc
      · exact hfence c (List.mem_append_left _ hc)
      · simp only [toList_rust, List.mem_cons, List.not_mem_nil, or_false] at hc
        rcases hc with rfl | rfl | rfl | rfl <;> rfl
    · exact hfence

/-- What sanitizing makes of lines, as the lines that are written and as a text. -/
structure SanitizesParts (ls written : List (List Char)) (text : List Char) : Prop where
  /-- Lines outside fences are written as they are, blocks as sanitizing makes them. -/
  written_eq : written = ((scan ls).map Part.sanitized).flatMap Part.lines
  /-- What is written is read as these parts. -/
  scan_written : scan written = (scan ls).map Part.sanitized
  /-- The text is made of these lines, without the blanks at its ends. -/
  text_eq : text = dropAround isBlank (joinLines written)
  /-- The blocks of the text are those that are written, in order. -/
  outline : (scan (Text.splitLines text)).filterMap Part.outline? =
    ((scan ls).map Part.sanitized).filterMap Part.outline?

/-- Where no line outside fences starts a block of HTML, sanitizing keeps the parts of a text, and
changes only blocks of Rust code. -/
theorem sanitizesParts_sanitize {docs : String}
    (h : ∀ l, .prose l ∈ scan (Text.splitLines docs.toList) →
      blockTag? (dropAround isBlank l) = none) :
    ∃ written, SanitizesParts (Text.splitLines docs.toList) written (sanitize docs).toList := by
  set ls := Text.splitLines docs.toList with hls
  have hwritten := sanitizeLines_eq h
  have hline : ∀ l ∈ sanitizeLines ls, IsLine l := by
    rw [hwritten]
    intro l hl
    obtain ⟨p, hp, hl⟩ := List.mem_flatMap.1 hl
    obtain ⟨q, hq, rfl⟩ := List.mem_map.1 hp
    refine isLine_sanitized (fun k hk => ?_) l hl
    refine isLine_of_mem_splitLines docs.toList k ?_
    rw [← hls, ← lines_scan ls]
    exact List.mem_flatMap.2 ⟨q, hq, hk⟩
  have htext : (sanitize docs).toList = dropAround isBlank (joinLines (sanitizeLines ls)) := by
    rw [sanitize, String.toList_ofList]
  refine ⟨sanitizeLines ls, hwritten, scan_sanitizeLines h, htext, ?_⟩
  have hfeed : ∀ l ∈ trimFront (sanitizeLines ls), '\n' ∉ l :=
    fun l hl => (isLine_trimFront hline l hl).notMem
  rw [htext, splitLines_dropAround_joinLines hline, ← scan_sanitizeLines h]
  exact (outlineFrom_trimBack hfeed none).trans (outlineFrom_trimFront _)

/-- Docs with Rust code, a hidden and an escaped line in it, and a block that no line closes. -/
def escapedDocs : String := "Sum:\n  ~~~ignore,no_run\n# use a;\n## b\n~~~~\n```toml\n# c"

theorem scan_escapedDocs : scan (Text.splitLines escapedDocs.toList) =
    [.prose "Sum:".toList,
     .fenced ⟨⟨"  ".toList, "~~~".toList, "ignore,no_run".toList⟩,
       ["# use a;".toList, "## b".toList], some "~~~~".toList⟩,
     .fenced ⟨⟨[], "```".toList, "toml".toList⟩, ["# c".toList], none⟩] := by rfl

/-- Docs with a Rust part, an escaped line and a part that nothing closes are sanitized part by
part. -/
theorem sanitizesParts_sanitize_escaped :
    (∀ l, .prose l ∈ scan (Text.splitLines escapedDocs.toList) →
      blockTag? (dropAround isBlank l) = none) ∧
    ∃ written, SanitizesParts (Text.splitLines escapedDocs.toList) written
      (sanitize escapedDocs).toList := by
  have h : ∀ l, .prose l ∈ scan (Text.splitLines escapedDocs.toList) →
      blockTag? (dropAround isBlank l) = none := by
    rw [scan_escapedDocs]
    simp only [List.mem_cons, Part.prose.injEq, reduceCtorEq, List.not_mem_nil, or_false]
    rintro l rfl
    rfl
  exact ⟨h, sanitizesParts_sanitize h⟩

example : sanitize escapedDocs = "Sum:\n  ~~~rust\n# b\n~~~~\n```toml\n# c" := by rfl

end CrateBook.Docs
