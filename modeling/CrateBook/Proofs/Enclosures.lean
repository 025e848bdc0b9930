import CrateBook.Proofs.DocParts

/-!
# Fenced blocks inside of HTML

Between a line that starts a block of HTML and the first line that holds its closing tag, lines
are trimmed and written, and nothing looks for fences. So a fenced block that stands there loses
its indentation, and is neither labelled nor rid of its hidden lines: it is written like any other
block only where sanitizing would have nothing to change, and its lines have nothing to trim.
-/
namespace CrateBook.Docs

open Text (isBlank dropAround dropBack)

/-! ## What is written for each line -/

/-- What sanitizing writes for each line. -/
def writings (place : Place) (last : List Char) : List (List Char) → List (List (List Char))
  | [] => []
  | line :: rest =>
    let out := writtenFor place last line rest
    out :: writings (place.after line) (out.getLastD last) rest

variable {place : Place} {last closing : List Char} {ls ks : List (List Char)}

/-- What sanitizing writes for each line of docs. -/
def rowsOf (docs : String) : List (List (List Char)) :=
  writings .prose [] (Text.splitLines docs.toList)

theorem flatten_writings : (writings place last ls).flatten = sanitizeFrom place last ls := by
  induction ls generalizing place last with
  | nil => rfl
  | cons l ls ih => rw [writings, List.flatten_cons, ih, sanitizeFrom]

/-- Behind some lines sanitizing goes on from where they leave it. -/
theorem drop_writings (place : Place) (last : List Char) (ks ls : List (List Char)) : ∃ last',
    (writings place last (ks ++ ls)).drop ks.length =
      writings (ks.foldl Place.after place) last' ls := by
  induction ks generalizing place last with
  | nil => exact ⟨last, rfl⟩
  | cons k ks ih => exact ih _ _

theorem foldl_after_html (h : ∀ l ∈ ls, holds closing (dropAround isBlank l) = false) :
    ls.foldl Place.after (.html closing) = .html closing := by
  induction ls with
  | nil => rfl
  | cons l ls ih =>
    obtain ⟨hl, hls⟩ := List.forall_mem_cons.1 h
    have hafter : (Place.html closing).after l = .html closing := by simp [Place.after, hl]
    rw [List.foldl_cons, hafter, ih hls]

/-- Inside a block of HTML each line is trimmed. -/
theorem take_writings_html (h : ∀ l ∈ ks, holds closing (dropAround isBlank l) = false)
    (ls : List (List Char)) : (writings (.html closing) last (ks ++ ls)).take ks.length =
      ks.map fun l => [dropAround isBlank l] := by
  induction ks generalizing last with
  | nil => rfl
  | cons k ks ih =>
    obtain ⟨hk, hks⟩ := List.forall_mem_cons.1 h
    simp [writings, writtenFor, Place.after, hk, ih hks]

/-! ## Trimmed blocks -/

/-- The fence of a block is read from the line that opens it. -/
theorem fenceLine?_of_mem_scanFrom {opened : Option (FenceLine × List (List Char))}
    (hopen : ∀ o ∈ opened, fenceLine? o.1.line = some o.1) {b : Block}
    (h : .fenced b ∈ scanFrom opened ls) : fenceLine? b.fence.line = some b.fence := by
  fun_induction scanFrom opened ls with
  | case1 => cases h
  | case2 f code =>
    obtain rfl := Part.fenced.inj (List.mem_singleton.1 h)
    exact hopen _ rfl
  | case3 l ls hfence ih =>
    rcases List.mem_cons.1 h with hprose | h
    · cases hprose
    · exact ih (by simp) h
  | case4 l ls f hfence ih =>
    refine ih (fun o ho => ?_) h
    obtain rfl := Option.some.inj ho
    rwa [line_of_fenceLine? hfence]
  | case5 f code l ls hcloses ih =>
    rcases List.mem_cons.1 h with hblock | h
    · obtain rfl := Part.fenced.inj hblock
      exact hopen _ rfl
    · exact ih (by simp) h
  | case6 f code l ls hcloses ih =>
    refine ih (fun o ho => ?_) h
    obtain rfl := Option.some.inj ho
    exact hopen (f, code) rfl

theorem fenceLine?_of_mem_scan {b : Block} (h : .fenced b ∈ scan ls) :
    fenceLine? b.fence.line = some b.fence :=
  fenceLine?_of_mem_scanFrom (by simp) h

/-- A fence whose line is trimmed keeps its marker and its label. -/
theorem dropAround_line {f : FenceLine} (h : fenceLine? f.line = some f) :
    dropAround isBlank f.line = f.marker ++ f.label := by
  obtain ⟨indent, c, rest, hindent, hsign, hline, -, -, rfl⟩ := fence_cases h
  have hrun : ∀ b ∈ rest.takeWhile (· == c), isBlank b = false := fun b hb =>
    eq_of_beq (List.mem_takeWhile_imp (p := (· == c)) hb) ▸ isBlank_of_sign hsign
  rw [hline, dropAround_indent hindent (isBlank_of_sign hsign), FenceLine.label, List.cons_append,
    ← Text.dropBack_append_of_not hrun, List.takeWhile_append_dropWhile]

theorem dropAround_line_eq_iff {f : FenceLine} (h : fenceLine? f.line = some f) :
    dropAround isBlank f.line = f.sanitized.line ↔ f.indent = [] ∧ f.label = f.sanitized.info := by
  have hindent : f.sanitized.indent = f.indent := by
    unfold FenceLine.sanitized
    split <;> rfl
  rw [dropAround_line h, FenceLine.line, hindent, marker_sanitized]
  constructor
  · intro heq
    have hnil : f.indent = [] := by
      obtain ⟨indent, c, rest, hblank, hsign, -, -, -, rfl⟩ := fence_cases h
      cases indent with
      | nil => rfl
      | cons b more =>
        have hb := isBlankLine_iff.1 hblank b List.mem_cons_self
        have hcb : c = b := by simpa using congrArg List.head? heq
        rw [← hcb, isBlank_of_sign hsign] at hb
        cases hb
    rw [hnil, List.nil_append] at heq
    exact ⟨hnil, List.append_cancel_left heq⟩
  · rintro ⟨hnil, hlabel⟩
    rw [hnil, hlabel, List.nil_append]

/-- An escaped line loses a sign by sanitizing, but not by trimming. -/
theorem dropAround_ne_unescaped {line : List Char} (h : isEscaped line = true) :
    dropAround isBlank line ≠ unescaped line := by
  intro heq
  have hescaped := h
  obtain ⟨more, hdrop⟩ := List.isPrefixOf_iff_prefix.1 h
  have hsign : isBlank '#' = false := by decide
  have htrim : dropAround isBlank line = '#' :: '#' :: dropBack isBlank more := by
    rw [dropAround, ← hdrop]
    have hsigns : ∀ c ∈ ['#', '#'], isBlank c = false := by simp [hsign]
    exact Text.dropBack_append_of_not hsigns
  rw [htrim, unescaped, if_pos hescaped, ← hdrop] at heq
  cases hindent : line.takeWhile isBlank with
  | nil =>
    -- the rest of the line would be itself behind one more sign, the blanks at its end apart
    rw [hindent] at heq
    have hmore : '#' :: dropBack isBlank more = more := by simpa using heq
    have hback : dropBack isBlank more = '#' :: dropBack isBlank more := by
      have hcut := congrArg (dropBack isBlank) hmore
      rwa [Text.dropBack_cons_of_neg hsign, Text.dropBack_dropBack, eq_comm] at hcut
    simpa using congrArg List.length hback
  | cons b more' =>
    rw [hindent] at heq
    have hb : isBlank b = true :=
      List.mem_takeWhile_imp (l := line) (hindent ▸ List.mem_cons_self)
    have hsame : '#' = b := by simpa using congrArg List.head? heq
    rw [← hsame, hsign] at hb
    cases hb

theorem map_dropAround_eq_self_iff :
    ls.map (dropAround isBlank) = ls ↔ ∀ l ∈ ls, dropAround isBlank l = l := by
  have hmap := List.map_eq_map_iff (f := dropAround isBlank) (g := id) (l := ls)
  rwa [List.map_id] at hmap

/-- Trimming lines of code does what sanitizing does only if neither does anything. -/
theorem map_dropAround_eq_sanitizedCode_iff {rust : Bool} :
    ls.map (dropAround isBlank) = sanitizedCode rust ls ↔
      (∀ l ∈ ls, dropAround isBlank l = l) ∧
      (rust = true → ∀ l ∈ ls, isHidden l = false ∧ isEscaped l = false) := by
  cases rust with
  | false => simpa [sanitizedCode] using map_dropAround_eq_self_iff
  | true =>
    simp only [sanitizedCode, if_true, forall_const]
    constructor
    · intro heq
      have hlength : (ls.filter (!isHidden ·)).length = ls.length := by
        simpa using (congrArg List.length heq).symm
      have hshown : ∀ l ∈ ls, isHidden l = false := by
        simpa using List.length_filter_eq_length_iff.1 hlength
      rw [List.filter_eq_self.2 fun l hl => by simp [hshown l hl], List.map_eq_map_iff] at heq
      have hplain : ∀ l ∈ ls, isEscaped l = false := fun l hl =>
        Bool.eq_false_iff.2 fun hescaped => dropAround_ne_unescaped hescaped (heq l hl)
      refine ⟨fun l hl => ?_, fun l hl => ⟨hshown l hl, hplain l hl⟩⟩
      rw [heq l hl, unescaped, if_neg (by simp [hplain l hl])]
    · rintro ⟨htrim, hplain⟩
      rw [List.filter_eq_self.2 fun l hl => by simp [(hplain l hl).1], List.map_eq_map_iff]
      intro l hl
      rw [htrim l hl, unescaped, if_neg (by simp [(hplain l hl).2])]

/-- A block in which trimming and sanitizing have nothing to do, but for blanks behind its label:
no line has blanks at its ends, and Rust code is labelled and has no hidden or escaped lines. -/
structure Block.Flush (b : Block) : Prop where
  indent : b.fence.indent = []
  label : b.fence.label = b.fence.sanitized.info
  trimmed : ∀ l ∈ b.code ++ b.closing.toList, dropAround isBlank l = l
  plain : isRust b.fence.info = true → ∀ l ∈ b.code, isHidden l = false ∧ isEscaped l = false

/-- Trimming does to a block what sanitizing does only if the block is flush. -/
theorem map_dropAround_lines_eq_iff {b : Block} (h : fenceLine? b.fence.line = some b.fence) :
    b.lines.map (dropAround isBlank) = b.sanitized.lines ↔ b.Flush := by
  have hparts : b.lines.map (dropAround isBlank) = b.sanitized.lines ↔
      dropAround isBlank b.fence.line = b.fence.sanitized.line ∧
      b.code.map (dropAround isBlank) = sanitizedCode (isRust b.fence.info) b.code ∧
      b.closing.toList.map (dropAround isBlank) = b.closing.toList := by
    simp only [Block.lines, Block.sanitized, List.cons_append, List.map_cons, List.map_append,
      List.cons.injEq]
    refine and_congr_right fun _ => ⟨fun heq => ?_, fun heq => congrArg₂ (· ++ ·) heq.1 heq.2⟩
    exact List.append_inj' heq (by simp)
  rw [hparts, dropAround_line_eq_iff h, map_dropAround_eq_sanitizedCode_iff,
    map_dropAround_eq_self_iff]
  constructor
  · rintro ⟨⟨hindent, hlabel⟩, ⟨hcode, hplain⟩, hclosing⟩
    exact ⟨hindent, hlabel, List.forall_mem_append.2 ⟨hcode, hclosing⟩, hplain⟩
  · rintro ⟨hindent, hlabel, htrimmed, hplain⟩
    obtain ⟨hcode, hclosing⟩ := List.forall_mem_append.1 htrimmed
    exact ⟨⟨hindent, hlabel⟩, ⟨hcode, hplain⟩, hclosing⟩

/-! ## Blocks inside of HTML -/

/-- A fenced block between a line that starts a block of HTML and the first line behind it that
holds the closing tag, by the lines of the docs. -/
structure Enclosure (docs : String) where
  before : List (List Char)
  opener : List Char
  tag : List Char
  above : List (List Char)
  block : Block
  below : List (List Char)
  lines_eq : Text.splitLines docs.toList = before ++ opener :: above ++ block.lines ++ below
  /-- The opener stands outside of fences and of other blocks of HTML. -/
  outside : before.foldl Place.after .prose = .prose
  opens : fenceLine? opener = none ∧ blockTag? (dropAround isBlank opener) = some tag
  inside : ∀ l ∈ opener :: above ++ block.lines,
    holds (closingTag tag) (dropAround isBlank l) = false
  scan_block : scan block.lines = [.fenced block]

namespace Enclosure

variable {docs : String} (e : Enclosure docs)

/-- How many lines stand above the block. -/
def height : Nat := (e.before ++ e.opener :: e.above).length

/-- What is written for the lines of the block. -/
def written : List (List Char) :=
  (((rowsOf docs).drop e.height).take e.block.lines.length).flatten

/-- What is written for the lines above the block. -/
def writtenAbove : List (List Char) := ((rowsOf docs).take e.height).flatten

/-- What is written for the lines below the block. -/
def writtenBelow : List (List Char) :=
  (((rowsOf docs).drop e.height).drop e.block.lines.length).flatten

theorem sanitizeLines_docs : sanitizeLines (Text.splitLines docs.toList) =
    e.writtenAbove ++ e.written ++ e.writtenBelow := by
  rw [writtenAbove, written, writtenBelow, List.append_assoc, ← List.flatten_append,
    List.take_append_drop, ← List.flatten_append, List.take_append_drop]
  exact flatten_writings.symm

/-- Behind the lines above the block, sanitizing stands inside of the block of HTML. -/
theorem foldl_after_above : (e.before ++ e.opener :: e.above).foldl Place.after .prose =
    .html (closingTag e.tag) := by
  obtain ⟨hfence, htag⟩ := e.opens
  have hinside := e.inside
  rw [List.cons_append, List.forall_mem_cons, List.forall_mem_append] at hinside
  obtain ⟨hopener, habove, -⟩ := hinside
  have hafter : Place.prose.after e.opener = .html (closingTag e.tag) := by
    simp [Place.after, hfence, htag, hopener]
  rw [List.foldl_append, e.outside, List.foldl_cons, hafter, foldl_after_html habove]

/-- The lines of the block are written trimmed. -/
theorem written_eq : e.written = e.block.lines.map (dropAround isBlank) := by
  obtain ⟨last, hdrop⟩ := drop_writings .prose []
    (e.before ++ e.opener :: e.above) (e.block.lines ++ e.below)
  have hblock : ∀ l ∈ e.block.lines, holds (closingTag e.tag) (dropAround isBlank l) = false :=
    fun l hl => e.inside l (List.mem_append_right _ hl)
  rw [written, rowsOf, height, e.lines_eq, List.append_assoc, hdrop, e.foldl_after_above,
    take_writings_html hblock]
  exact List.map_eq_flatMap.symm

/-- Standing alone, the block is sanitized like any other. -/
theorem sanitizeLines_lines : sanitizeLines e.block.lines = e.block.sanitized.lines := by
  rw [sanitizeLines_eq (by simp [e.scan_block]), e.scan_block]
  simp [Part.sanitized, Part.lines]

/-- A fenced block inside of a block of HTML is written trimmed, between what is written for the
lines above and below it. That is what is written for it elsewhere only if the block is flush. -/
theorem written_eq_iff_flush :
    (sanitize docs).toList =
      dropAround isBlank (joinLines (e.writtenAbove ++ e.written ++ e.writtenBelow)) ∧
    e.written = e.block.lines.map (dropAround isBlank) ∧
    (e.written = sanitizeLines e.block.lines ↔ e.block.Flush) := by
  have hfence : fenceLine? e.block.fence.line = some e.block.fence :=
    fenceLine?_of_mem_scan (e.scan_block ▸ List.mem_singleton_self _)
  refine ⟨?_, e.written_eq, ?_⟩
  · rw [← e.sanitizeLines_docs, sanitize, String.toList_ofList]
  · rw [e.written_eq, e.sanitizeLines_lines, map_dropAround_lines_eq_iff hfence]

end Enclosure

/-- Docs with Rust code behind an empty line in a block of HTML. -/
def detailsDocs : String := "<details>\n\n```\n    let x = 1;\n# hidden\n```\n\n</details>"

/-- The Rust code of these docs. -/
def detailsEnclosure : Enclosure detailsDocs where
  before := []
  opener := "<details>".toList
  tag := "details".toList
  above := [[]]
  block := ⟨⟨[], "```".toList, []⟩, ["    let x = 1;".toList, "# hidden".toList],
    some "```".toList⟩
  below := [[], "</details>".toList]
  lines_eq := by rfl
  outside := rfl
  opens := ⟨by rfl, by rfl⟩
  inside := by decide
  scan_block := by rfl

/-- The code loses its indentation, and is neither labelled nor rid of its hidden line. -/
theorem not_written_detailsEnclosure :
    detailsEnclosure.written ≠ sanitizeLines detailsEnclosure.block.lines ∧
    sanitize detailsDocs = "<details>\n\n```\nlet x = 1;\n# hidden\n```\n\n</details>" := by
  refine ⟨?_, by rfl⟩
  decide

end CrateBook.Docs
