import CrateBook.Proofs.Parameters

/-!
# One row behind both modes

Plain text and Markdown are two written forms of one row of segments. Both go along with putting
rows together, so the formatter in either mode writes the row that the rules make, with the same
notes. Without links, the Markdown of a row is its plain text, escaped, and that is a written form
too.
-/
namespace CrateBook

open Noting (maps_pure maps_id)

open Segment (lit)

namespace Markdown

theorem escape_append (s t : String) : escape (s ++ t) = escape s ++ escape t := by
  simp [escape, String.toList_append, List.flatMap_append, String.ofList_append]

theorem escape_ne_empty {s : String} (h : s ≠ "") : escape s ≠ "" := by
  intro hempty
  have hall : ∀ c ∈ s.toList, (if isMarkup c then ['\\', c] else [c]) = [] := by
    simpa [escape] using hempty
  cases hs : s.toList with
  | nil => exact h (String.toList_eq_nil_iff.1 hs)
  | cons c cs =>
    have hc := hall c (by simp [hs])
    split at hc <;> cases hc

end Markdown

namespace Segment

theorem writeAll_append (m : Markup) (r s : List Segment) :
    writeAll m (r ++ s) = writeAll m r ++ writeAll m s := by
  simp [writeAll, String.join_append]

theorem writeAll_lit (m : Markup) (s : String) : writeAll m (lit s) = m.text s := by
  cases m <;> simp [writeAll, lit, Markup.text, write, plain, markdown, String.join]

theorem writeAll_link (m : Markup) (name href : String) :
    writeAll m [link name href] = m.link name href := by
  cases m <;> simp [writeAll, Markup.link, write, plain, markdown, String.join]

end Segment

namespace TypeText

theorem formatter_draws (t : TypeText) (m : Markup) :
    (t.formatter m).Draws t (Segment.writeAll m) where
  nil := rfl
  append := Segment.writeAll_append m
  lit := Segment.writeAll_lit m
  text_ne s hs := by
    cases m with
    | plain => exact hs
    | markdown => exact Markdown.escape_ne_empty hs
  name id s := by
    unfold formatter nameIn name
    dsimp only
    cases t.resolve with
    | none => exact maps_pure (Segment.writeAll_lit m s)
    | some resolve =>
      refine (maps_id _).bind fun _ => ?_
      cases resolve id s with
      | none => exact maps_pure (Segment.writeAll_lit m s)
      | some href =>
        exact (maps_id _).bind fun _ => maps_pure (Segment.writeAll_link m s href)
  maxDepth := rfl

/-- Without links, Markdown is the escaped plain text of a row. -/
theorem formatter_draws_of_resolve_none {t : TypeText} (h : t.resolve = none) :
    (t.formatter .markdown).Draws t fun row => Markdown.escape (Segment.writeAll .plain row) where
  nil := by decide
  append r s := by rw [Segment.writeAll_append, Markdown.escape_append]
  lit s := by rw [Segment.writeAll_lit]; rfl
  text_ne s hs := Markdown.escape_ne_empty hs
  name id s := by
    unfold formatter nameIn name
    dsimp only
    rw [h]
    exact maps_pure (by rw [Segment.writeAll_lit]; rfl)
  maxDepth := rfl

/-- The two modes of a formatter agree on a piece. Both record the links that the rules record, and
both write the row of segments that the rules make, in plain text and in Markdown. Where the rules
fail to make a row, both modes fail with the same fault. -/
structure ModesAgree (t : TypeText) (fuel : Nat) (piece : Piece) : Prop where
  links : ∀ m, ((t.formatter m).write fuel piece).notes.filterMap Note.link? =
    (t.row piece).notes.filterMap Note.link?
  plain : ((t.formatter .plain).write fuel piece).result =
    (t.row piece).result.map fun row => String.join (row.map Segment.plain)
  markdown : ((t.formatter .markdown).write fuel piece).result =
    (t.row piece).result.map fun row => String.join (row.map Segment.markdown)
  escaped : t.resolve = none → ((t.formatter .markdown).write fuel piece).result =
    ((t.formatter .plain).write fuel piece).result.map Markdown.escape

/-- With fuel for a piece the two modes agree on it, wherever names lead and however deep types are
written. -/
theorem modesAgree (t : TypeText) (piece : Piece) {fuel : Nat} (hfuel : piece.fuel ≤ fuel) :
    t.ModesAgree fuel piece := by
  have hplain := (t.formatter_draws .plain).write hfuel
  have hmarkdown := (t.formatter_draws .markdown).write hfuel
  refine ⟨fun m => ?_, hplain.result, hmarkdown.result, fun hresolve => ?_⟩
  · rw [((t.formatter_draws m).write hfuel).notes]
  · have hescaped := (formatter_draws_of_resolve_none hresolve).write hfuel
    rw [hescaped.result, hplain.result]
    cases (t.row piece).result <;> rfl

/-- A formatter to which every id leads to a page of its own. -/
def onePageEach : TypeText where
  resolve := some fun id _ => id.map fun i => i ++ ".md"

/-- A slice of a type that has an id, behind a reference. -/
def linkedSlice : Value :=
  .object [("borrowed_ref", .object [("lifetime", .str "'a"), ("is_mutable", .bool true),
    ("type", .object [("slice", .object [("resolved_path", .object [("id", .int 7),
      ("path", .str "my_crate::My_Type"), ("args", .null)])])])])]

/-- A slice behind a reference, with a link in it, reads the same in both modes. -/
theorem modesAgree_linkedSlice :
    (Piece.type 0 linkedSlice).fuel ≤ 24 ∧ onePageEach.ModesAgree 24 (.type 0 linkedSlice) :=
  ⟨by decide, modesAgree onePageEach (.type 0 linkedSlice) (by decide)⟩

example : (((onePageEach.formatter .markdown).write 24 (.type 0 linkedSlice)).result).toOption =
    some "&'a mut \\[[My\\_Type](7.md)\\]" := by decide +kernel

end TypeText

end CrateBook
