import CrateBook.Proofs.Renderings
import CrateBook.Proofs.Sites
import CrateBook.Proofs.Tables

/-!
# Sessions answer as fresh ones do

Requests leave notes, and a session takes in the notes one by one. What a session is after
some notes is said in one invariant: the site is the one that the session was started on, it
remembers soundly and just the ids that were looked up, and its report is what the notes
come to. One note keeps it, so it holds at any moment of a run, also between two look-ups of
one step. From it follows that no answer tells what was asked before.
-/
namespace CrateBook

/-- The id that a note says was looked up. -/
def Note.asked? : Note → Option Id
  | asked id _ => some id
  | _ => none

/-- The ids that notes say were looked up. -/
def askedIn (notes : List Note) : List Id := notes.filterMap Note.asked?

theorem askedIn_append (ns ms : List Note) : askedIn (ns ++ ms) = askedIn ns ++ askedIn ms :=
  List.filterMap_append

theorem mem_askedIn_singleton {n : Note} {id : Id} :
    id ∈ askedIn [n] ↔ n.asked? = some id := by
  cases h : n.asked? <;> simp [askedIn, h, eq_comm]

namespace Site

variable {s : Site}

/-- An id is missing if neither index holds it. -/
theorem locate_eq_missing {id : Id} : s.locate id = .missing ↔
    s.source.items.get? id = none ∧ s.source.external.get? id = none := by
  unfold locate
  cases s.source.items.get? id with
  | none => cases s.source.external.get? id <;> simp
  | some x => cases s.layout.hrefFor id <;> simp

/-! ## What notes do to a report -/

theorem mem_misses_enter {r : Report} {n : Note} {id : Id} :
    id ∈ (s.enter r n).misses.keys ↔
      id ∈ r.misses.keys ∨ n.asked? = some id ∧ s.locate id = .missing := by
  cases n with
  | asked i title =>
    unfold enter
    dsimp only
    cases hi : s.locate i with
    | target t =>
      have hne : ¬(i = id ∧ s.locate id = .missing) := by
        rintro ⟨rfl, hid⟩
        rw [hi] at hid
        cases hid
      simp [Note.asked?, hne]
    | missing =>
      simp only [Report.addMiss, Table.mem_keys_insertNew, Note.asked?, Option.some.injEq]
      constructor
      · rintro (rfl | h)
        · exact .inr ⟨rfl, hi⟩
        · exact .inl h
      · rintro (h | ⟨rfl, -⟩)
        · exact .inr h
        · exact .inl rfl
  | _ => simp [enter, Report.addUnsupported, Note.asked?]

theorem mem_misses_enterAll {r : Report} {notes : List Note} {id : Id} :
    id ∈ (s.enterAll r notes).misses.keys ↔
      id ∈ r.misses.keys ∨ id ∈ askedIn notes ∧ s.locate id = .missing := by
  induction notes generalizing r with
  | nil => simp [enterAll, askedIn]
  | cons n ns ih =>
    have hstep : s.enterAll r (n :: ns) = s.enterAll (s.enter r n) ns := rfl
    rw [hstep, ih, mem_misses_enter, ← List.singleton_append, askedIn_append, List.mem_append,
      mem_askedIn_singleton]
    tauto

theorem enter_recalling (m : Memory) (r : Report) (n : Note) :
    (s.recalling m).enter r n = s.enter r n := by
  cases n with
  | asked id title =>
    unfold enter
    dsimp only
    rw [locate_recalling]
  | _ => rfl

/-- An id that the report has already is not entered again. -/
theorem enter_of_mem {r : Report} {id : Id} (title : String)
    (h : s.locate id = .missing → id ∈ r.misses.keys) : s.enter r (.asked id title) = r := by
  unfold enter
  dsimp only
  cases hid : s.locate id with
  | target t => rfl
  | missing =>
    obtain ⟨w, hw⟩ := Table.mem_keys_iff.1 (h hid)
    have hmiss : r.misses.contains id = true := Option.isSome_iff_exists.2 ⟨w, hw⟩
    simp [Report.addMiss, Table.insertNew, hmiss]

/-! ## What notes do to a memory -/

theorem recalling_remember (n : Note) (m : Memory) :
    (s.remember n).recalling m = s.recalling m := by
  cases n <;> rfl

theorem mem_targets_remember {n : Note} {id : Id} :
    id ∈ (s.remember n).memory.targets.keys ↔
      id ∈ s.memory.targets.keys ∨ n.asked? = some id := by
  cases n with
  | asked i title =>
    simp only [remember, memory_recalling, Table.mem_keys_insertNew, Note.asked?,
      Option.some.injEq]
    rw [or_comm, eq_comm]
  | _ => simp [remember, Note.asked?]

/-- What is remembered anew is what the site works out. -/
theorem Sound.remember (h : s.Sound) (n : Note) : (s.remember n).Sound := by
  cases n with
  | asked i title =>
    refine ⟨fun id t ht => ?_, h.groups⟩
    rw [Site.remember, memory_recalling, Table.get?_insertNew] at ht
    rw [Site.remember]
    simp only [resolve_recalling]
    split at ht
    · next hid =>
      obtain rfl := Option.some.inj ht
      exact ⟨title, by rw [hid.1]⟩
    · exact h.targets id t ht
  | classified typeId =>
    refine ⟨fun id t ht => ?_, fun i g hg => ?_⟩
    · obtain ⟨title, ht⟩ := h.targets id t ht
      exact ⟨title, by rw [ht, Site.remember, resolve_recalling]⟩
    · rw [Site.remember, memory_recalling, Table.get?_insertNew] at hg
      split at hg
      · next hi =>
        obtain rfl := Option.some.inj hg
        rw [hi.1]
        rfl
      · exact h.groups i g hg
  | _ => exact h

end Site

namespace Session

/-- The notes that some requests leave, one request after the other. -/
def notesAll (s : Session) : List Request → List Note
  | [] => []
  | q :: qs => (s.respond q).notes ++ (s.ask q).2.notesAll qs

theorem takeAll_append (s : Session) (ns ms : List Note) :
    s.takeAll (ns ++ ms) = (s.takeAll ns).takeAll ms :=
  List.foldl_append

/-- A session after some requests has taken in the notes that they left. -/
theorem after_eq_takeAll (s : Session) (qs : List Request) :
    s.after qs = s.takeAll (s.notesAll qs) := by
  induction qs generalizing s with
  | nil => rfl
  | cons q qs ih =>
    rw [notesAll, takeAll_append]
    exact ih (s.ask q).2

/-- A session that was started on a site and took in some notes. -/
structure Took (s : Site) (notes : List Note) (now : Session) : Prop where
  site : now.site.recalling {} = s.recalling {}
  sound : now.site.Sound
  known : ∀ id, id ∈ now.site.memory.targets.keys ↔ id ∈ askedIn notes
  report : now.report = s.enterAll s.startReport notes

theorem took_start (s : Site) : Took s [] (start s) where
  site := rfl
  sound := s.sound_recalling_empty
  known _ := Iff.rfl
  report := rfl

namespace Took

variable {s : Site} {notes : List Note} {now : Session} (h : Took s notes now)

include h

theorem resolve_eq (id : Id) (title : String) :
    now.site.resolve id title = s.resolve id title := by
  rw [← Site.resolve_recalling {} id, h.site, Site.resolve_recalling]

theorem enter_eq (r : Report) (n : Note) : now.site.enter r n = s.enter r n := by
  rw [← Site.enter_recalling {} r, h.site, Site.enter_recalling]

theorem mem_misses {id : Id} :
    id ∈ now.report.misses.keys ↔ id ∈ askedIn notes ∧ s.locate id = .missing := by
  have hstart : id ∉ s.startReport.misses.keys := List.not_mem_nil
  rw [h.report, Site.mem_misses_enterAll]
  exact or_iff_right hstart

/-- The report of a session learns of a note what a report without a session does: what is
known was entered before. -/
theorem report_take (n : Note) : (now.take n).report = s.enter now.report n := by
  have htake : (now.take n).report =
      if now.site.isKnown n then now.report else now.site.enter now.report n := rfl
  rw [htake, h.enter_eq]
  split
  · next hknown =>
    cases n with
    | asked id title =>
      obtain ⟨t, ht⟩ := Option.isSome_iff_exists.1 hknown
      have hasked : id ∈ askedIn notes := (h.known id).1 (Table.mem_keys_iff.2 ⟨t, ht⟩)
      exact (Site.enter_of_mem title fun hid => h.mem_misses.2 ⟨hasked, hid⟩).symm
    | _ => cases hknown
  · rfl

/-- One more note. -/
theorem take (n : Note) : Took s (notes ++ [n]) (now.take n) where
  site := (Site.recalling_remember n {}).trans h.site
  sound := h.sound.remember n
  known id := by
    rw [askedIn_append, List.mem_append, mem_askedIn_singleton, ← h.known]
    exact Site.mem_targets_remember
  report := by
    rw [h.report_take, h.report]
    simp [Site.enterAll]

/-- Any number of notes. -/
theorem takeAll (more : List Note) : Took s (notes ++ more) (now.takeAll more) := by
  induction more generalizing notes now with
  | nil => simpa [Session.takeAll] using h
  | cons n ns ih =>
    rw [List.append_cons]
    exact ih (h.take n)

/-- A step gives what it gives on a fresh session, and leaves the same notes. -/
theorem render_eq (r : Rendering) : now.site.render r = (start s).site.render r := by
  rw [← h.sound.render_recalling, h.site]
  rfl

end Took

/-- A session after the look-ups of some ids answers as a fresh one does, and reports the missing
ones of them. -/
structure Faithful (now fresh : Session) (asked : List Id) : Prop where
  /-- A step has the same text, links and notes, or breaks off in the same way. -/
  rendering : ∀ r, now.respond (.rendering r) = fresh.respond (.rendering r)
  /-- An id leads to the same address, whatever the titles. -/
  target : ∀ id title title', ∃ t t',
    (now.respond (.target id title)).result = .ok (.target t) ∧
      (fresh.respond (.target id title')).result = .ok (.target t') ∧
        t.kind = t'.kind ∧ t.href? = t'.href?
  misses : ∀ id, id ∈ now.report.misses.keys ↔ id ∈ asked ∧
    fresh.site.source.items.get? id = none ∧ fresh.site.source.external.get? id = none
  once : now.report.misses.keys.Nodup

theorem Took.faithful {s : Site} {notes : List Note} {now : Session} (h : Took s notes now) :
    now.Faithful (start s) (askedIn notes) where
  rendering := h.render_eq
  target id title title' := by
    cases id with
    | none => exact ⟨.unlinked title, .unlinked title', rfl, rfl, rfl, rfl⟩
    | some id =>
      have hnow : now.site.resolve id "" = s.resolve id "" := h.resolve_eq id ""
      have hfresh : (start s).site.resolve id "" = s.resolve id "" :=
        (took_start s).resolve_eq id ""
      refine ⟨now.site.targetOf id title, (start s).site.targetOf id title', rfl, rfl, ?_, ?_⟩
      · rw [h.sound.kind_targetOf id title "", (took_start s).sound.kind_targetOf id title' "",
          hnow, hfresh]
      · rw [h.sound.href?_targetOf id title "",
          (took_start s).sound.href?_targetOf id title' "", hnow, hfresh]
  misses id := h.mem_misses.trans (and_congr_right fun _ => Site.locate_eq_missing)
  once := now.report.misses.nodup

/-- Rendering does not depend on history: after any requests, and also at any moment between
the look-ups that they make, a session answers as one that was just started, and its report
has the ids that were looked up so far and are in neither index. So it makes no difference
that a step reads what was remembered at its beginning, not at the moment of each look-up. -/
theorem faithful_after (s : Site) (qs : List Request) :
    ((start s).after qs).Faithful (start s) (askedIn ((start s).notesAll qs)) ∧
      ∀ k, ((start s).takeAll (((start s).notesAll qs).take k)).Faithful (start s)
        (askedIn (((start s).notesAll qs).take k)) := by
  rw [after_eq_takeAll]
  exact ⟨((took_start s).takeAll _).faithful, fun k => ((took_start s).takeAll _).faithful⟩

namespace Took

variable {s : Site} {notes : List Note} {now : Session} (h : Took s notes now)

include h

/-- Requests leave the notes that each of them leaves on a fresh session. -/
theorem notesAll_eq (qs : List Request) :
    now.notesAll qs = qs.flatMap fun q => ((start s).respond q).notes := by
  induction qs generalizing notes now with
  | nil => rfl
  | cons q qs ih =>
    have hfirst : (now.respond q).notes = ((start s).respond q).notes := by
      cases q with
      | target id title => cases id <;> rfl
      | rendering r => exact congrArg Noting.notes (h.render_eq r)
      | report => rfl
    have hrest : (now.ask q).2.notesAll qs = qs.flatMap fun q => ((start s).respond q).notes :=
      ih (h.takeAll _)
    rw [notesAll, hfirst, hrest, List.flatMap_cons]

/-- Steps in a row are answered as a fresh session answers each of them. -/
theorem askAll_renderings (rs : List Rendering) :
    now.askAll (rs.map .rendering) = rs.map fun r => ((start s).site.render r).result := by
  induction rs generalizing notes now with
  | nil => rfl
  | cons r rs ih =>
    have hfirst : (now.ask (.rendering r)).1 = ((start s).site.render r).result :=
      congrArg Noting.result (h.render_eq r)
    have hrest : (now.ask (.rendering r)).2.askAll (rs.map .rendering) =
        rs.map fun r => ((start s).site.render r).result := ih (h.takeAll _)
    rw [List.map_cons, askAll, hfirst, hrest, List.map_cons]

end Took

end Session

open Session in
/-- A conversion gives what one session gives that is asked for the documents in turn: the
pages, and the report after the last one. -/
theorem Export.convert_eq_session {x : Export} {o : Options} {c : Conversion}
    (h : x.convert o = .ok c) :
    let pages := c.site.layout.files.map Rendering.document
    (start c.site).askAll (pages.map .rendering) =
        c.documents.map (fun d => .ok (.page d.page)) ∧
      ((start c.site).after (pages.map .rendering)).report = c.report := by
  obtain ⟨s, hplan, h⟩ := Except.bind_eq_ok.1 h
  obtain ⟨ds, hds, h⟩ := Except.bind_eq_ok.1 h
  cases h
  obtain ⟨hall, hnotes⟩ := Noting.mapM_eq_ok hds
  have hrender (plan : FilePlan PageKind) : (start s).site.render (.document plan) =
      s.document plan >>= fun d => pure (.page d.page) := by
    rw [← (Site.planned_of_plan hplan).2.2.sound.document_recalling]
    rfl
  dsimp only
  rw [(took_start s).askAll_renderings, after_eq_takeAll, ((took_start s).takeAll _).report,
    (took_start s).notesAll_eq, List.map_map, List.flatMap_map, List.flatMap_map]
  constructor
  · rw [← List.forall₂_eq_eq_eq, List.forall₂_map_left_iff, List.forall₂_map_right_iff]
    refine hall.imp fun plan d hd => ?_
    rw [Function.comp_apply, hrender, Noting.bind_ok hd, Noting.result_pure]
  · have hleft (plan : FilePlan PageKind) :
        ((start s).respond (.rendering (.document plan))).notes = (s.document plan).notes :=
      (congrArg Noting.notes (hrender plan)).trans (Noting.notes_bind_pure _ _)
    simp only [hleft, List.nil_append, ← hnotes]
    rfl

end CrateBook
