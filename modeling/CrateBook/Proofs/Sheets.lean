import CrateBook.Layout.Plan
import CrateBook.Proofs.GivenNames

/-!
# Layouts as lists of sheets

A sheet is one planned file with everything that is planned with it. Each mode lays out the
sheets of a tree one after the other, and look-ups in the layout are look-ups in the sheets:
an item is at the first sheet that shows it.
-/
namespace CrateBook.Layout

/-- A file, whether its target stands there, and the anchors of the items on it. -/
structure Sheet where
  plan : FilePlan PageKind
  owns : Bool
  anchors : Table Id String := .empty

def Sheet.shows (sheet : Sheet) (id : Id) : Bool :=
  sheet.owns && sheet.plan.targetId == id || sheet.anchors.contains id

/-- Adds the file of a sheet and its anchors. -/
def addSheet (l : Planned) (sheet : Sheet) : Planned :=
  placeAll (l.addFile sheet.plan sheet.owns) sheet.plan sheet.anchors

section

variable {l : Planned} {plan : FilePlan PageKind}

theorem placeAll_induction {P : Planned → Prop} (anchors : Table Id String)
    (h : P l) (step : ∀ l id a, P l → P (l.placeAnchor id plan a)) :
    P (placeAll l plan anchors) := by
  unfold placeAll
  generalize anchors.entries = es
  induction es generalizing l with
  | nil => exact h
  | cons e es ih => exact ih (step l e.1 e.2 h)

theorem fileFor_placeAll (anchors : Table Id String) (id : Id) :
    (placeAll l plan anchors).fileFor id =
      (l.fileFor id).or (if anchors.contains id then some plan else none) := by
  have hcontains : anchors.contains id = true ↔ id ∈ anchors.entries.map Prod.fst := by
    rw [Table.contains, Option.isSome_iff_exists, ← Table.mem_keys_iff, Table.keys]
  simp only [hcontains, placeAll]
  generalize anchors.entries = es
  induction es generalizing l with
  | nil => simp
  | cons e es ih =>
    have hstep : (l.placeAnchor e.1 plan e.2).fileFor id =
        (l.fileFor id).or (if id = e.1 then some plan else none) := Table.insertNew_or ..
    rw [List.foldl_cons, ih, hstep, Option.or_assoc]
    congr 1
    by_cases hid : id = e.1
    · simp [hid]
    · simp only [hid, if_false, Option.none_or, List.map_cons, List.mem_cons, false_or]

theorem anchorFor_placeAll (anchors : Table Id String) (id : Id) :
    (placeAll l plan anchors).anchorFor id = (l.anchorFor id).or (anchors.get? id) := by
  have hget : anchors.get? id = anchors.entries.lookup id := rfl
  rw [hget]
  unfold placeAll
  generalize anchors.entries = es
  induction es generalizing l with
  | nil => simp
  | cons e es ih =>
    have hstep : (l.placeAnchor e.1 plan e.2).anchorFor id =
        (l.anchorFor id).or (if id = e.1 then some e.2 else none) := Table.insertNew_or ..
    rw [List.foldl_cons, ih, hstep, Option.or_assoc, List.lookup_cons]
    congr 1
    by_cases hid : id = e.1
    · simp [hid]
    · have hbeq : (id == e.1) = false := by simpa using hid
      simp [hid, hbeq]

end

section

variable (l : Planned) (sheet : Sheet)

theorem files_addSheet : (addSheet l sheet).files = l.files ++ [sheet.plan] :=
  placeAll_induction (P := fun k => k.files = l.files ++ [sheet.plan]) _ rfl
    fun _ _ _ h => h

theorem fileAt_addSheet (path : String) : (addSheet l sheet).fileAt path =
    if path = sheet.plan.path then some sheet.plan else l.fileAt path :=
  placeAll_induction (P := fun k => k.fileAt path =
    if path = sheet.plan.path then some sheet.plan else l.fileAt path) _
    (Table.get?_insert ..) fun _ _ _ h => h

theorem fileFor_addSheet (id : Id) : (addSheet l sheet).fileFor id =
    (l.fileFor id).or (if sheet.shows id then some sheet.plan else none) := by
  have hown : (l.addFile sheet.plan sheet.owns).fileFor id = (l.fileFor id).or
      (if sheet.owns && sheet.plan.targetId == id then some sheet.plan else none) := by
    unfold addFile fileFor
    cases sheet.owns with
    | false => simp
    | true => simp only [if_true, Table.insertNew_or, Bool.true_and, beq_iff_eq, @eq_comm _ id]
  rw [addSheet, fileFor_placeAll, hown, Option.or_assoc, Sheet.shows]
  congr 1
  cases sheet.owns && sheet.plan.targetId == id <;> simp

theorem anchorFor_addSheet (id : Id) : (addSheet l sheet).anchorFor id =
    (l.anchorFor id).or (sheet.anchors.get? id) := anchorFor_placeAll _ _

end

section

variable (l : Planned) (sheets : List Sheet)

theorem files_sheets : (sheets.foldl addSheet l).files = l.files ++ sheets.map (·.plan) := by
  induction sheets generalizing l with
  | nil => simp
  | cons sheet sheets ih => simp [ih, files_addSheet]

/-- Sheets have no say in how files are linked. -/
theorem urlOf_sheets (plan : FilePlan PageKind) :
    (sheets.foldl addSheet l).urlOf plan = l.urlOf plan := by
  induction sheets generalizing l with
  | nil => rfl
  | cons sheet sheets ih =>
    rw [List.foldl_cons, ih]
    exact placeAll_induction (P := fun k => k.urlOf plan = l.urlOf plan) _ rfl fun _ _ _ h => h

/-- An item is in the file of the first sheet that shows it. -/
theorem fileFor_sheets (id : Id) : (sheets.foldl addSheet l).fileFor id =
    (l.fileFor id).or ((sheets.find? (·.shows id)).map (·.plan)) := by
  induction sheets generalizing l with
  | nil => simp
  | cons sheet sheets ih =>
    rw [List.foldl_cons, ih, fileFor_addSheet, Option.or_assoc, List.find?_cons]
    congr 1
    cases sheet.shows id <;> simp

/-- An item has the anchor that the first sheet has for it. -/
theorem anchorFor_sheets (id : Id) : (sheets.foldl addSheet l).anchorFor id =
    (l.anchorFor id).or (sheets.findSome? fun sheet => sheet.anchors.get? id) := by
  induction sheets generalizing l with
  | nil => simp
  | cons sheet sheets ih =>
    rw [List.foldl_cons, ih, anchorFor_addSheet, Option.or_assoc, List.findSome?_cons]
    congr 1
    cases sheet.anchors.get? id <;> simp

/-- A path leads to a sheet of that path. -/
theorem mem_of_fileAt_sheets {path : String} {plan : FilePlan PageKind}
    (h : (sheets.foldl addSheet l).fileAt path = some plan) :
    l.fileAt path = some plan ∨ ∃ sheet ∈ sheets, sheet.plan = plan ∧ plan.path = path := by
  induction sheets generalizing l with
  | nil => exact .inl h
  | cons sheet sheets ih =>
    rcases ih _ h with hadd | ⟨other, hother, hplan⟩
    · rw [fileAt_addSheet] at hadd
      split at hadd
      · next hpath =>
        obtain rfl := Option.some.inj hadd
        exact .inr ⟨sheet, List.mem_cons_self, rfl, hpath.symm⟩
      · exact .inl hadd
    · exact .inr ⟨other, List.mem_cons_of_mem _ hother, hplan⟩

/-- There is a file at a path if a sheet has the path. -/
theorem isSome_fileAt_sheets (path : String) : ((sheets.foldl addSheet l).fileAt path).isSome =
    ((l.fileAt path).isSome || sheets.any fun sheet => sheet.plan.path == path) := by
  induction sheets generalizing l with
  | nil => simp
  | cons sheet sheets ih =>
    rw [List.foldl_cons, ih, fileAt_addSheet, List.any_cons]
    by_cases hpath : path = sheet.plan.path
    · simp [hpath]
    · have hbeq : (sheet.plan.path == path) = false := by simpa using Ne.symm hpath
      rw [if_neg hpath, hbeq, Bool.false_or]

end

end CrateBook.Layout
