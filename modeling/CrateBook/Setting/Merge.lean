import CrateBook.Setting.Basic

/-!
# Merging settings

One mapping is laid over another. Where both have a mapping under a key, these are merged;
two of the known lists are united; everywhere else the upper value counts. Keys keep their
places, and new ones follow. Elements of united lists become texts; one that can not be written
makes the whole merge fail.
-/
namespace CrateBook.Setting

/-- The lists that are united, by their section and key. -/
def unitedLists : List (String × String) := [("workspace", "packages"), ("noise", "traits")]

/-- The list under a key of a section is united. -/
def isUnited (section_ : Option Scalar) (key : Scalar) : Bool :=
  match section_, key with
  | some (.str s), .str k => unitedLists.contains (s, k)
  | _, _ => false

/-- The texts of two lists, each once, in order. Lists with an element that can not be written
are not united by any merge that succeeds; here they stand one behind the other. -/
def unite (xs ys : List Setting) : Setting :=
  let all := xs ++ ys
  if all.all isWritable then
    list (((all.map text).eraseDups.mergeSort fun a b => a ≤ b).map str)
  else list all

mutual

/-- The value of a key after a value was laid over the old one. -/
def mergeValue (section_ : Option Scalar) (key : Scalar) (old : Option Setting) :
    Setting → Setting
  | mapping es =>
    match old with
    | some (mapping base) => mapping (mergeEntries (some key) base es)
    | _ => mapping es
  | list xs =>
    match old with
    | some (list ys) => if isUnited section_ key then unite ys xs else list xs
    | _ => list xs
  | v => v

/-- The entries of a section after others were laid over them. -/
def mergeEntries (section_ : Option Scalar) (base : List (Scalar × Setting)) :
    List (Scalar × Setting) → List (Scalar × Setting)
  | [] => base
  | (k, v) :: es =>
    mergeEntries section_
      (Entries.put k (mergeValue section_ k (Entries.find? base k) v) base) es

end

/-- One mapping laid over another. -/
def merge (base update : Entries) : Entries := mergeEntries none base update

mutual

/-- The value can be laid over the old one. Lists that are united need elements that can be
written. -/
def fitsValue (section_ : Option Scalar) (key : Scalar) (old : Option Setting) : Setting → Bool
  | mapping es =>
    match old with
    | some (mapping base) => fitsEntries (some key) base es
    | _ => true
  | list xs =>
    match old with
    | some (list ys) => !isUnited section_ key || (ys ++ xs).all isWritable
    | _ => true
  | _ => true

/-- The entries can be laid over those of a section. -/
def fitsEntries (section_ : Option Scalar) (base : List (Scalar × Setting)) :
    List (Scalar × Setting) → Bool
  | [] => true
  | (k, v) :: es =>
    fitsValue section_ k (Entries.find? base k) v && fitsEntries section_ base es

end

/-- The entries of a section with others laid over them. -/
def overlay (section_ : Option Scalar) (base update : Entries) : Checked Entries :=
  if fitsEntries section_ base update then .ok (mergeEntries section_ base update)
  else .error .notANumber

theorem overlay_eq_ok {section_ : Option Scalar} {base update merged : Entries} :
    overlay section_ base update = .ok merged ↔
      fitsEntries section_ base update = true ∧ mergeEntries section_ base update = merged := by
  unfold overlay
  split <;> simp [*]

/-- One setting laid over another, in a section or outside of all. Only mappings can be laid
over something, and over a list only one without entries. -/
def mergeSettings (section_ : Option Scalar) (base update : Setting) : Checked Setting :=
  match base, update with
  | mapping es, mapping us => do return mapping (← overlay section_ es us)
  | list xs, mapping [] => .ok (list xs)
  | list _, mapping _ => .error .wrongKind
  | _, _ => .error .noSuchField

end CrateBook.Setting
