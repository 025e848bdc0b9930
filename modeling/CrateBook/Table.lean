/-!
# Tables that keep their order

A table maps keys to values and lists its entries in the order in which their keys first
came in. Writing an old key changes its value and leaves its place. Keys are distinct: the
type carries the proof.
-/
namespace CrateBook

/-- Entries with `k` set to `v`: in its old place, or at the end. -/
def setEntry {κ α : Type} [DecidableEq κ] (k : κ) (v : α) : List (κ × α) → List (κ × α)
  | [] => [(k, v)]
  | e :: es => if e.1 = k then (k, v) :: es else e :: setEntry k v es

theorem mem_keys_setEntry {κ α : Type} [DecidableEq κ] {k k' : κ} {v : α}
    {es : List (κ × α)} :
    k' ∈ (setEntry k v es).map Prod.fst ↔ k' = k ∨ k' ∈ es.map Prod.fst := by
  induction es with
  | nil => simp [setEntry]
  | cons e es ih =>
    by_cases h : e.1 = k
    · subst h; simp [setEntry]
    · simp only [setEntry, h, if_false, List.map_cons, List.mem_cons, ih]
      constructor <;> (rintro (h | h | h) <;> simp [h])

theorem nodup_setEntry {κ α : Type} [DecidableEq κ] {k : κ} {v : α} {es : List (κ × α)}
    (h : (es.map Prod.fst).Nodup) : ((setEntry k v es).map Prod.fst).Nodup := by
  induction es with
  | nil => simp [setEntry]
  | cons e es ih =>
    simp only [List.map_cons, List.nodup_cons] at h
    by_cases hk : e.1 = k
    · subst hk; simpa [setEntry] using h
    · simp only [setEntry, hk, if_false, List.map_cons, List.nodup_cons]
      refine ⟨fun hm => ?_, ih h.2⟩
      rcases mem_keys_setEntry.1 hm with hm | hm
      · exact hk hm
      · exact h.1 hm

theorem lookup_setEntry {κ α : Type} [DecidableEq κ] {k k' : κ} {v : α}
    {es : List (κ × α)} :
    (setEntry k v es).lookup k' = if k' = k then some v else es.lookup k' := by
  induction es with
  | nil =>
    by_cases h : k' = k
    · simp [setEntry, h]
    · have : (k' == k) = false := by simpa using h
      simp [setEntry, List.lookup_cons, h, this]
  | cons e es ih =>
    obtain ⟨a, b⟩ := e
    by_cases hk : a = k
    · subst hk
      by_cases h : k' = a
      · simp [setEntry, h]
      · have : (k' == a) = false := by simpa using h
        simp [setEntry, List.lookup_cons, h, this]
    · by_cases h : k' = a
      · subst h; simp [setEntry, hk]
      · have : (k' == a) = false := by simpa using h
        simp [setEntry, List.lookup_cons, hk, this, ih]

/-- Entries with distinct keys, in the order in which the keys came in. -/
structure Table (κ α : Type) where
  entries : List (κ × α)
  nodup : (entries.map Prod.fst).Nodup

namespace Table

variable {κ α : Type}

def empty : Table κ α where
  entries := []
  nodup := List.nodup_nil

instance : Inhabited (Table κ α) := ⟨empty⟩

def keys (t : Table κ α) : List κ := t.entries.map Prod.fst

def values (t : Table κ α) : List α := t.entries.map Prod.snd

/-- How many entries there are. -/
def size (t : Table κ α) : Nat := t.entries.length

/-- The values changed one by one, the keys kept. -/
def map {β : Type} (f : α → β) (t : Table κ α) : Table κ β where
  entries := t.entries.map fun e => (e.1, f e.2)
  nodup := by simpa [List.map_map, Function.comp_def] using t.nodup

variable [DecidableEq κ]

/-- The value of a key. -/
def get? (t : Table κ α) (k : κ) : Option α := t.entries.lookup k

def contains (t : Table κ α) (k : κ) : Bool := (t.get? k).isSome

/-- Gives a key a value: in its old place, or at the end. -/
def insert (t : Table κ α) (k : κ) (v : α) : Table κ α where
  entries := setEntry k v t.entries
  nodup := nodup_setEntry t.nodup

/-- Gives a key a value unless it has one. -/
def insertNew (t : Table κ α) (k : κ) (v : α) : Table κ α :=
  if t.contains k then t else t.insert k v

/-- The table of some entries; of several with one key the last one counts. -/
def ofList (es : List (κ × α)) : Table κ α := es.foldl (fun t e => t.insert e.1 e.2) empty

/-- Appends a value to the list that a key has, starting one if there is none. -/
def push {β : Type} (t : Table κ (List β)) (k : κ) (v : β) : Table κ (List β) :=
  t.insert k ((t.get? k).getD [] ++ [v])

@[simp] theorem get?_empty (k : κ) : (empty : Table κ α).get? k = none := rfl

@[simp] theorem get?_insert (t : Table κ α) (k k' : κ) (v : α) :
    (t.insert k v).get? k' = if k' = k then some v else t.get? k' := lookup_setEntry

theorem get?_insertNew (t : Table κ α) (k k' : κ) (v : α) :
    (t.insertNew k v).get? k' = if k' = k ∧ t.get? k = none then some v else t.get? k' := by
  unfold insertNew contains
  cases h : t.get? k with
  | none => by_cases hk : k' = k <;> simp [hk]
  | some w => simp

theorem mem_keys_insert {t : Table κ α} {k k' : κ} {v : α} :
    k' ∈ (t.insert k v).keys ↔ k' = k ∨ k' ∈ t.keys := mem_keys_setEntry

/-- A key is in the table just if something is found under it. -/
theorem mem_keys_iff {t : Table κ α} {k : κ} : k ∈ t.keys ↔ ∃ v, t.get? k = some v := by
  unfold keys get?
  generalize t.entries = es
  induction es with
  | nil => simp
  | cons e es ih =>
    obtain ⟨a, b⟩ := e
    by_cases h : k = a
    · subst h; simp
    · have hb : (k == a) = false := by simpa using h
      simp [List.lookup_cons, hb, h, ih]

end Table

end CrateBook
