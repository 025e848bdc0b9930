import CrateBook.Export.Reader
import CrateBook.Proofs.Readable
import CrateBook.Proofs.ShownMembers

/-!
# Entries of an index

An index lists values under keys. An entry makes an item if its value is an object and it has an
id, which its value gives or else its key; of several entries with one id the last one counts.
Under this id the item that is read from the value is found.
-/
namespace CrateBook.Export

open Checked

/-- The id of the item that an entry of an index makes, and the members of its value. -/
def recordOf? (e : String × Value) : Option (Id × List (String × Value)) :=
  match e.2 with
  | .object ms =>
    ((Id.ofValue? (Payload.part ms "id")).or (Id.ofValue? (.str e.1))).map fun id => (id, ms)
  | _ => none

/-- The entries of an index that make items. -/
def entries (index : List (String × Value)) : List (Id × List (String × Value)) :=
  index.filterMap recordOf?

/-- The entries that count: the last ones of their ids. -/
def indexed (index : List (String × Value)) : Table Id (List (String × Value)) :=
  .ofList (entries index)

/-- The item that an entry makes, if its value can be read. -/
def itemOf? (e : Id × List (String × Value)) : Option Item := (Item.read e.1 e.2).toOption

theorem itemOf?_eq_some {e : Id × List (String × Value)} {y : Item} :
    itemOf? e = some y ↔ Item.read e.1 e.2 = .ok y := by
  unfold itemOf?
  cases Item.read e.1 e.2 <;> simp [Except.toOption]

section

variable {xs xs' : Items} {index : List (String × Value)}

theorem readItems_cons_of_none {e : String × Value} (h : recordOf? e = none) :
    readItems xs (e :: index) = readItems xs index := by
  obtain ⟨key, raw⟩ := e
  cases raw with
  | object ms =>
    simp only [recordOf?, Payload.part, Option.map_eq_none_iff] at h
    simp only [readItems, h]
  | _ => simp only [readItems]

theorem readItems_cons_of_some {e : String × Value} {id : Id} {ms : List (String × Value)}
    (h : recordOf? e = some (id, ms)) :
    readItems xs (e :: index) = (do readItems (xs.insert (← Item.read id ms)) index) := by
  obtain ⟨key, raw⟩ := e
  cases raw with
  | object ms' =>
    simp only [recordOf?, Payload.part, Option.map_eq_some_iff] at h
    obtain ⟨id', hid, heq⟩ := h
    cases heq
    simp only [readItems, hid]
  | _ => cases h

/-- An index is read if the value of each entry that makes an item can be read. -/
theorem readsIff_readItems : ReadsIff (readItems xs index)
    (∀ e ∈ entries index, Item.fits e.2 = true) := by
  induction index generalizing xs with
  | nil => exact (readsIff_ok xs).congr (by simp [entries])
  | cons e index ih =>
    cases he : recordOf? e with
    | none =>
      rw [readItems_cons_of_none he]
      exact ih.congr (by rw [entries, entries, List.filterMap_cons_none he])
    | some entry =>
      rw [readItems_cons_of_some he]
      refine (Item.readsIff_read.bind fun _ _ => ih).congr ?_
      rw [entries, entries, List.filterMap_cons_some he, List.forall_mem_cons]

/-- The items that are read are those that the entries make. -/
theorem eq_of_readItems (h : readItems xs index = .ok xs') :
    xs' = ((entries index).filterMap itemOf?).foldl Items.insert xs := by
  induction index generalizing xs with
  | nil =>
    cases h
    rfl
  | cons e index ih =>
    cases he : recordOf? e with
    | none =>
      rw [readItems_cons_of_none he] at h
      rw [ih h, entries, entries, List.filterMap_cons_none he]
    | some entry =>
      rw [readItems_cons_of_some he] at h
      obtain ⟨y, hy, h⟩ := Except.bind_eq_ok.1 h
      rw [ih h, entries, entries, List.filterMap_cons_some he,
        List.filterMap_cons_some (itemOf?_eq_some.2 hy), List.foldl_cons]

/-- Items that are added one by one are found where their entries are. -/
theorem get?_foldl_insert {es : List (Id × List (String × Value))}
    {t : Table Id (List (String × Value))} (hfits : ∀ e ∈ es, Item.fits e.2 = true)
    (hxs : ∀ id, xs.get? id = (t.get? id).bind fun raw => itemOf? (id, raw)) (id : Id) :
    ((es.filterMap itemOf?).foldl Items.insert xs).get? id =
      ((es.foldl (fun t e => t.insert e.1 e.2) t).get? id).bind fun raw => itemOf? (id, raw) := by
  induction es generalizing xs t with
  | nil => exact hxs id
  | cons e es ih =>
    obtain ⟨y, hy⟩ := Item.exists_read e.1 (hfits e List.mem_cons_self)
    rw [List.filterMap_cons_some (itemOf?_eq_some.2 hy), List.foldl_cons, List.foldl_cons]
    refine ih (fun e' he' => hfits e' (List.mem_cons_of_mem _ he')) fun i => ?_
    rw [Items.get?_insert, Table.get?_insert, Item.id_read hy]
    by_cases hi : i = e.1
    · rw [if_pos hi, if_pos hi, hi]
      exact (itemOf?_eq_some.2 hy).symm
    · rw [if_neg hi, if_neg hi, hxs]

/-- Under an id the item is found that is read from the last entry with this id. -/
theorem get?_of_readItems (h : readItems .empty index = .ok xs) (id : Id) :
    xs.get? id = ((indexed index).get? id).bind fun raw => itemOf? (id, raw) := by
  rw [eq_of_readItems h]
  exact get?_foldl_insert (readsIff_readItems.ok.1 ⟨xs, h⟩) (fun _ => rfl) id

theorem contains_of_readItems (h : readItems .empty index = .ok xs) (id : Id) :
    xs.contains id = (indexed index).contains id := by
  rw [Items.contains, get?_of_readItems h, Table.contains]
  cases hraw : (indexed index).get? id with
  | none => rfl
  | some raw =>
    have hmem := Table.mem_of_get?_ofList hraw
    obtain ⟨y, hy⟩ := Item.exists_read id (readsIff_readItems.ok.1 ⟨xs, h⟩ _ hmem)
    rw [Option.bind_some, itemOf?_eq_some.2 hy]
    rfl

/-- The items of an index are those that its entries make that count. -/
theorem mem_toList_of_readItems (h : readItems .empty index = .ok xs) {y : Item} :
    y ∈ xs.toList ↔ ∃ id raw, (indexed index).get? id = some raw ∧ Item.read id raw = .ok y := by
  rw [Items.mem_toList, get?_of_readItems h]
  constructor
  · intro hy
    obtain ⟨raw, hraw, hy⟩ := Option.bind_eq_some_iff.1 hy
    exact ⟨y.id, raw, hraw, itemOf?_eq_some.1 hy⟩
  · rintro ⟨id, raw, hraw, hy⟩
    rw [Item.id_read hy, hraw, Option.bind_some, itemOf?_eq_some.2 hy]

end

end CrateBook.Export
