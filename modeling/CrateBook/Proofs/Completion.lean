import CrateBook.Conversion
import CrateBook.Proofs.Coverage
import CrateBook.Proofs.Declared
import CrateBook.Proofs.ExportGate
import CrateBook.Proofs.Lookups
import CrateBook.Proofs.Numerals
import CrateBook.Proofs.Readings

/-!
# Conversions that come to their end

Ids that lead nowhere, kinds that are not known, names that clash, owners and re-exports that lead
back to themselves and modules without names stop no conversion. An export that was read, whose
types follow the schema and whose ids can be ordered, is converted in every mode, with or without
its private items, and every look-up on the way finds something.

Ids of decimal digits are ordered as numbers, and a number of more digits than are read has no
place in the order. A block with such an id is read, but its export cannot be converted.
-/
namespace CrateBook

/-- An id of decimal digits, or one with a character that is no digit. -/
def Id.Plain (id : Id) : Prop :=
  (∀ c ∈ id.toList, Text.isDecimal c = true) ∨ ∃ c ∈ id.toList, Text.isDigit c = false

/-- An id of decimal digits has no more of them than are read. -/
def Id.Short (id : Id) : Prop :=
  (∀ c ∈ id.toList, Text.isDecimal c = true) → id.toList.length ≤ Text.maxDigits

theorem Id.isSome_key? {id : Id} (hplain : id.Plain) (hshort : id.Short) :
    (key? id).isSome = true := by
  rcases hplain with hdecimal | hother
  · exact (isSome_key?_iff hdecimal).2 (hshort hdecimal)
  · exact isSome_key?_of_not_isDigit hother

namespace Export

/-- An export whose ids can be ordered, whose types follow the schema and whose root is known is
planned and converted. -/
theorem exists_convert {x : Export} (hordered : x.Ordered) (hroot : x.Knows x.package.rootId)
    (hschema : x.FollowsSchema) (o : Options) :
    ∃ s c, Site.plan x o = .ok s ∧ x.convert o = .ok c := by
  obtain ⟨y, hy⟩ := hroot
  obtain ⟨s, hs⟩ := Site.exists_plan hordered (Items.mem_ids_of_get? hy) o
  obtain ⟨rfl, -, hplanned⟩ := Site.planned_of_plan hs
  obtain ⟨ds, hds⟩ :=
    hplanned.leaves_documents.ends (Site.writable_of_followsSchema hschema ⟨y, hy⟩)
  exact ⟨s, _, hs, Except.bind_eq_ok.2 ⟨s, hs, Except.bind_eq_ok.2 ⟨ds, hds, rfl⟩⟩⟩

/-- **Completion.** An export that was read, whose ids can be ordered and whose types follow the
schema, is converted, whatever the mode and the policy, and all look-ups find something. -/
theorem completes {text : String} {x : Export} (hparse : parse text = .ok x)
    (hplain : ∀ id ∈ x.items.ids, id.Plain) (hshort : ∀ id ∈ x.items.ids, id.Short)
    (hschema : x.FollowsSchema) (o : Options) :
    ∃ s c, Site.plan x o = .ok s ∧ s.FindsAll ∧ x.convert o = .ok c := by
  have hroot : x.Knows x.package.rootId :=
    Option.isSome_iff_exists.1 (package_of_parse hparse).2
  have hordered : x.Ordered := fun id hid => Id.isSome_key? (hplain id hid) (hshort id hid)
  obtain ⟨s, c, hs, hc⟩ := exists_convert hordered hroot hschema o
  obtain ⟨rfl, -, hplanned⟩ := Site.planned_of_plan hs
  exact ⟨s, c, hs, hplanned.findsAll hroot, hc⟩

/-- The parameter of a function, with its bound. -/
def gapParam : Value := .object [("name", .str "T"), ("kind", .object [("type", .object [("bounds",
  .list [.object [("trait_bound", .object [("trait", .object
    [("path", .str "Clone"), ("id", .int 8)])])]])])])]

/-- A crate with a function, a re-export of itself, an item of a kind that is not known and without
a name, and ids that lead nowhere. -/
def gapExport : Export := Sample.crate [
  Sample.module "0" "demo" ["1", "2", "3", "9"],
  Sample.item "1" "function" (some "fill") (.function
    { inputs := [("cell", .object [("generic", .str "T")])], output := .null
      generics := { params := [gapParam] } }),
  Sample.reexport "2" "a" "a" (some "2"),
  Sample.item "3" "gadget" none (.unknown "gadget" (.object []))]

def gapText : String := Sample.text [
  ("0", Sample.moduleEntry "demo" [1, 2, 3, 9]),
  ("1", Sample.publicEntry "fill" "function" (.object [
    ("sig", .object [("inputs", .list [.list [.str "cell", .object [("generic", .str "T")]]])]),
    ("generics", .object [("params", .list [gapParam])])])),
  ("2", Sample.reexportEntry "a" "a" (.int 2)),
  ("3", Sample.entry [("visibility", .str "public")] "gadget" (.object []))]

set_option maxRecDepth 4000 in
theorem parse_gapText : parse gapText = .ok gapExport :=
  Sample.read_textOf (by decide +kernel) rfl

/-- The crate with gaps is converted. -/
theorem completes_gapExport : parse gapText = .ok gapExport ∧
    (∀ id ∈ gapExport.items.ids, id.Plain) ∧ (∀ id ∈ gapExport.items.ids, id.Short) ∧
    gapExport.FollowsSchema ∧
    ∃ s c, Site.plan gapExport {} = .ok s ∧ s.FindsAll ∧ gapExport.convert {} = .ok c := by
  have hplain : ∀ id ∈ gapExport.items.ids, id.Plain :=
    Sample.forall_ids_crate fun x hx => .inl (List.all_eq_true.1 (by revert x; decide))
  have hlength : ∀ id ∈ gapExport.items.ids, id.toList.length ≤ 1 :=
    Sample.forall_ids_crate (by decide)
  have hshort : ∀ id ∈ gapExport.items.ids, id.Short :=
    fun id hid _ => Nat.le_trans (hlength id hid) (by decide)
  have hschema : gapExport.FollowsSchema := Sample.forall_crate (by decide)
  exact ⟨parse_gapText, hplain, hshort, hschema, completes parse_gapText hplain hshort hschema {}⟩

/-- Of an export that is converted, the ids of all blocks for types have a place in the order. -/
theorem isSome_key?_of_convert {x : Export} {o : Options} {c : Conversion}
    (h : x.convert o = .ok c) {id : Id} {b : ImplBody} (hb : (id, b) ∈ x.impls)
    (htarget : b.target?.isSome = true) : (Id.key? id).isSome = true := by
  obtain ⟨s, hs, -⟩ := Except.bind_eq_ok.1 h
  obtain ⟨layout, -, hs⟩ := Except.bind_eq_ok.1 hs
  obtain ⟨⟨⟩, hkeys, -⟩ := Except.bind_eq_ok.1 hs
  unfold checkImpls Id.checkKeys at hkeys
  split at hkeys
  · next hall =>
    exact List.all_eq_true.1 hall id (List.mem_map_of_mem (f := Prod.fst)
      (List.mem_filter.2 ⟨hb, htarget⟩))
  · cases hkeys

/-- A block for a type that leads nowhere, as a value. -/
def blockValue : List (String × Value) :=
  [("inner", .object [("impl", .object [("for", .object
    [("resolved_path", .object [("id", .int 5)])])])])]

/-- A module without items, as a value. -/
def emptyModuleValue : List (String × Value) := [("inner", .object [("module", .object [])])]

/-- A document with a block of a given id. -/
def blockDocument (id : Id) : List (String × Value) :=
  [("index", .object [(id, .object blockValue), ("0", .object emptyModuleValue)]),
    ("format_version", .int 56), ("root", .int 0)]

def blockBody : ImplBody where
  forType := .object [("resolved_path", .object [("id", .int 5)])]
  traitRef := none
  items := []
  generics := {}
  blanket := .null

/-- The block of a given id. -/
def blockItem (id : Id) : Item := Sample.item id "impl" none (.impl blockBody) .default

def emptyModule : Item := Sample.item "0" "module" none (.module { items := [] }) .default

def blockExport (id : Id) : Export where
  package :=
    { name := "crate", version := .null, rootId := "0", includesPrivate := false
      formatVersion := 56 }
  items := (Items.empty.insert (blockItem id)).insert emptyModule
  external := .empty
  owners := .empty
  containers := .empty

section

variable {id : Id} (hne : id ≠ "0")

include hne

theorem toList_blockExport : (blockExport id).items.toList = [blockItem id, emptyModule] := by
  have hid : (blockItem id).id ≠ emptyModule.id := hne
  simp [blockExport, Items.toList, Items.insert, Items.empty, Table.insert, Table.values,
    Table.empty, setEntry, hid]

theorem ofDocument_blockDocument (hvalue : Id.ofValue? (.str id) = some id) :
    ofDocument (.object (blockDocument id)) = .ok (blockExport id) := by
  have hpasses : Passes (blockDocument id) := by
    refine ⟨rfl, _, "0", emptyModuleValue, [("module", .object [])], rfl, rfl, ?_, rfl, rfl⟩
    have hkey : ("0" == id) = false := by simpa using Ne.symm hne
    rw [List.lookup_cons, hkey]
    rfl
  have hitems : readItems .empty [(id, .object blockValue), ("0", .object emptyModuleValue)] =
      .ok (blockExport id).items := by
    have hblock : recordOf? (id, .object blockValue) = some (id, blockValue) := by
      rw [recordOf?, hvalue]
      rfl
    have hbare : recordOf? ("0", .object emptyModuleValue) = some ("0", emptyModuleValue) := rfl
    rw [readItems_cons_of_some hblock]
    refine Except.bind_eq_ok.2 ⟨blockItem id, rfl, ?_⟩
    rw [readItems_cons_of_some hbare]
    exact Except.bind_eq_ok.2 ⟨emptyModule, rfl, rfl⟩
  have howners : readOwners (.empty, .empty) (blockExport id).items.toList =
      .ok (.empty, .empty) := by
    rw [toList_blockExport hne]
    rfl
  have hroot : (blockExport id).items.get? "0" = some emptyModule := by
    simp [blockExport, emptyModule]
  rw [ofDocument_eq_of_passes hpasses, build]
  refine Except.bind_eq_ok.2 ⟨_, rfl, Except.bind_eq_ok.2 ⟨_, hitems, ?_⟩⟩
  dsimp only
  split
  · next hget => cases hroot.symm.trans hget
  · next root hget =>
    cases hroot.symm.trans hget
    exact Except.bind_eq_ok.2 ⟨_, rfl, Except.bind_eq_ok.2 ⟨_, rfl, Except.bind_eq_ok.2 ⟨_, rfl,
      Except.bind_eq_ok.2 ⟨_, rfl, Except.bind_eq_ok.2 ⟨_, howners, rfl⟩⟩⟩⟩⟩

end

/-- One digit more than numbers are read with. -/
def longKey : List Char := List.replicate (Text.maxDigits + 1) '1'

/-- The id of so many digits. -/
def longId : Id := String.ofList longKey

def emptyModuleText : List Char := "\x7b\"inner\":\x7b\"module\":\x7b\x7d\x7d\x7d".toList

/-- The text of a document with a block, behind its index. -/
def behindIndex : List Char :=
  Json.keyed "format_version".toList ('5' :: '6' :: ',' :: Json.keyed "root".toList ['0', '}'])

/-- The text of the document, behind the block. -/
def behindBlock : List Char :=
  Json.keyed "0".toList (emptyModuleText ++ '}' :: ',' :: behindIndex)

/-- The text of the document, behind the id of the block. -/
def behindId : List Char :=
  "\x7b\"inner\":\x7b\"impl\":\x7b\"for\":
    \x7b\"resolved_path\":\x7b\"id\":5\x7d\x7d\x7d\x7d\x7d".toList ++ ',' :: behindBlock

/-- The characters of a document with a block whose id is that long. -/
def longChars : List Char :=
  '{' :: Json.keyed "index".toList ('{' :: Json.keyed longKey behindId)

/-- The document as a text. -/
def longText : String := String.ofList longChars

theorem toList_longId : longId.toList = longKey := String.toList_ofList

theorem length_longKey : longKey.length = Text.maxDigits + 1 := List.length_replicate

theorem isPlain_longKey : longKey.all Json.isPlain = true := by
  refine List.all_eq_true.2 fun c hc => ?_
  rw [List.eq_of_mem_replicate hc]
  rfl

theorem isDecimal_longId : ∀ c ∈ longId.toList, Text.isDecimal c = true := by
  intro c hc
  rw [toList_longId] at hc
  rw [List.eq_of_mem_replicate hc]
  rfl

theorem ne_longId {id : Id} (h : id.toList.length ≤ Text.maxDigits) : longId ≠ id := by
  rintro rfl
  rw [toList_longId, length_longKey] at h
  exact Nat.not_succ_le_self _ h

theorem length_longChars : longChars.length = 4431 := by
  have hindex : "index".toList.length = 5 := by decide +kernel
  have hbehind : behindId.length = 117 := by decide +kernel
  simp only [longChars, Json.keyed, List.length_cons, List.length_append,
    hindex, hbehind, length_longKey, Text.maxDigits]

/-- The index of the text, with fuel that is left for it. -/
theorem value_longIndex : Json.value 979 4430 ('{' :: Json.keyed longKey behindId) =
    .ok (.object [(longId, .object blockValue), ("0", .object emptyModuleValue)],
      ',' :: behindIndex) := by
  have hblock : Json.value 978 4428 behindId = .ok (.object blockValue, ',' :: behindBlock) :=
    Json.value_eq_ok (by decide +kernel)
  have hbare : Json.value 978 4427 (emptyModuleText ++ '}' :: ',' :: behindIndex) =
      .ok (.object emptyModuleValue, '}' :: ',' :: behindIndex) :=
    Json.value_eq_ok (by decide +kernel)
  have hzero : "0".toList.all Json.isPlain = true := by decide
  have hne : longId ≠ String.ofList "0".toList := ne_longId (by decide)
  rw [Json.value_object, Json.members_more isPlain_longKey rfl [] hblock,
    Json.members_last hzero rfl _ hbare, ← longId, setEntry, setEntry, if_neg hne]
  rfl

/-- The text is read as a document with a block, whatever the length of the block's id. -/
theorem document_longChars : Json.document longChars = .ok (.object (blockDocument longId)) := by
  have hversion : Json.value 979 4429 ('5' :: '6' :: ',' :: Json.keyed "root".toList ['0', '}']) =
      .ok (.int 56, ',' :: Json.keyed "root".toList ['0', '}']) :=
    Json.value_eq_ok (by decide +kernel)
  have hroot : Json.value 979 4428 ['0', '}'] = .ok (.int 0, ['}']) :=
    Json.value_eq_ok (by decide +kernel)
  have hkeys : "index".toList.all Json.isPlain = true ∧
      "format_version".toList.all Json.isPlain = true ∧
      "root".toList.all Json.isPlain = true := by decide
  have hvalue : Json.value 980 4432 longChars = .ok (.object (blockDocument longId), []) := by
    rw [longChars, Json.value_object, Json.members_more hkeys.1 rfl [] value_longIndex,
      Json.members_more hkeys.2.1 rfl _ hversion, Json.members_last hkeys.2.2 rfl _ hroot]
    rfl
  have hspace : Json.skipSpace longChars = longChars := rfl
  unfold Json.document
  split
  · next h => cases h
  · rw [length_longChars, hspace, Json.maxDepth, hvalue]
    rfl

theorem parse_longValue : Json.parse longText = .ok (.object (blockDocument longId)) := by
  rw [Json.parse, longText, String.toList_ofList, document_longChars]

theorem parse_longText : parse longText = .ok (blockExport longId) := by
  rw [parse_of_json parse_longValue]
  exact ofDocument_blockDocument (ne_longId (by decide))
    (Id.ofValue?_of_isDecimal isDecimal_longId (ne_longId (by decide)))

/-- With an id of more digits than are read no completion is certain: the document with the long id
is read, all its ids are decimal and it has no types to write but one path, yet its export is not
converted, whatever the mode and the policy. -/
theorem not_completes_longText : parse longText = .ok (blockExport longId) ∧
    (∀ id ∈ (blockExport longId).items.ids, id.Plain) ∧ (blockExport longId).FollowsSchema ∧
    ∀ o c, (blockExport longId).convert o ≠ .ok c := by
  refine ⟨parse_longText, ?_, ?_, fun o c hc => ?_⟩
  · intro id hid
    rcases Table.mem_keys_insert.1 hid with rfl | hid
    · exact .inl (List.all_eq_true.1 (by decide))
    · rcases Table.mem_keys_insert.1 hid with rfl | hid
      · exact .inl isDecimal_longId
      · cases hid
  · exact Items.forall_insert rfl (Items.forall_insert rfl Items.forall_empty)
  · have hne : longId ≠ emptyModule.id := ne_longId (by decide)
    have hblock : (longId, blockBody) ∈ (blockExport longId).impls :=
      mem_impls.2 ⟨blockItem longId, by simp [blockExport, hne, blockItem], rfl⟩
    have hkey := isSome_key?_of_convert hc hblock rfl
    rw [Id.isSome_key?_iff isDecimal_longId, toList_longId, length_longKey] at hkey
    exact Nat.not_succ_le_self _ hkey

end Export

end CrateBook
