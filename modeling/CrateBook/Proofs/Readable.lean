import CrateBook.Export.Item

/-!
# Values that can be read

The readers of an item go through values that may have any form, and end with a fault where a
form is not what they work on. For each reader a condition on the value says when it ends well:
what is run through has to be a list, a text or an object, what has members an object, and a
number has to be readable as one, where the value holds anything at all. None of the readers
finds the export as a whole unusable.
-/
namespace CrateBook

/-- The fault finds the export as a whole unusable. -/
def Fault.isBadExport : Fault → Bool
  | badExport _ => true
  | _ => false

/-- A step ends well exactly under a condition, and finds no export unusable. -/
structure Checked.ReadsIff {α : Type} (x : Checked α) (P : Prop) : Prop where
  ok : (∃ a, x = .ok a) ↔ P
  mild : ∀ f, x ≠ .error (.badExport f)

namespace Checked

variable {α β : Type} {x : Checked α} {f : α → Checked β} {P Q : Prop}

theorem readsIff_ok (a : α) : ReadsIff (.ok a) True :=
  ⟨⟨fun _ => trivial, fun _ => ⟨a, rfl⟩⟩, fun _ => nofun⟩

theorem readsIff_error (fault : Fault) (h : fault.isBadExport = false) :
    ReadsIff (.error fault : Checked α) False where
  ok := ⟨fun ⟨_, h⟩ => (nomatch h), False.elim⟩
  mild f hf := by
    rw [Except.error.inj hf] at h
    exact Bool.noConfusion h

/-- The condition for reading may be put in another way. -/
theorem ReadsIff.congr (h : ReadsIff x P) (hiff : P ↔ Q) : ReadsIff x Q :=
  ⟨h.ok.trans hiff, h.mild⟩

/-- Of two steps the second one is reached if the first one ends well. -/
theorem ReadsIff.bind (hx : ReadsIff x P) (hf : ∀ a, x = .ok a → ReadsIff (f a) Q) :
    ReadsIff (x >>= f) (P ∧ Q) := by
  cases x with
  | error fault =>
    have hP : ¬ P := fun h => nomatch hx.ok.2 h
    exact ⟨⟨fun ⟨_, h⟩ => (nomatch h), fun h => absurd h.1 hP⟩, fun g h =>
      hx.mild g (congrArg _ (Except.error.inj h))⟩
  | ok a =>
    have hfa := hf a rfl
    exact ⟨hfa.ok.trans (and_iff_right (hx.ok.1 ⟨a, rfl⟩)).symm, hfa.mild⟩

/-- What is made of a result does not fail. -/
theorem ReadsIff.map (hx : ReadsIff x P) (g : α → β) :
    ReadsIff (x >>= fun a => pure (g a)) P :=
  (hx.bind fun a _ => readsIff_ok (g a)).congr (and_iff_left trivial)

end Checked

open Checked

namespace Value

/-- The value has members, or holds nothing. -/
def isRecord (v : Value) : Bool :=
  !v.isSet || match v with
    | object _ => true
    | _ => false

/-- The value can be run through, or holds nothing. -/
def isRow (v : Value) : Bool :=
  !v.isSet || match v with
    | list _ => true
    | str _ => true
    | object _ => true
    | _ => false

/-- The value gives a whole number, or holds nothing. -/
def isWhole (v : Value) : Bool :=
  !v.isSet || match v with
    | int _ => true
    | bool _ => true
    | float x => !x.isNaN && !x.isInf
    | str s => (Text.readInt? s).isSome
    | _ => false

/-- The member of a value under a key, null where it has none. -/
def get (v : Value) (k : String) : Value :=
  match v with
  | object ms => Payload.part ms k
  | _ => null

def entries (v : Value) : List (String × Value) :=
  match v with
  | object ms => ms
  | _ => []

variable {v : Value}

theorem orObject_of_isRecord (h : v.isRecord = true) : ∃ ms, v.orObject = object ms ∧
    v.entries = ms ∧ ∀ k, v.get k = Payload.part ms k := by
  cases hset : v.isSet with
  | false =>
    rw [orObject, orElse, hset]
    cases v with
    | object ms =>
      obtain rfl : ms = [] := by simpa [isSet] using hset
      exact ⟨[], rfl, rfl, fun _ => rfl⟩
    | _ => exact ⟨[], rfl, rfl, fun _ => rfl⟩
  | true =>
    rw [orObject, orElse, hset]
    cases v with
    | object ms => exact ⟨ms, rfl, rfl, fun _ => rfl⟩
    | _ => simp [isRecord, hset] at h

theorem orObject_of_not_isRecord (h : v.isRecord = false) : ∀ ms, v.orObject ≠ object ms := by
  intro ms hms
  cases hset : v.isSet with
  | false => simp [isRecord, hset] at h
  | true =>
    rw [orObject, orElse, hset, if_pos rfl] at hms
    simp [isRecord, hms] at h

theorem readsIff_members : ReadsIff v.orObject.members (v.isRecord = true) := by
  cases h : v.isRecord with
  | true =>
    obtain ⟨ms, hms, -⟩ := orObject_of_isRecord h
    rw [hms]
    exact (readsIff_ok ms).congr (by simp)
  | false =>
    refine .congr (P := False) ?_ (by simp)
    unfold members
    split
    · next ms hms => exact absurd hms (orObject_of_not_isRecord h ms)
    · exact readsIff_error .noSuchField rfl

theorem members_eq {ms : List (String × Value)} (h : v.orObject.members = .ok ms) :
    ms = v.entries := by
  have hrecord : v.isRecord = true := readsIff_members.ok.1 ⟨ms, h⟩
  obtain ⟨ms', hms', hentries, -⟩ := orObject_of_isRecord hrecord
  rw [hms'] at h
  rw [hentries]
  exact (Except.ok.inj h).symm

theorem readsIff_field (k : String) : ReadsIff (v.orObject.field k) (v.isRecord = true) := by
  cases h : v.isRecord with
  | true =>
    obtain ⟨ms, hms, -⟩ := orObject_of_isRecord h
    rw [hms]
    exact (readsIff_ok _).congr (by simp)
  | false =>
    refine .congr (P := False) ?_ (by simp)
    unfold field
    split
    · next ms hms => exact absurd hms (orObject_of_not_isRecord h ms)
    · exact readsIff_error .noSuchField rfl

theorem field_eq {k : String} {w : Value} (h : v.orObject.field k = .ok w) : w = v.get k := by
  have hrecord : v.isRecord = true := (readsIff_field k).ok.1 ⟨w, h⟩
  obtain ⟨ms, hms, -, hget⟩ := orObject_of_isRecord hrecord
  rw [hms] at h
  rw [hget]
  exact (Except.ok.inj h).symm

section

variable {α : Type} {Q : Prop}

theorem readsIff_members_bind {f : List (String × Value) → Checked α}
    (hf : ReadsIff (f v.entries) Q) :
    ReadsIff (v.orObject.members >>= f) (v.isRecord = true ∧ Q) :=
  readsIff_members.bind fun _ h => members_eq h ▸ hf

theorem readsIff_field_bind {k : String} {f : Value → Checked α}
    (hf : ReadsIff (f (v.get k)) Q) :
    ReadsIff (v.orObject.field k >>= f) (v.isRecord = true ∧ Q) :=
  (readsIff_field k).bind fun _ h => field_eq h ▸ hf

end

theorem readsIff_elementsOrNone : ReadsIff v.elementsOrNone (v.isRow = true) := by
  unfold elementsOrNone isRow
  cases v.isSet with
  | false => exact (readsIff_ok []).congr (iff_of_true trivial rfl)
  | true =>
    cases v with
    | list xs => exact (readsIff_ok _).congr (iff_of_true trivial rfl)
    | str s => exact (readsIff_ok _).congr (iff_of_true trivial rfl)
    | object ms => exact (readsIff_ok _).congr (iff_of_true trivial rfl)
    | _ => exact (readsIff_error .wrongKind rfl).congr (iff_of_false id nofun)

theorem readsIff_toInt : ReadsIff (v.orElse (.int 0)).toInt (v.isWhole = true) := by
  unfold orElse isWhole
  cases v.isSet with
  | false => exact (readsIff_ok _).congr (by simp)
  | true =>
    cases v with
    | bool b => exact (readsIff_ok _).congr (by simp)
    | int n => exact (readsIff_ok _).congr (by simp)
    | float x =>
      simp only [if_true, toInt, truncate]
      split
      · next hnan =>
        exact (readsIff_error .notANumber rfl).congr (by rw [hnan]; simp)
      · next hnan =>
        rw [eq_false_of_ne_true hnan]
        split
        · next hinf =>
          exact (readsIff_error .unbounded rfl).congr (by rw [hinf]; simp)
        · next hinf =>
          exact (readsIff_ok _).congr (by rw [eq_false_of_ne_true hinf]; simp)
    | str s =>
      simp only [if_true, toInt]
      split
      · next h => exact (readsIff_ok _).congr (by simp [h])
      · next h => exact (readsIff_error .notANumber rfl).congr (by simp [h])
    | _ => exact (readsIff_error .wrongKind rfl).congr (by simp)

end Value

theorem Id.readsIff_listOf {v : Value} : ReadsIff (Id.listOf v) (v.isRow = true) :=
  Value.readsIff_elementsOrNone.map _

theorem Id.readsIff_optionsOf {v : Value} : ReadsIff (Id.optionsOf v) (v.isRow = true) :=
  Value.readsIff_elementsOrNone.map _

def Generics.fits (v : Value) : Bool := (v.get "params").isRow && (v.get "where_predicates").isRow

theorem Generics.readsIff_ofValue {v : Value} :
    ReadsIff (Generics.ofValue v) (Generics.fits v = true) := by
  cases v with
  | object ms =>
    refine .congr (P := (Payload.part ms "params").isRow = true ∧
      (Payload.part ms "where_predicates").isRow = true) ?_ (by simp [fits, Value.get])
    exact Value.readsIff_elementsOrNone.bind fun _ _ => Value.readsIff_elementsOrNone.map _
  | _ => exact (readsIff_ok _).congr (iff_of_true trivial rfl)

namespace Payload

/-- The fields of a shape can be run through. Those with names are members of its body. -/
def shapeFits (named : String) (shape : String × Value) : Bool :=
  if shape.1 == "tuple" then shape.2.isRow
  else if shape.1 == named then shape.2.isRecord && (shape.2.get "fields").isRow
  else true

/-- The members of a body, of a kind, have forms that the kind's reader works on. -/
def bodyFits (tag : String) (body : List (String × Value)) : Bool :=
  let row (k : String) : Bool := (part body k).isRow
  let generics : Bool := Generics.fits (part body "generics")
  match tag with
  | "module" => row "items"
  | "struct" => shapeFits "plain" (shapeOf (part body "kind")) && generics && row "impls"
  | "enum" => row "variants" && generics && row "impls"
  | "variant" => shapeFits "struct" (shapeOf (part body "kind"))
  | "function" =>
    let sig := part body "sig"
    sig.isRecord && (sig.get "inputs").isRow && generics && (part body "header").isRecord
  | "trait" => row "items" && row "bounds" && generics && row "implementations"
  | "type_alias" => generics
  | "constant" => (part body "const").isRecord
  | "impl" => row "items" && generics && row "provided_trait_methods"
  | "proc_macro" => row "helpers"
  | "primitive" => row "impls"
  | "assoc_type" => row "bounds" && generics
  | _ => true

/-- The inner value of an item has a form that can be read. -/
def fits (inner : Value) : Bool :=
  match inner with
  | .object [(tag, .object body)] => bodyFits tag body
  | _ => true

variable {body : List (String × Value)}

/-- The fields with names are members of a shape's body. -/
theorem readsIff_named {α : Type} (inner : Value) {f : List Id → Checked α} {Q : Prop}
    (hf : ∀ ids, ReadsIff (f ids) Q) :
    ReadsIff (do let fields ← Id.listOf (← inner.orObject.field "fields"); f fields)
      (inner.isRecord = true ∧ (inner.get "fields").isRow = true ∧ Q) :=
  Value.readsIff_field_bind (Id.readsIff_listOf.bind fun ids _ => hf ids)

theorem readsIff_readModule : ReadsIff (readModule body) ((part body "items").isRow = true) :=
  Id.readsIff_listOf.map _

theorem readsIff_readStruct : ReadsIff (readStruct body)
    (shapeFits "plain" (shapeOf (part body "kind")) = true ∧
      Generics.fits (part body "generics") = true ∧ (part body "impls").isRow = true) := by
  unfold readStruct
  generalize shapeOf (part body "kind") = shape
  obtain ⟨tag, inner⟩ := shape
  have hrest : ∀ fields stripped, ReadsIff (do
      let generics ← Generics.ofValue (part body "generics")
      return (⟨tag, fields, generics, stripped, ← Id.listOf (part body "impls")⟩ : StructBody))
      (Generics.fits (part body "generics") = true ∧ (part body "impls").isRow = true) :=
    fun _ _ => Generics.readsIff_ofValue.bind fun _ _ => Id.readsIff_listOf.map _
  unfold shapeFits
  dsimp only
  split
  · exact Id.readsIff_optionsOf.bind fun _ _ => hrest _ _
  · split
    · have hnamed := readsIff_named inner fun fields =>
        (Value.readsIff_field (v := inner) "has_stripped_fields").bind fun stripped _ =>
          hrest (fields.map some) stripped.isSet
      refine hnamed.congr ?_
      simp +contextual [and_assoc]
    · exact .congr (hrest [] false) (by simp)

theorem readsIff_readEnum : ReadsIff (readEnum body) ((part body "variants").isRow = true ∧
    Generics.fits (part body "generics") = true ∧ (part body "impls").isRow = true) :=
  Id.readsIff_listOf.bind fun _ _ => Generics.readsIff_ofValue.bind fun _ _ =>
    Id.readsIff_listOf.map _

theorem readsIff_readVariant :
    ReadsIff (readVariant body) (shapeFits "struct" (shapeOf (part body "kind")) = true) := by
  unfold readVariant
  generalize shapeOf (part body "kind") = shape
  obtain ⟨tag, inner⟩ := shape
  unfold shapeFits
  dsimp only
  split
  · exact Id.readsIff_optionsOf.map _
  · split
    · exact .congr (readsIff_named _ fun _ => readsIff_ok _) (by simp)
    · exact .congr (readsIff_ok _) (by simp)

theorem readsIff_readInputs {v : Value} : ReadsIff (readInputs v) (v.isRow = true) :=
  Value.readsIff_elementsOrNone.map _

theorem readsIff_readFunction : ReadsIff (readFunction body)
    ((part body "sig").isRecord = true ∧ ((part body "sig").get "inputs").isRow = true ∧
      Generics.fits (part body "generics") = true ∧ (part body "header").isRecord = true) := by
  refine .congr (Value.readsIff_field_bind <| readsIff_readInputs.bind fun _ _ =>
    Value.readsIff_field_bind <| Generics.readsIff_ofValue.bind fun _ _ =>
    Value.readsIff_field_bind <| Value.readsIff_field_bind <| Value.readsIff_field_bind <|
    Value.readsIff_field_bind <| (Value.readsIff_field _).map _) ?_
  simp +contextual

theorem readsIff_readTrait : ReadsIff (readTrait body)
    ((part body "items").isRow = true ∧ (part body "bounds").isRow = true ∧
      Generics.fits (part body "generics") = true ∧
      (part body "implementations").isRow = true) :=
  Id.readsIff_listOf.bind fun _ _ => Value.readsIff_elementsOrNone.bind fun _ _ =>
    Generics.readsIff_ofValue.bind fun _ _ => Id.readsIff_listOf.map _

theorem readsIff_readConstant :
    ReadsIff (readConstant body) ((part body "const").isRecord = true) :=
  .congr ((Value.readsIff_field _).bind fun _ _ => (Value.readsIff_field _).map _) (by simp)

theorem readsIff_readImpl : ReadsIff (readImpl body) ((part body "items").isRow = true ∧
    Generics.fits (part body "generics") = true ∧
    (part body "provided_trait_methods").isRow = true) :=
  Id.readsIff_listOf.bind fun _ _ => Generics.readsIff_ofValue.bind fun _ _ =>
    Value.readsIff_elementsOrNone.map _

theorem readsIff_readProcMacro :
    ReadsIff (readProcMacro body) ((part body "helpers").isRow = true) :=
  Value.readsIff_elementsOrNone.map _

theorem readsIff_readAssocType : ReadsIff (readAssocType body)
    ((part body "bounds").isRow = true ∧ Generics.fits (part body "generics") = true) :=
  Value.readsIff_elementsOrNone.bind fun _ _ => Generics.readsIff_ofValue.map _

/-- A body is read if its members have forms that its kind's reader works on. -/
theorem readsIff_ofBody (tag : String) : ReadsIff (ofBody tag body) (bodyFits tag body = true) := by
  unfold ofBody
  split
  · exact readsIff_readModule.map _
  · exact (readsIff_readStruct.map _).congr (by simp [bodyFits, and_assoc])
  · exact (readsIff_readEnum.map _).congr (by simp [bodyFits, and_assoc])
  · exact readsIff_readVariant.map _
  · exact (readsIff_readFunction.map _).congr (by simp [bodyFits, and_assoc])
  · exact (readsIff_readTrait.map _).congr (by simp [bodyFits, and_assoc])
  · exact Generics.readsIff_ofValue.map _
  · exact readsIff_readConstant.map _
  · exact (readsIff_ok _).congr (by simp [bodyFits])
  · exact (readsIff_readImpl.map _).congr (by simp [bodyFits, and_assoc])
  · exact (readsIff_ok _).congr (by simp [bodyFits])
  · exact readsIff_readProcMacro.map _
  · exact Id.readsIff_listOf.map _
  · exact (readsIff_ok _).congr (by simp [bodyFits])
  · exact (readsIff_readAssocType.map _).congr (by simp [bodyFits])
  · exact (readsIff_ok _).congr (by simp [bodyFits, *])

theorem readsIff_ofValue {inner : Value} :
    ReadsIff (ofValue inner) (fits inner = true) := by
  unfold ofValue
  split
  · exact (readsIff_ok _).congr (by simp [fits])
  · next tag body =>
    split
    · next h =>
      obtain rfl : tag = "struct_field" := by simpa using h
      exact (readsIff_ok _).congr (by cases body <;> simp [fits, bodyFits])
    · split
      · next h =>
        obtain rfl : tag = "macro" := by simpa using h
        exact (readsIff_ok _).congr (by cases body <;> simp [fits, bodyFits])
      · split
        · exact readsIff_ofBody tag
        · next h => exact (readsIff_ok _).congr (by cases body <;> simp_all [fits])
  · next h => exact (readsIff_ok _).congr (by unfold fits; split <;> simp_all)

end Payload

namespace Item

/-- The members of an item's value have forms that can be read. -/
def fits (raw : List (String × Value)) : Bool :=
  (Payload.part raw "links").isRecord && (Payload.part raw "attrs").isRow &&
    Payload.fits (Payload.part raw "inner") && (Payload.part raw "crate_id").isWhole

/-- An item is read if the members of its value have forms that can be read. -/
theorem readsIff_read {id : Id} {raw : List (String × Value)} :
    ReadsIff (read id raw) (fits raw = true) := by
  refine .congr (Value.readsIff_members.bind fun _ _ => Value.readsIff_elementsOrNone.bind
    fun _ _ => Payload.readsIff_ofValue.bind fun _ _ => Value.readsIff_toInt.map _) ?_
  simp [fits, Payload.part, and_assoc]

theorem exists_read (id : Id) {raw : List (String × Value)} (h : fits raw = true) :
    ∃ y, read id raw = .ok y :=
  readsIff_read.ok.2 h

end Item

end CrateBook
