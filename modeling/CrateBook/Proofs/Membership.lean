import CrateBook.Export.Reader
import CrateBook.Proofs.Tables

/-!
# Members, owners and containers

An export that was read records for a member the first item that lists it, and the owner that
this item gives to its members. The two tables are filled side by side, so they speak of the
same item.
-/
namespace CrateBook

theorem ImplBody.target_of_target? {b : ImplBody} {t : Id} (h : b.target? = some t) :
    b.target = .ok (some t) := by
  unfold ImplBody.target? at h
  split at h
  · next id hid => rw [hid, h]
  · cases h

/-- The kind of the items that have a payload, for payloads of members and of what has them. -/
def Payload.kind? : Payload → Option String
  | .struct _ => some "struct"
  | .structField _ => some "struct_field"
  | .enum _ => some "enum"
  | .variant _ => some "variant"
  | .trait _ => some "trait"
  | .impl _ => some "impl"
  | .function _ => some "function"
  | .assocConst _ => some "assoc_const"
  | .assocType _ => some "assoc_type"
  | _ => none

namespace Export

/-- The item lists a member, which is shown on the owner's page. -/
def Lists (y : Item) (owner m : Id) : Prop := ∃ ms, membership y = .ok (owner, ms) ∧ m ∈ ms

/-- No member is listed by two items. -/
def ListedOnce (x : Export) : Prop := ∀ y ∈ x.items.toList, ∀ z ∈ x.items.toList, ∀ o p m,
  Lists y o m → Lists z p m → y = z

/-- No member is listed by two items, and the root is listed by none. -/
structure ListedAsTree (x : Export) : Prop where
  once : x.ListedOnce
  root : ∀ y ∈ x.items.toList, ∀ o, ¬ Lists y o x.package.rootId

/-- Whether every item is the container of the members that it lists can be computed. -/
theorem listedOnce_of_containers {x : Export} (h : (x.items.toList.all fun y =>
    (membership y).toOption.all fun r =>
      r.2.all fun m => x.containers.get? m == some y.id) = true) : x.ListedOnce := by
  have hcontainer : ∀ y ∈ x.items.toList, ∀ o m, Lists y o m →
      x.containers.get? m = some y.id := by
    intro y hy o m ⟨ms, hms, hm⟩
    have hlisted := List.all_eq_true.1 h y hy
    rw [hms] at hlisted
    exact beq_iff_eq.1 (List.all_eq_true.1 hlisted m hm)
  intro y hy z hz o p m hym hzm
  have hid : y.id = z.id :=
    Option.some.inj ((hcontainer y hy o m hym).symm.trans (hcontainer z hz p m hzm))
  have hget := Items.mem_toList.1 hy
  rw [hid, Items.mem_toList.1 hz] at hget
  exact (Option.some.inj hget).symm

/-- The members that an item lists, blocks apart: they stand on its own page. -/
def ownMembers (y : Item) : List Id :=
  match y.payload with
  | .struct b => b.fields.filterMap id
  | .enum b => b.variants
  | .variant b => b.fields.filterMap id
  | .trait b => b.items
  | _ => []

/-- Whatever is no block lists members of its own. -/
theorem Lists.own {y : Item} {owner m : Id} (h : Lists y owner m)
    (hpayload : ∀ b, y.payload ≠ .impl b) : owner = y.id ∧ m ∈ ownMembers y := by
  obtain ⟨ms, hms, hm⟩ := h
  unfold membership at hms
  unfold ownMembers
  cases hcases : y.payload
  case impl b => exact absurd hcases (hpayload b)
  all_goals
    simp only [hcases] at hms
    cases hms
    exact ⟨rfl, hm⟩

/-- A block lists its items as members of the type it is for. -/
theorem Lists.block {y : Item} {owner m t : Id} {b : ImplBody} (h : Lists y owner m)
    (hb : y.payload = .impl b) (htarget : b.target? = some t) : owner = t ∧ m ∈ b.items := by
  obtain ⟨ms, hms, hm⟩ := h
  unfold membership at hms
  simp only [hb, ImplBody.target_of_target? htarget] at hms
  cases hms
  exact ⟨rfl, hm⟩

section

variable {y : Item} {m : Id}

theorem lists_field {b : StructBody} (hb : y.payload = .struct b) (hm : some m ∈ b.fields) :
    Lists y y.id m :=
  ⟨b.fields.filterMap id, by simp [membership, hb], List.mem_filterMap.2 ⟨some m, hm, rfl⟩⟩

theorem lists_variant {b : EnumBody} (hb : y.payload = .enum b) (hm : m ∈ b.variants) :
    Lists y y.id m :=
  ⟨b.variants, by simp [membership, hb], hm⟩

theorem lists_variantField {b : VariantBody} (hb : y.payload = .variant b)
    (hm : some m ∈ b.fields) : Lists y y.id m :=
  ⟨b.fields.filterMap id, by simp [membership, hb], List.mem_filterMap.2 ⟨some m, hm, rfl⟩⟩

theorem lists_traitItem {b : TraitBody} (hb : y.payload = .trait b) (hm : m ∈ b.items) :
    Lists y y.id m :=
  ⟨b.items, by simp [membership, hb], hm⟩

theorem lists_block {b : ImplBody} {t : Id} (hb : y.payload = .impl b)
    (htarget : b.target? = some t) (hm : m ∈ b.items) : Lists y t m := by
  refine ⟨b.items, ?_, hm⟩
  simp only [membership, hb, ImplBody.target_of_target? htarget]
  rfl

end

/-- The tables of owners and containers, when some items are read. -/
structure Recorded (items : List Item) (tables : Table Id Id × Table Id Id) : Prop where
  paired : ∀ m, tables.1.get? m = none ↔ tables.2.get? m = none
  listed : ∀ m owner container, tables.1.get? m = some owner →
    tables.2.get? m = some container → ∃ y ∈ items, y.id = container ∧ Lists y owner m

theorem recorded_empty : Recorded [] (.empty, .empty) where
  paired := by simp
  listed := by simp

section

variable {items : List Item} {tables : Table Id Id × Table Id Id}

/-- Recording one member keeps what was recorded before. -/
theorem Recorded.insertNew (h : Recorded items tables) {y : Item} (hy : y ∈ items)
    {owner m : Id} (hm : Lists y owner m) :
    Recorded items (tables.1.insertNew m owner, tables.2.insertNew m y.id) where
  paired := by
    intro k
    have hk := h.paired k
    simp only [Table.insertNew_or, Option.or_eq_none_iff, hk]
    by_cases hkm : k = m <;> simp [hkm]
  listed := by
    intro k owner' container' howner hcontainer
    rw [Table.insertNew_or] at howner hcontainer
    cases hold : tables.1.get? k with
    | some o =>
      have hne : tables.2.get? k ≠ none := fun hnone => by
        rw [(h.paired k).2 hnone] at hold
        cases hold
      obtain ⟨c, hc⟩ := Option.ne_none_iff_exists'.1 hne
      rw [hold, Option.some_or, Option.some.injEq] at howner
      rw [hc, Option.some_or, Option.some.injEq] at hcontainer
      exact h.listed k owner' container' (howner ▸ hold) (hcontainer ▸ hc)
    | none =>
      rw [hold, Option.none_or] at howner
      rw [(h.paired k).1 hold, Option.none_or] at hcontainer
      split at howner
      · next hkm =>
        rw [if_pos hkm, Option.some.injEq] at hcontainer
        rw [Option.some.injEq] at howner
        exact ⟨y, hy, hcontainer, howner ▸ hkm ▸ hm⟩
      · cases howner

theorem Recorded.claim (h : Recorded items tables) {y : Item} (hy : y ∈ items) {owner : Id}
    {ms : List Id} (hms : ∀ m ∈ ms, Lists y owner m) :
    Recorded items (claim owner y.id tables ms) := by
  unfold Export.claim
  induction ms generalizing tables with
  | nil => exact h
  | cons m ms ih =>
    exact ih (h.insertNew hy (hms m List.mem_cons_self))
      fun k hk => hms k (List.mem_cons_of_mem m hk)

/-- Reading owners item by item records all of them. -/
theorem Recorded.readOwners (h : Recorded items tables) {xs : List Item}
    {tables' : Table Id Id × Table Id Id} (hread : readOwners tables xs = .ok tables') :
    Recorded (items ++ xs) tables' := by
  induction xs generalizing items tables with
  | nil =>
    cases hread
    rwa [List.append_nil]
  | cons y ys ih =>
    obtain ⟨⟨owner, ms⟩, hmembership, hread⟩ := Except.bind_eq_ok.1 hread
    have hmore : Recorded (items ++ [y]) tables := by
      refine ⟨h.paired, fun m owner container howner hcontainer => ?_⟩
      obtain ⟨z, hz, hlists⟩ := h.listed m owner container howner hcontainer
      exact ⟨z, List.mem_append_left _ hz, hlists⟩
    have hy : y ∈ items ++ [y] := List.mem_append_right _ List.mem_cons_self
    rw [← List.singleton_append, ← List.append_assoc]
    exact ih (hmore.claim hy fun m hm => ⟨ms, hmembership, hm⟩) hread

/-- What is claimed, or was recorded before, is recorded. -/
theorem owner_ne_none_of_claim {owner container : Id} {ms : List Id} {m : Id}
    (hm : m ∈ ms ∨ tables.1.get? m ≠ none) :
    (claim owner container tables ms).1.get? m ≠ none := by
  unfold Export.claim
  induction ms generalizing tables with
  | nil => simpa using hm
  | cons k ms ih =>
    refine ih ?_
    by_cases hkm : m = k
    · exact .inr (by simp [Table.insertNew_or, hkm])
    · refine hm.imp (fun hm => (List.mem_cons.1 hm).resolve_left hkm) fun hm => ?_
      simp [Table.insertNew_or, hm]

/-- Every member of the items that are read has an owner. -/
theorem owner_ne_none_of_readOwners {xs : List Item} {tables' : Table Id Id × Table Id Id}
    (hread : readOwners tables xs = .ok tables') {m : Id}
    (hm : (∃ y ∈ xs, ∃ owner, Lists y owner m) ∨ tables.1.get? m ≠ none) :
    tables'.1.get? m ≠ none := by
  induction xs generalizing tables with
  | nil =>
    cases hread
    simpa using hm
  | cons y ys ih =>
    obtain ⟨⟨owner, ms⟩, hmembership, hread⟩ := Except.bind_eq_ok.1 hread
    refine ih hread ?_
    rcases hm with ⟨z, hz, owner', ms', hms', hm⟩ | hm
    · rcases List.mem_cons.1 hz with rfl | hz
      · obtain ⟨rfl, rfl⟩ := Prod.mk.inj (Except.ok.inj (hmembership.symm.trans hms'))
        exact .inr (owner_ne_none_of_claim (.inl hm))
      · exact .inl ⟨z, hz, owner', ms', hms', hm⟩
    · exact .inr (owner_ne_none_of_claim (.inr hm))

end

/-- An export as it is read: each member has an owner and a container, those that the first
item gives which lists it, and variants say what they are by their kind. -/
structure Indexed (x : Export) : Prop where
  recorded : Recorded x.items.toList (x.owners, x.containers)
  complete : ∀ y ∈ x.items.toList, ∀ owner m, Lists y owner m → x.owners.get? m ≠ none
  variants : ∀ id y b, x.items.get? id = some y → y.payload = .variant b → y.kind = "variant"

/-- Bodies read as payloads with members only under the tag that says so. -/
theorem tag_of_kind? {tag : String} {ms : List (String × Value)} {p : Payload} {kind : String}
    (h : Payload.ofBody tag ms = .ok p) (hkind : p.kind? = some kind) : tag = kind := by
  unfold Payload.ofBody at h
  split at h
  all_goals
    first
      | (obtain ⟨body, -, h⟩ := Except.bind_eq_ok.1 h
         cases h
         cases hkind <;> rfl)
      | (cases h
         cases hkind <;> rfl)

/-- What a body is read as, apart from kinds that are not known, is told by its tag. -/
theorem exists_body {inner : Value} {p : Payload} (h : Payload.ofValue inner = .ok p)
    (hfield : ∀ v, p ≠ .structField v) (hrules : ∀ s, p ≠ .macroRules s)
    (hunknown : ∀ tag v, p ≠ .unknown tag v) :
    ∃ tag body, inner = .object [(tag, .object body)] ∧ Payload.ofBody tag body = .ok p := by
  unfold Payload.ofValue at h
  split at h
  · exact absurd (Except.ok.inj h).symm (hunknown _ _)
  · split at h
    · exact absurd (Except.ok.inj h).symm (hfield _)
    · split at h
      · exact absurd (Except.ok.inj h).symm (hrules _)
      · split at h
        · exact ⟨_, _, rfl, h⟩
        · exact absurd (Except.ok.inj h).symm (hunknown _ _)
  · exact absurd (Except.ok.inj h).symm (hunknown _ _)

theorem kindOf_of_kind? {inner : Value} {p : Payload} {kind : String}
    (h : Payload.ofValue inner = .ok p) (hkind : p.kind? = some kind) :
    Item.kindOf inner = kind := by
  unfold Payload.ofValue at h
  split at h
  · cases h
    cases hkind
  · split at h
    · next htag =>
      cases h
      cases hkind
      exact beq_iff_eq.1 htag
    · split at h
      · cases h
        cases hkind
      · split at h
        · exact tag_of_kind? h hkind
        · cases h
          cases hkind
  · cases h
    cases hkind

/-- Kind and payload of an item are read from one value. -/
theorem inner_of_read {id : Id} {raw : List (String × Value)} {y : Item}
    (h : Item.read id raw = .ok y) : y.kind = Item.kindOf (Payload.part raw "inner") ∧
      Payload.ofValue (Payload.part raw "inner") = .ok y.payload := by
  unfold Item.read at h
  obtain ⟨links, -, h⟩ := Except.bind_eq_ok.1 h
  obtain ⟨attrs, -, h⟩ := Except.bind_eq_ok.1 h
  obtain ⟨payload, hpayload, h⟩ := Except.bind_eq_ok.1 h
  obtain ⟨crateId, -, h⟩ := Except.bind_eq_ok.1 h
  cases h
  exact ⟨rfl, hpayload⟩

theorem kind_of_read {id : Id} {raw : List (String × Value)} {y : Item}
    (h : Item.read id raw = .ok y) {kind : String} (hkind : y.payload.kind? = some kind) :
    y.kind = kind := by
  obtain ⟨hinner, hpayload⟩ := inner_of_read h
  rw [hinner, kindOf_of_kind? hpayload hkind]

/-- Items come from the values under which they are read. -/
theorem forall_readItems {P : Item → Prop}
    (hread : ∀ id ms y, Item.read id ms = .ok y → P y) {entries : List (String × Value)}
    {xs xs' : Items} (hxs : ∀ id y, xs.get? id = some y → P y)
    (h : readItems xs entries = .ok xs') : ∀ id y, xs'.get? id = some y → P y := by
  induction entries generalizing xs with
  | nil =>
    cases h
    exact hxs
  | cons entry rest ih =>
    obtain ⟨key, raw⟩ := entry
    unfold readItems at h
    split at h
    · split at h
      · obtain ⟨y, hy, h⟩ := Except.bind_eq_ok.1 h
        exact ih (Items.forall_insert (hread _ _ _ hy) hxs) h
      · exact ih hxs h
    · exact ih hxs h

/-- The items of an export that was built were read, and then their owners. -/
theorem read_of_build {ms : List (String × Value)} {version : Int} {x : Export}
    (h : build ms version = .ok x) :
    (∃ entries, readItems .empty entries = .ok x.items) ∧
      readOwners (.empty, .empty) x.items.toList = .ok (x.owners, x.containers) := by
  obtain ⟨index, -, h⟩ := Except.bind_eq_ok.1 h
  obtain ⟨items, hitems, h⟩ := Except.bind_eq_ok.1 h
  dsimp only at h
  split at h
  · cases h
  · obtain ⟨crates, -, h⟩ := Except.bind_eq_ok.1 h
    obtain ⟨packages, -, h⟩ := Except.bind_eq_ok.1 h
    obtain ⟨paths, -, h⟩ := Except.bind_eq_ok.1 h
    obtain ⟨external, -, h⟩ := Except.bind_eq_ok.1 h
    obtain ⟨tables, htables, h⟩ := Except.bind_eq_ok.1 h
    cases h
    exact ⟨⟨_, hitems⟩, htables⟩

/-- Items that were read say by their kind which members they have. -/
theorem kind_of_readItems {entries : List (String × Value)} {xs : Items}
    (h : readItems .empty entries = .ok xs) {id : Id} {y : Item} (hy : xs.get? id = some y)
    {kind : String} (hkind : y.payload.kind? = some kind) : y.kind = kind := by
  exact forall_readItems (P := fun y => ∀ kind, y.payload.kind? = some kind → y.kind = kind)
    (fun _ _ _ hread _ => kind_of_read hread) Items.forall_empty h id y hy kind hkind

theorem indexed_of_build {ms : List (String × Value)} {version : Int} {x : Export}
    (h : build ms version = .ok x) : x.Indexed := by
  obtain ⟨⟨entries, hitems⟩, howners⟩ := read_of_build h
  exact {
    recorded := recorded_empty.readOwners howners
    complete := fun y hy owner m hm => owner_ne_none_of_readOwners howners (.inl ⟨y, hy, owner, hm⟩)
    variants := fun id y b hy hb => kind_of_readItems hitems hy (hb ▸ rfl) }

theorem exists_build {text : String} {x : Export} (h : parse text = .ok x) :
    ∃ ms version, build ms version = .ok x := by
  unfold parse at h
  split at h
  · unfold ofDocument at h
    split at h
    · obtain ⟨version, -, h⟩ := Except.bind_eq_ok.1 h
      split at h
      · cases h
      · exact ⟨_, version, h⟩
    · cases h
  all_goals cases h

/-- Exports are read as such. -/
theorem indexed_of_parse {text : String} {x : Export} (h : parse text = .ok x) :
    x.Indexed := by
  obtain ⟨ms, version, hbuild⟩ := exists_build h
  exact indexed_of_build hbuild

/-- In an export that was parsed the payload of an item tells its kind. -/
theorem kind_of_parse {text : String} {x : Export} (h : parse text = .ok x) {id : Id} {y : Item}
    (hy : x.items.get? id = some y) {kind : String} (hkind : y.payload.kind? = some kind) :
    y.kind = kind := by
  obtain ⟨ms, version, hbuild⟩ := exists_build h
  obtain ⟨⟨entries, hitems⟩, -⟩ := read_of_build hbuild
  exact kind_of_readItems hitems hy hkind

end Export

end CrateBook
