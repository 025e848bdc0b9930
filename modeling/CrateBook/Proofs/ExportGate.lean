import CrateBook.Proofs.Entries
import CrateBook.Proofs.Membership
import CrateBook.Proofs.SampleCrates

/-!
# What an export lets in

A text is rejected as an export, with a fault for the user, or it gives an export whose root is a
module. This holds of exactly the texts whose document, once it has passed the checks of its
version and structure, has a root that is a module where its items are read, and values that
the readers can work on. Every export that is read has its root among its items.
-/
namespace CrateBook

open Checked Payload

namespace Export

/-- The items that a document lists in its index. -/
def indexOf (doc : List (String × Value)) : List (String × Value) := (part doc "index").entries

/-- The id under which the root of a document is looked up. -/
def rootIdOf (doc : List (String × Value)) : Id := (Id.ofValue? (part doc "root")).getD "None"

/-- A document that declares the version that is read, and whose index has, under the key of the
root, an object with a module among what it holds. -/
structure Passes (doc : List (String × Value)) : Prop where
  version : part doc "format_version" = .int supportedVersion
  root : ∃ index rootId raw inner, part doc "index" = .object index ∧
    Id.ofValue? (part doc "root") = some rootId ∧ index.lookup rootId = some (.object raw) ∧
    part raw "inner" = .object inner ∧ (inner.lookup "module").isSome = true

/-- A key of the packages that a document refers to is no number, or can be read as one. -/
def packageFits (e : String × Value) : Prop :=
  ∀ ms, e.2 = .object ms → Text.isDigits e.1 = true → (Text.readInt? e.1).isSome = true

/-- What a document tells of an item that its index has not can be read. -/
def summaryFits (index : List (String × Value)) (e : String × Value) : Prop :=
  ∀ ms id, e.2 = .object ms → Id.ofValue? (.str e.1) = some id →
    (indexed index).contains id = false →
    (part ms "crate_id").isWhole = true ∧ (part ms "path").isRow = true

/-- What a block is for, where an item's value holds a block, has a path that can be read. -/
def targetFits (raw : List (String × Value)) : Prop :=
  ∀ body, part raw "inner" = .object [("impl", .object body)] →
    ((part body "for").get "resolved_path").isRecord = true

/-- The conditions on the parts of a document under which its readers end well. -/
structure Readable (doc : List (String × Value)) : Prop where
  index : (part doc "index").isRecord = true
  items : ∀ e ∈ entries (indexOf doc), Item.fits e.2 = true
  root : (indexed (indexOf doc)).contains (rootIdOf doc) = true
  packages : (part doc "external_crates").isRecord = true ∧
    ∀ e ∈ (part doc "external_crates").entries, packageFits e
  summaries : (part doc "paths").isRecord = true ∧
    ∀ e ∈ (part doc "paths").entries, summaryFits (indexOf doc) e
  targets : ∀ id raw, (indexed (indexOf doc)).get? id = some raw → targetFits raw

/-- A document that the readers can work on, with a module where the item of the root's id is
read: the last entry of this id holds nothing else. -/
structure Sound (doc : List (String × Value)) : Prop extends Readable doc where
  isModule : ∃ raw body, (indexed (indexOf doc)).get? (rootIdOf doc) = some raw ∧
    part raw "inner" = .object [("module", .object body)]

theorem checkVersion_eq_ok {doc : List (String × Value)} {version : Int} :
    checkVersion (.object doc) = .ok version ↔
      part doc "format_version" = .int supportedVersion ∧ version = supportedVersion := by
  simp only [checkVersion, Value.field, part, bind, Except.bind]
  split
  · next h => simp [h]
  · next n h =>
    rw [h]
    by_cases hn : n = supportedVersion
    · simp [hn, eq_comm]
    · simp [hn]
  · next hnull hint =>
    constructor
    · exact fun h => nomatch h
    · exact fun h => absurd h.1 (hint _)

theorem badExport_of_checkVersion {doc : List (String × Value)} {fault : Fault}
    (h : checkVersion (.object doc) = .error fault) : ∃ f, fault = .badExport f := by
  simp only [checkVersion, Value.field, bind, Except.bind] at h
  split at h
  · exact ⟨_, (Except.error.inj h).symm⟩
  · split at h
    · cases h
    · exact ⟨_, (Except.error.inj h).symm⟩
  · exact ⟨_, (Except.error.inj h).symm⟩

theorem lookup_eq_some_of_part {body : List (String × Value)} {k : String} {v : Value}
    (h : part body k = v) (hv : v ≠ .null) : body.lookup k = some v := by
  unfold part at h
  cases hlookup : body.lookup k with
  | none =>
    rw [hlookup, Option.getD_none] at h
    exact absurd h.symm hv
  | some w =>
    rw [hlookup, Option.getD_some] at h
    rw [h]

/-- The structure of a document is checked by the key of its root. -/
theorem checkStructure_eq_ok {doc : List (String × Value)} :
    checkStructure doc = .ok () ↔ ∃ index rootId raw inner, part doc "index" = .object index ∧
      Id.ofValue? (part doc "root") = some rootId ∧ index.lookup rootId = some (.object raw) ∧
      part raw "inner" = .object inner ∧ (inner.lookup "module").isSome = true := by
  constructor
  · intro h
    unfold checkStructure at h
    split at h
    · next index hindex =>
      split at h
      · cases h
      · next rootId hroot =>
        split at h
        · next raw hraw =>
          split at h
          · next inner hinner =>
            split at h
            · next hmodule =>
              exact ⟨index, rootId, raw, inner, by rw [part, hindex, Option.getD_some], hroot, hraw,
                by rw [part, hinner, Option.getD_some], hmodule⟩
            · cases h
          · cases h
        · cases h
    · cases h
  · rintro ⟨index, rootId, raw, inner, hindex, hroot, hraw, hinner, hmodule⟩
    rw [checkStructure, lookup_eq_some_of_part hindex nofun]
    simp only [← part.eq_1, hroot, hraw, lookup_eq_some_of_part hinner nofun, hmodule, if_true]

section

variable {index : List (String × Value)} {xs : Items}

theorem readsIff_readPackages {t : Table Int ExternalPackage} {es : List (String × Value)} :
    ReadsIff (readPackages t es) (∀ e ∈ es, packageFits e) := by
  induction es generalizing t with
  | nil => exact (readsIff_ok t).congr (by simp)
  | cons e es ih =>
    obtain ⟨key, entry⟩ := e
    simp only [List.forall_mem_cons]
    unfold readPackages
    split
    · next ms =>
      split
      · next hdigits =>
        split
        · next n hn => exact ih.congr (by simp [packageFits, hn])
        · next hn =>
          exact (readsIff_error .notANumber rfl).congr (by simp [packageFits, hn, hdigits])
      · next hdigits => exact ih.congr (by simp [packageFits, hdigits])
    · next h => exact ih.congr (iff_and_self.2 fun _ ms hms => absurd hms (h ms))

theorem readsIff_readSummaries (hxs : readItems .empty index = .ok xs) {package : Package}
    {t : Table Id Summary} {es : List (String × Value)} :
    ReadsIff (readSummaries package xs t es) (∀ e ∈ es, summaryFits index e) := by
  induction es generalizing t with
  | nil => exact (readsIff_ok t).congr (by simp)
  | cons e es ih =>
    obtain ⟨key, summary⟩ := e
    simp only [List.forall_mem_cons]
    unfold readSummaries
    split
    · next id ms hid =>
      split
      · next h =>
        rw [contains_of_readItems hxs] at h
        exact ih.congr (by simp [summaryFits, hid, h])
      · next h =>
        rw [contains_of_readItems hxs] at h
        refine .congr (Value.readsIff_toInt.bind fun _ _ =>
          Value.readsIff_elementsOrNone.bind fun _ _ => ih) ?_
        simp [summaryFits, hid, h, part, and_assoc]
    · next h => exact ih.congr (iff_and_self.2 fun _ ms id hms hid => absurd hms (h id ms hid))

/-- What a block is for has a readable form. -/
theorem readsIff_target {b : ImplBody} :
    ReadsIff b.target ((b.forType.get "resolved_path").isRecord = true) := by
  unfold ImplBody.target
  split
  · next ms h =>
    rw [h, Value.get, part]
    split
    · next path hpath =>
      rw [hpath]
      exact (Value.readsIff_field "id").map _
    · next hpath =>
      rw [hpath]
      exact (readsIff_ok _).congr (by simp [Value.isRecord, Value.isSet])
  · next h =>
    refine (readsIff_ok _).congr ?_
    cases hfor : b.forType <;> simp_all [Value.get, Value.isRecord, Value.isSet]

/-- The members of an item are read, a block's if what it is for has a readable form. -/
theorem readsIff_membership {y : Item} : ReadsIff (membership y)
    (∀ b, y.payload = .impl b → (b.forType.get "resolved_path").isRecord = true) := by
  unfold membership
  cases y.payload with
  | impl b =>
    refine .congr (readsIff_target.bind (Q := True) fun target _ => ?_) (by simp)
    cases target <;> exact readsIff_ok _
  | _ => exact (readsIff_ok _).congr (by simp)

theorem readsIff_readOwners {tables : Table Id Id × Table Id Id} {ys : List Item} :
    ReadsIff (readOwners tables ys) (∀ y ∈ ys, ∀ b, y.payload = .impl b →
      (b.forType.get "resolved_path").isRecord = true) := by
  induction ys generalizing tables with
  | nil => exact (readsIff_ok _).congr (by simp)
  | cons y ys ih =>
    rw [List.forall_mem_cons]
    exact readsIff_membership.bind fun _ _ => ih

end

theorem tag_of_module {tag : String} {body : List (String × Value)} {b : ModuleBody}
    (h : ofBody tag body = .ok (.module b)) : tag = "module" := by
  unfold ofBody at h
  split at h
  all_goals
    first
      | rfl
      | (obtain ⟨_, -, h⟩ := Except.bind_eq_ok.1 h
         cases h)
      | cases h

/-- An item is a module if its value holds nothing but a module's body. -/
theorem isModule_iff {id : Id} {raw : List (String × Value)} {y : Item}
    (h : Item.read id raw = .ok y) : (∃ b, y.payload = .module b) ↔
      ∃ body, part raw "inner" = .object [("module", .object body)] := by
  have hpayload := (inner_of_read h).2
  constructor
  · rintro ⟨b, hb⟩
    rw [hb] at hpayload
    obtain ⟨tag, body, hinner, hbody⟩ := exists_body hpayload nofun nofun nofun
    exact ⟨body, tag_of_module hbody ▸ hinner⟩
  · rintro ⟨body, hinner⟩
    rw [hinner] at hpayload
    obtain ⟨b, -, hb⟩ := Except.bind_eq_ok.1 hpayload
    exact ⟨b, (Except.ok.inj hb).symm⟩

theorem forType_of_readImpl {body : List (String × Value)} {b : ImplBody}
    (h : readImpl body = .ok b) : b.forType = part body "for" := by
  unfold readImpl at h
  obtain ⟨items, -, h⟩ := Except.bind_eq_ok.1 h
  obtain ⟨generics, -, h⟩ := Except.bind_eq_ok.1 h
  obtain ⟨provided, -, h⟩ := Except.bind_eq_ok.1 h
  cases h
  rfl

/-- What a block is for is read from the body that an item's value holds. -/
theorem targetFits_iff {id : Id} {raw : List (String × Value)} {y : Item}
    (h : Item.read id raw = .ok y) : targetFits raw ↔ ∀ b, y.payload = .impl b →
      (b.forType.get "resolved_path").isRecord = true := by
  have hpayload := (inner_of_read h).2
  constructor
  · intro hfits b hb
    rw [hb] at hpayload
    obtain ⟨tag, body, hinner, hbody⟩ := exists_body hpayload nofun nofun nofun
    obtain rfl := tag_of_kind? hbody rfl
    obtain ⟨b', hb', heq⟩ := Except.bind_eq_ok.1 hbody
    cases heq
    rw [forType_of_readImpl hb']
    exact hfits body hinner
  · intro hall body hinner
    rw [hinner] at hpayload
    obtain ⟨b, hread, hb⟩ := Except.bind_eq_ok.1 hpayload
    rw [← forType_of_readImpl hread]
    exact hall b (Except.ok.inj hb).symm

/-- What the readers find of the items that an index has. -/
theorem targets_iff {index : List (String × Value)} {xs : Items}
    (hxs : readItems .empty index = .ok xs) : (∀ y ∈ xs.toList, ∀ b, y.payload = .impl b →
      (b.forType.get "resolved_path").isRecord = true) ↔
      ∀ id raw, (indexed index).get? id = some raw → targetFits raw := by
  constructor
  · intro h id raw hraw
    obtain ⟨y, hy⟩ := Item.exists_read id
      (readsIff_readItems.ok.1 ⟨xs, hxs⟩ _ (Table.mem_of_get?_ofList hraw))
    exact (targetFits_iff hy).2 (h y ((mem_toList_of_readItems hxs).2 ⟨id, raw, hraw, hy⟩))
  · intro h y hy
    obtain ⟨id, raw, hraw, hread⟩ := (mem_toList_of_readItems hxs).1 hy
    exact (targetFits_iff hread).1 (h id raw hraw)

/-- A document becomes an export under the conditions of its readers. -/
theorem readsIff_build {doc : List (String × Value)} {version : Int} :
    ReadsIff (build doc version) (Readable doc) := by
  refine .congr (Value.readsIff_members_bind <| readsIff_readItems.bind (Q :=
    (indexed (indexOf doc)).contains (rootIdOf doc) = true ∧
      (part doc "external_crates").isRecord = true ∧
      (∀ e ∈ (part doc "external_crates").entries, packageFits e) ∧
      (part doc "paths").isRecord = true ∧
      (∀ e ∈ (part doc "paths").entries, summaryFits (indexOf doc) e) ∧
      ∀ id raw, (indexed (indexOf doc)).get? id = some raw → targetFits raw)
    fun xs hxs => ?_) ?_
  · change readItems .empty (indexOf doc) = .ok xs at hxs
    have hroot := contains_of_readItems hxs (rootIdOf doc)
    unfold Items.contains at hroot
    dsimp only
    split
    · next hget =>
      rw [show xs.get? (rootIdOf doc) = none from hget] at hroot
      exact (readsIff_error .noSuchKey rfl).congr (by simp [← hroot])
    · next root hget =>
      rw [show xs.get? (rootIdOf doc) = some root from hget] at hroot
      exact .congr (Value.readsIff_members_bind <| readsIff_readPackages.bind fun _ _ =>
        Value.readsIff_members_bind <| (readsIff_readSummaries hxs).bind fun _ _ =>
        (readsIff_readOwners.congr (targets_iff hxs)).map _) (and_iff_right hroot.symm).symm
  · constructor
    · rintro ⟨hindex, hitems, hroot, hcrates, hpackages, hpaths, hsummaries, htargets⟩
      exact ⟨hindex, hitems, hroot, ⟨hcrates, hpackages⟩, ⟨hpaths, hsummaries⟩, htargets⟩
    · rintro ⟨hindex, hitems, hroot, ⟨hcrates, hpackages⟩, ⟨hpaths, hsummaries⟩, htargets⟩
      exact ⟨hindex, hitems, hroot, hcrates, hpackages, hpaths, hsummaries, htargets⟩

/-- The package of a document whose root and whose packages are read. -/
def packageOf (doc : List (String × Value)) (version : Int) (root : Item)
    (packages : Table Int ExternalPackage) : Package :=
  ⟨root.name.getD "crate", part doc "crate_version", rootIdOf doc,
    (part doc "includes_private").isSet, version, packages⟩

/-- The parts from which an export is built. -/
theorem parts_of_build {doc : List (String × Value)} {version : Int} {x : Export}
    (h : build doc version = .ok x) : readItems .empty (indexOf doc) = .ok x.items ∧
      (∃ root packages, x.items.get? (rootIdOf doc) = some root ∧
        readPackages .empty (part doc "external_crates").entries = .ok packages ∧
        x.package = packageOf doc version root packages) ∧
      readSummaries x.package x.items .empty (part doc "paths").entries = .ok x.external ∧
      readOwners (.empty, .empty) x.items.toList = .ok (x.owners, x.containers) := by
  obtain ⟨index, hindex, h⟩ := Except.bind_eq_ok.1 h
  obtain ⟨items, hitems, h⟩ := Except.bind_eq_ok.1 h
  rw [Value.members_eq hindex] at hitems
  dsimp only at h
  split at h
  · cases h
  · next root hroot =>
    obtain ⟨crates, hcrates, h⟩ := Except.bind_eq_ok.1 h
    obtain ⟨packages, hpackages, h⟩ := Except.bind_eq_ok.1 h
    obtain ⟨paths, hpaths, h⟩ := Except.bind_eq_ok.1 h
    obtain ⟨external, hexternal, h⟩ := Except.bind_eq_ok.1 h
    obtain ⟨⟨owners, containers⟩, howners, h⟩ := Except.bind_eq_ok.1 h
    cases h
    rw [Value.members_eq hcrates] at hpackages
    rw [Value.members_eq hpaths] at hexternal
    exact ⟨hitems, ⟨root, packages, hroot, hpackages, rfl⟩, hexternal, howners⟩

/-- The root of an export that is built is a module if the last entry of its id holds nothing
else. -/
theorem root_isModule_iff {doc : List (String × Value)} {version : Int} {x : Export}
    (h : build doc version = .ok x) :
    (∃ b, x.items.payload? x.package.rootId = some (.module b)) ↔
      ∃ raw body, (indexed (indexOf doc)).get? (rootIdOf doc) = some raw ∧
        part raw "inner" = .object [("module", .object body)] := by
  obtain ⟨hitems, ⟨y, packages, hy, -, hpackage⟩, -⟩ := parts_of_build h
  have hid : x.package.rootId = rootIdOf doc := by rw [hpackage, packageOf]
  rw [hid, Items.payload?, hy, Option.map_some]
  rw [get?_of_readItems hitems] at hy
  obtain ⟨raw, hraw, hread⟩ := Option.bind_eq_some_iff.1 hy
  have hmodule := isModule_iff (itemOf?_eq_some.1 hread)
  simp only [Option.some.injEq, hraw, exists_and_left, exists_eq_left', hmodule]

theorem ofDocument_eq_of_passes {doc : List (String × Value)} (h : Passes doc) :
    ofDocument (.object doc) = build doc supportedVersion := by
  have hversion := checkVersion_eq_ok.2 ⟨h.version, rfl⟩
  have hstructure := checkStructure_eq_ok.2 h.root
  simp only [ofDocument, hversion, hstructure, bind, Except.bind]

/-- A document that does not pass the checks is rejected. -/
theorem exists_badExport {doc : List (String × Value)} (h : ¬ Passes doc) :
    ∃ f, ofDocument (.object doc) = .error (.badExport f) := by
  simp only [ofDocument, bind, Except.bind]
  cases hversion : checkVersion (.object doc) with
  | error fault =>
    obtain ⟨f, hf⟩ := badExport_of_checkVersion hversion
    exact ⟨f, by rw [hf]⟩
  | ok version =>
    cases hstructure : checkStructure doc with
    | error f => exact ⟨f, rfl⟩
    | ok _ =>
      exact absurd ⟨(checkVersion_eq_ok.1 hversion).1, checkStructure_eq_ok.1 hstructure⟩ h

theorem parse_of_json {text : String} {doc : Value} (h : Json.parse text = .ok doc) :
    parse text = ofDocument doc := by
  rw [parse, h]

section

variable {doc : List (String × Value)} {x : Export}

/-- An export that is read was built from a document that passes the checks. -/
theorem build_of_ofDocument (h : ofDocument (.object doc) = .ok x) :
    Passes doc ∧ build doc supportedVersion = .ok x := by
  by_cases hpasses : Passes doc
  · exact ⟨hpasses, ofDocument_eq_of_passes hpasses ▸ h⟩
  · obtain ⟨f, hf⟩ := exists_badExport hpasses
    cases hf.symm.trans h

/-- A document is rejected, or becomes an export whose root is a module, exactly if it is sound
once it passes the checks. -/
theorem gated_object : ((∃ f, ofDocument (.object doc) = .error (.badExport f)) ∨
    ∃ x b, ofDocument (.object doc) = .ok x ∧
      x.items.payload? x.package.rootId = some (.module b)) ↔ (Passes doc → Sound doc) := by
  by_cases hpasses : Passes doc
  · rw [ofDocument_eq_of_passes hpasses, imp_iff_right hpasses]
    constructor
    · rintro (⟨f, hf⟩ | ⟨x, b, hx, hb⟩)
      · exact absurd hf (readsIff_build.mild f)
      · exact ⟨readsIff_build.ok.1 ⟨x, hx⟩, (root_isModule_iff hx).1 ⟨b, hb⟩⟩
    · intro hsound
      obtain ⟨x, hx⟩ := readsIff_build.ok.2 hsound.toReadable
      obtain ⟨b, hb⟩ := (root_isModule_iff hx).2 hsound.isModule
      exact .inr ⟨x, b, hx, hb⟩
  · exact iff_of_true (.inl (exists_badExport hpasses)) fun h => absurd h hpasses

end

/-- A text whose syntax is rejected, or whose document is sound once it passes the checks. -/
def Usable (text : String) : Prop :=
  (∃ f, Json.parse text = .error (.syntaxFault f)) ∨ ∃ doc, Json.parse text = .ok doc ∧
    ∀ ms, doc = .object ms → Passes ms → Sound ms

/-- An export that is read has the version that is supported, and an item at its root. -/
theorem package_of_parse {text : String} (h : parse text = .ok x) :
    x.package.formatVersion = 56 ∧ x.items.contains x.package.rootId = true := by
  cases hjson : Json.parse text with
  | error failure =>
    cases failure <;> simp [parse, hjson] at h
  | ok doc =>
    rw [parse_of_json hjson] at h
    cases doc with
    | object ms =>
      obtain ⟨-, hbuild⟩ := build_of_ofDocument h
      obtain ⟨-, ⟨root, packages, hroot, -, hpackage⟩, -⟩ := parts_of_build hbuild
      rw [hpackage, Items.contains, packageOf, hroot]
      exact ⟨rfl, rfl⟩
    | _ => simp [ofDocument] at h

/-- **The gate.** An export that is read has the supported version and an item at its root. A
text is rejected with a fault for the user, or read as an export whose root is a module, exactly
if its syntax is rejected or its document is sound once it passes the checks. -/
theorem gated_iff (text : String) :
    (∀ x, parse text = .ok x → x.package.formatVersion = 56 ∧
      x.items.contains x.package.rootId = true) ∧
    (((∃ f, parse text = .error (.badExport f)) ∨ ∃ x b, parse text = .ok x ∧
      x.items.payload? x.package.rootId = some (.module b)) ↔ Usable text) := by
  refine ⟨fun x hx => package_of_parse hx, ?_⟩
  cases hjson : Json.parse text with
  | error failure =>
    cases failure with
    | syntaxFault f => simp [parse, hjson, Usable]
    | tooManyDigits => simp [parse, hjson, Usable]
    | tooDeep => simp [parse, hjson, Usable]
  | ok doc =>
    rw [parse_of_json hjson]
    have husable : Usable text ↔ ∀ ms, doc = .object ms → Passes ms → Sound ms := by
      simp [Usable, hjson]
    rw [husable]
    cases doc with
    | object ms => simpa using gated_object
    | _ => simp [ofDocument]

/-- What the root of the document holds. -/
def twofoldInner : Value := .object [("module", .object []), ("struct", .object [])]

/-- A document whose root holds a module, and a struct besides. -/
def twofoldText : String :=
  Sample.text [("0", .object [("name", .str "demo"), ("inner", twofoldInner)])]

/-- The export that is read from the text. -/
def twofoldExport : Export := Sample.crate [
  Sample.item "0" "unknown" (some "demo") (.unknown "<malformed>" twofoldInner) .default]

set_option maxRecDepth 4000 in
/-- A root that holds a module and something else passes the checks and is no module. -/
theorem not_isModule_twofoldExport : parse twofoldText = .ok twofoldExport ∧
    ∀ b, twofoldExport.items.payload? twofoldExport.package.rootId ≠ some (.module b) :=
  ⟨Sample.read_textOf (by decide +kernel) rfl, fun b => nofun⟩

end Export

end CrateBook
