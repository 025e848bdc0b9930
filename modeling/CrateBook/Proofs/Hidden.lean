import CrateBook.Proofs.Completion
import CrateBook.Proofs.Fragments
import CrateBook.Proofs.Reprints

/-!
# Hidden items do not leak

While private items are left out, an item that is not public is hidden, unless what lists it
shows all its members. Whatever name, docs, links, deprecation and content a hidden item of a
kind without members has, the conversion of its package comes to the same, or fails in the
same way: the item may stand in lists of modules, in the fields of a struct or in a block of
methods, and chains, globs and links may lead to it.

The one exception is the item to which the root of the package leads. The root is written
whatever its visibility is. That the root is a module is checked for the entry under its key,
but the items are held by their ids, and where these differ, the root is another item than
the one that was checked.
-/
namespace CrateBook

/-- An item that is not public, and that is no variant, item of a trait or the like: these
have no visibility of their own and are shown with what lists them. -/
structure Export.Hidden (x : Export) (y : Item) : Prop where
  held : x.items.get? y.id = some y
  visibility : y.visibility.isPublic = false
  unlisted : ∀ id c, x.items.get? id = some c → y.id ∉ c.sharedMembers

/-- What is seen of a conversion: its pages, its navigation and its report. -/
structure Output where
  package : String
  /-- The path, title, text and links of each document. -/
  documents : List (String × String × String × List Link)
  navigation : Navigation
  sidebars : Table String Navigation
  report : Report

/-- What is seen of a conversion. -/
def Conversion.output (c : Conversion) : Output where
  package := c.package
  documents := c.documents.map fun d => (d.path, d.title, d.body, d.links)
  navigation := c.navigation
  sidebars := c.sidebars
  report := c.report

namespace Export

/-- What lists a member without showing all its members is a struct or a block of methods. -/
theorem Lists.cases_unshared {c : Item} {owner m : Id} (h : Lists c owner m)
    (hm : m ∉ c.sharedMembers) :
    (∃ b, c.payload = .struct b) ∨ ∃ b, c.payload = .impl b ∧ b.traitRef = none := by
  obtain ⟨ms, hms, hmem⟩ := h
  unfold membership at hms
  cases hpayload : c.payload with
  | struct b => exact .inl ⟨b, rfl⟩
  | impl b =>
    refine .inr ⟨b, rfl, ?_⟩
    rw [hpayload] at hms
    obtain ⟨target, -, hms⟩ := Except.bind_eq_ok.1 hms
    by_contra htrait
    rw [Item.sharedMembers_impl hpayload htrait] at hm
    cases target with
    | none =>
      cases hms
      cases hmem
    | some target =>
      cases hms
      exact hm hmem
  | enum b | variant b | trait b =>
    rw [hpayload] at hms
    cases hms
    unfold Item.sharedMembers at hm
    rw [hpayload] at hm
    exact absurd hmem hm
  | _ =>
    rw [hpayload] at hms
    cases hms
    cases hmem

section

variable {text : String} {x : Export} {y z : Item} (hparse : parse text = .ok x)
  (hy : x.Hidden y)

include hparse hy

/-- Nothing shows a hidden item. -/
theorem Hidden.unshown : x.showsMember false y.id = false := by
  have hindexed := indexed_of_parse hparse
  have hincluded : y.isIncluded false = false := by simp [Item.isIncluded, hy.visibility]
  unfold showsMember
  rw [hy.held]
  dsimp only
  rw [hincluded, Bool.false_or, container?]
  cases hcontainer : x.containers.get? y.id with
  | none => rfl
  | some container =>
    have howner : x.owners.get? y.id ≠ none := fun hnone => by
      rw [(hindexed.recorded.paired y.id).1 hnone] at hcontainer
      cases hcontainer
    obtain ⟨owner, howner⟩ := Option.ne_none_iff_exists'.1 howner
    obtain ⟨c, hc, hid, hlists⟩ := hindexed.recorded.listed y.id owner container howner hcontainer
    have hget : x.items.get? c.id = some c := Items.mem_toList.1 hc
    have hfind : x.find? (some container) = some c := hid ▸ hget
    rw [hfind]
    -- Neither a struct nor a block of methods lends its visibility to what it lists.
    rcases hlists.cases_unshared (hy.unlisted _ _ hget) with ⟨b, hb⟩ | ⟨b, hb, htrait⟩
    · have hkind : c.kind = "struct" := kind_of_parse hparse hget (hb ▸ rfl)
      simp [Item.followsContainer, hb, hkind]
    · have hkind : c.kind = "impl" := kind_of_parse hparse hget (hb ▸ rfl)
      simp [Item.followsContainer, hb, hkind, htrait]

variable (hz : y.Alike z) (hroot : x.package.rootId ≠ y.id) {o : Options}
  (ho : o.includePrivate = false)

include hz hroot ho

/-- The conversion with the one item or the other makes the same of the package. -/
theorem Hidden.convert_replace : (x.replace z).convert o =
    (x.convert o).map fun c => { c with site := c.site.replace z } := by
  have hswap : x.Swap y z := ⟨hy.held, hz, hy.visibility⟩
  unfold convert
  rw [Site.plan_replace hswap hroot ho]
  cases hplan : Site.plan x o with
  | error e => rfl
  | ok s =>
    obtain ⟨rfl, rfl, hplanned⟩ := Site.planned_of_plan hplan
    have hs : s.Swap y z := ⟨hplanned, ho, hswap, hroot, hy.unshown hparse, hy.unlisted⟩
    -- What is made from the documents reads the tree, the layout and the options, and these
    -- are the same.
    have hstart : (s.replace z).startReport = s.startReport := rfl
    have hreplaced : (Except.ok s : Checked Site).map (·.replace z) = .ok (s.replace z) := rfl
    have hbind (s : Site) (f : Site → Checked Conversion) : Except.ok s >>= f = f s := rfl
    rw [hreplaced, hbind, hbind]
    simp only [hs.documents_replace, hs.enterAll_replace, Site.Swap.navigation_replace, hstart]
    cases s.documents.result with
    | error e => rfl
    | ok ds => rfl

/-- **Hidden items do not leak.** With another item of its id, kind and visibility in the
place of a hidden one, the same is seen of the conversion, whatever the mode. -/
theorem output_replace_of_hidden :
    ((x.replace z).convert o).map Conversion.output = (x.convert o).map Conversion.output := by
  rw [hy.convert_replace hparse hz hroot ho]
  cases x.convert o with
  | error e => rfl
  | ok c => rfl

end

/-- A private field of a public struct. -/
def keyField : Item := Sample.field "2" "key" "u8" .default

/-- The field with another name, other docs and another type. -/
def seedField : Item :=
  { keyField with
    name := some "seed"
    docs := "Drawn anew for [each run](run)."
    deprecation := some ⟨some "1.2", none⟩
    links := [("run", "0")]
    payload := .structField (.object [("primitive", .str "u64")]) }

/-- A crate with one struct, which has a private field. -/
def fieldExport : Export :=
  Sample.crate [Sample.module "0" "demo" ["1"], Sample.struct "1" "Vault" ["2"], keyField]
    (Table.empty.insertNew "2" "1") (Table.empty.insertNew "2" "1")

def fieldIndex : List (String × Value) := [
  ("0", Sample.moduleEntry "demo" [1]), ("1", Sample.structEntry "Vault" [2]),
  ("2", Sample.privateEntry "key" "struct_field" (.object [("primitive", .str "u8")]))]

def fieldText : String := Sample.text fieldIndex

set_option maxRecDepth 4000 in
theorem rereads_fieldIndex : Sample.Rereads (Sample.members fieldIndex) := by decide +kernel

theorem parse_fieldText : parse fieldText = .ok fieldExport :=
  Sample.read_textOf rereads_fieldIndex rfl

theorem hidden_keyField : fieldExport.Hidden keyField where
  held := rfl
  visibility := rfl
  unlisted := Sample.forall_crate (by decide)

theorem exists_convert_fieldExport : ∃ c, fieldExport.convert {} = .ok c := by
  have hordered : fieldExport.Ordered := Sample.ordered_crate (by decide)
  have hschema : fieldExport.FollowsSchema := Sample.forall_crate (by decide)
  obtain ⟨s, c, -, hc⟩ := exists_convert hordered ⟨_, rfl⟩ hschema {}
  exact ⟨c, hc⟩

/-- The private field can be swapped, and the crate is converted all the same. -/
theorem output_replace_keyField : parse fieldText = .ok fieldExport ∧
    fieldExport.Hidden keyField ∧ keyField.Alike seedField ∧ keyField.name ≠ seedField.name ∧
    (∃ c, fieldExport.convert {} = .ok c) ∧
    ((fieldExport.replace seedField).convert {}).map Conversion.output =
      (fieldExport.convert {}).map Conversion.output := by
  have halike : keyField.Alike seedField := ⟨rfl, rfl, rfl, .structField _ _⟩
  exact ⟨parse_fieldText, hidden_keyField, halike, by decide, exists_convert_fieldExport,
    output_replace_of_hidden parse_fieldText hidden_keyField halike (by decide) rfl⟩

/-- An item that has the id of the root. -/
def strayItem (docs : String) : Item :=
  Sample.item "0" "macro" (some "demo") (.macroRules "m") .default docs

/-- A crate with a module under the root's key that has another id, so that the root is an
item which is no module. -/
def strayExport (docs : String) : Export :=
  Sample.crate [Sample.module "7" "demo" [], strayItem docs]

def strayText : String := Sample.text [
  ("0", Sample.entry [("id", .int 7), ("name", .str "demo"), ("visibility", .str "public")]
    "module" (.object [])),
  ("1", Sample.entry [("id", .int 0), ("name", .str "demo"), ("visibility", .str "default"),
    ("docs", .str "A")] "macro" (.str "m"))]

set_option maxRecDepth 4000 in
theorem parse_strayText : parse strayText = .ok (strayExport "A") :=
  Sample.read_textOf (by decide +kernel) rfl

theorem hidden_strayItem (docs : String) : (strayExport docs).Hidden (strayItem docs) where
  held := rfl
  visibility := rfl
  unlisted := Sample.forall_crate
    (List.forall_mem_cons.2 ⟨List.not_mem_nil, List.forall_mem_singleton.2 List.not_mem_nil⟩)

def straySite (docs : String) : Site := { Site.bareSite with source := strayExport docs }

theorem plan_strayExport (docs : String) :
    Site.plan (strayExport docs) { mode := .single } = .ok (straySite docs) := by
  refine Site.plan_of_bareTree ?_ rfl rfl
  simp [Tree.ofExport, strayExport, strayItem, Sample.crate, Sample.module, Sample.item,
    Site.bareTree, Tree.candidates, Items.payload?, Tree.place, Tree.Growth.node]

/-- The docs of the root stand on the page. -/
theorem document_straySite :
    (((straySite "A").document Site.barePlan).result.toOption.map fun d =>
      Text.occursIn "A" d.body) = some true ∧
    (((straySite "B").document Site.barePlan).result.toOption.map fun d =>
      Text.occursIn "A" d.body) = some false := by
  simp only [Site.document, Site.pageOf, Site.barePlan, Site.packagePage, Site.frontMatter_bareSite]
  decide +kernel

/-- The one document of such a crate, and whether its text tells of the letter. -/
theorem output_strayExport {docs : String} {told : Bool}
    (hdocument : (((straySite docs).document Site.barePlan).result.toOption.map fun d =>
      Text.occursIn "A" d.body) = some told) :
    ∃ out path title body links,
      ((strayExport docs).convert { mode := .single }).map Conversion.output = .ok out ∧
        out.documents = [(path, title, body, links)] ∧ Text.occursIn "A" body = told := by
  obtain ⟨d, hd, htold⟩ := Option.map_eq_some_iff.1 hdocument
  have hok : ((straySite docs).document Site.barePlan).result = .ok d := by
    cases hresult : ((straySite docs).document Site.barePlan).result with
    | error e =>
      rw [hresult] at hd
      cases hd
    | ok d' =>
      rw [hresult] at hd
      exact congrArg Except.ok (Option.some.inj hd)
  have hdocuments : (straySite docs).documents.result = .ok [d] := by
    have hfiles : (straySite docs).layout.files = [Site.barePlan] := rfl
    unfold Site.documents
    rw [hfiles, List.mapM_cons, Noting.bind_ok hok]
    rfl
  have hconvert : ∃ c, (strayExport docs).convert { mode := .single } = .ok c ∧
      c.documents = [d] :=
    ⟨_, Except.bind_eq_ok.2 ⟨_, plan_strayExport docs,
      Except.bind_eq_ok.2 ⟨_, hdocuments, rfl⟩⟩, rfl⟩
  obtain ⟨c, hc, hds⟩ := hconvert
  refine ⟨c.output, d.path, d.title, d.body, d.links, by rw [hc]; rfl, ?_, htold⟩
  rw [Conversion.output, hds]
  rfl

/-- The root cannot be left out: where it is another item than the one that was checked, it
is written though it is not public, and its docs are seen. -/
theorem not_output_replace_strayItem : parse strayText = .ok (strayExport "A") ∧
    (strayExport "A").Hidden (strayItem "A") ∧ (strayItem "A").Alike (strayItem "B") ∧
    (((strayExport "A").replace (strayItem "B")).convert { mode := .single }).map
        Conversion.output ≠
      ((strayExport "A").convert { mode := .single }).map Conversion.output := by
  refine ⟨parse_strayText, hidden_strayItem "A", ⟨rfl, rfl, rfl, .macroRules _ _⟩, fun heq => ?_⟩
  have hreplace : (strayExport "A").replace (strayItem "B") = strayExport "B" := rfl
  obtain ⟨out, path, title, body, links, hout, hdocuments, htold⟩ :=
    output_strayExport document_straySite.1
  obtain ⟨out', path', title', body', links', hout', hdocuments', htold'⟩ :=
    output_strayExport document_straySite.2
  rw [hreplace, hout, hout'] at heq
  obtain rfl := Except.ok.inj heq
  rw [hdocuments] at hdocuments'
  cases hdocuments'
  rw [htold] at htold'
  cases htold'

end Export

end CrateBook
