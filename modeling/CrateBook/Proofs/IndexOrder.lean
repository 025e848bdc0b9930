import CrateBook.Proofs.ExportGate
import CrateBook.Proofs.Hidden
import CrateBook.Proofs.ObjectKeys
import CrateBook.Proofs.Reordering

/-!
# Indexes in another order

The entries of an index may stand in any order. As long as no two of them make items of one id,
or of ids that are sorted alike, the items under the ids are the same; and as long as no member
is listed by two items, so are the owners and containers of members. Then the one text is read
as an export if the other one is, and both give the same pages, navigation and report.
-/
namespace CrateBook

namespace Export

open Payload

section

variable {x x' : Export}

/-- Owners and containers are recorded in pairs. -/
theorem Indexed.owner_iff (hx : x.Indexed) {m o : Id} : x.owners.get? m = some o ↔
    ∃ c, x.owners.get? m = some o ∧ x.containers.get? m = some c := by
  refine ⟨fun ho => ?_, fun ⟨_, ho, _⟩ => ho⟩
  obtain ⟨c, hc⟩ := Option.ne_none_iff_exists'.1 fun hnone =>
    Option.some_ne_none o (ho.symm.trans ((hx.recorded.paired m).2 hnone))
  exact ⟨c, ho, hc⟩

theorem Indexed.container_iff (hx : x.Indexed) {m c : Id} : x.containers.get? m = some c ↔
    ∃ o, x.owners.get? m = some o ∧ x.containers.get? m = some c := by
  refine ⟨fun hc => ?_, fun ⟨_, _, hc⟩ => hc⟩
  obtain ⟨o, ho⟩ := Option.ne_none_iff_exists'.1 fun hnone =>
    Option.some_ne_none c (hc.symm.trans ((hx.recorded.paired m).1 hnone))
  exact ⟨o, ho, hc⟩

/-- What is recorded of a member, where no two items list it, is what its one lister says. -/
theorem Indexed.recorded_iff (hx : x.Indexed) (honce : x.ListedOnce) {m o c : Id} :
    (x.owners.get? m = some o ∧ x.containers.get? m = some c) ↔
      ∃ y ∈ x.items.toList, y.id = c ∧ Lists y o m := by
  constructor
  · rintro ⟨ho, hc⟩
    exact hx.recorded.listed m o c ho hc
  · rintro ⟨y, hy, rfl, hlists⟩
    have howner := hx.complete y hy o m hlists
    obtain ⟨o', ho'⟩ := Option.ne_none_iff_exists'.1 howner
    obtain ⟨c', -, hc'⟩ := hx.owner_iff.1 ho'
    obtain ⟨z, hz, rfl, hzlists⟩ := hx.recorded.listed m o' c' ho' hc'
    obtain rfl := honce y hy z hz o o' m hlists hzlists
    obtain ⟨ms, hms, -⟩ := hlists
    obtain ⟨ms', hms', -⟩ := hzlists
    obtain ⟨rfl, -⟩ := Prod.mk.inj (Except.ok.inj (hms.symm.trans hms'))
    exact ⟨ho', hc'⟩

theorem mem_toList_congr (h : x.items.get? = x'.items.get?) (y : Item) :
    y ∈ x.items.toList ↔ y ∈ x'.items.toList := by
  rw [Items.mem_toList, Items.mem_toList, h]

/-- Owners and containers are found in any order of the items. -/
theorem Indexed.tables_eq (hx : x.Indexed) (hx' : x'.Indexed) (honce : x.ListedOnce)
    (h : x.items.get? = x'.items.get?) :
    x.owners.get? = x'.owners.get? ∧ x.containers.get? = x'.containers.get? := by
  have honce' : x'.ListedOnce := fun y hy z hz => honce y ((mem_toList_congr h y).2 hy) z
    ((mem_toList_congr h z).2 hz)
  have hiff (m o c : Id) : (x.owners.get? m = some o ∧ x.containers.get? m = some c) ↔
      (x'.owners.get? m = some o ∧ x'.containers.get? m = some c) := by
    rw [hx.recorded_iff honce, hx'.recorded_iff honce']
    simp only [mem_toList_congr h]
  constructor
  · funext m
    refine Option.ext fun o => ?_
    rw [hx.owner_iff, hx'.owner_iff]
    exact exists_congr fun c => hiff m o c
  · funext m
    refine Option.ext fun c => ?_
    rw [hx.container_iff, hx'.container_iff]
    exact exists_congr fun o => hiff m o c

end

/-- The items that an index makes have distinct ids, and such as are sorted apart. -/
def DistinctIds (index : List (String × Value)) : Prop :=
  ((entries index).map fun e => e.1.key).Nodup

section

variable {es es' : List (String × Value)} (h : es.Perm es') (hids : DistinctIds es)

include h

theorem entries_perm : (entries es).Perm (entries es') := h.filterMap recordOf?

theorem DistinctIds.perm (hids : DistinctIds es) : DistinctIds es' :=
  ((entries_perm h).map _).nodup_iff.1 hids

omit h in
/-- Ids that are sorted apart are distinct. -/
theorem DistinctIds.nodup (hids : DistinctIds es) : ((entries es).map Prod.fst).Nodup := by
  have hmap : ((entries es).map fun e => e.1.key) = ((entries es).map Prod.fst).map Id.key := by
    rw [List.map_map]
    rfl
  exact List.Nodup.of_map Id.key (hmap ▸ hids)

include hids

/-- The entries that count are found in any order. -/
theorem get?_indexed_of_perm : (indexed es).get? = (indexed es').get? := by
  funext id
  have hperm := entries_perm h
  have hentries : (indexed es).entries = entries es := Table.entries_ofList hids.nodup
  have hentries' : (indexed es').entries = entries es' :=
    Table.entries_ofList (hids.perm h).nodup
  refine Option.ext fun raw => ?_
  rw [Table.get?_eq_some_iff, Table.get?_eq_some_iff, hentries, hentries', hperm.mem_iff]

variable {xs xs' : Items} (hxs : readItems .empty es = .ok xs)
  (hxs' : readItems .empty es' = .ok xs')

omit h hids in
theorem map_id_filterMap {es : List (Id × List (String × Value))}
    (hfits : ∀ e ∈ es, Item.fits e.2 = true) :
    (es.filterMap itemOf?).map (·.id) = es.map Prod.fst := by
  induction es with
  | nil => rfl
  | cons e es ih =>
    obtain ⟨y, hy⟩ := Item.exists_read e.1 (hfits e List.mem_cons_self)
    rw [List.filterMap_cons_some (itemOf?_eq_some.2 hy), List.map_cons, List.map_cons,
      Item.id_read hy, ih fun e' he' => hfits e' (List.mem_cons_of_mem e he')]

omit h hids in
theorem table_foldl_insert (ys : List Item) (xs : Items) : (ys.foldl Items.insert xs).table =
    (ys.map fun y => (y.id, y)).foldl (fun t e => t.insert e.1 e.2) xs.table := by
  induction ys generalizing xs with
  | nil => rfl
  | cons y ys ih => exact ih (xs.insert y)

omit h hids in
/-- The items of an index without repeated ids come in its order. -/
theorem toList_of_readItems (hids : DistinctIds es) (hxs : readItems .empty es = .ok xs) :
    xs.toList = (entries es).filterMap itemOf? := by
  have hnodup : ((((entries es).filterMap itemOf?).map fun y => (y.id, y)).map Prod.fst).Nodup := by
    have hmap := map_id_filterMap (readsIff_readItems.ok.1 ⟨xs, hxs⟩)
    rw [List.map_map]
    exact hmap ▸ hids.nodup
  rw [Items.toList, Table.values, eq_of_readItems hxs, table_foldl_insert]
  have hentries := Table.entries_ofList hnodup
  rw [Table.ofList] at hentries
  rw [show Items.empty.table = .empty from rfl, hentries, List.map_map]
  exact List.map_id _

end

section

variable {es es' : List (String × Value)} (h : es.Perm es') (hids : DistinctIds es)
  {x x' : Export} (hx : readItems .empty es = .ok x.items)

include hids hx

theorem nodup_keys_impls : (x.impls.map fun i => i.1.key).Nodup := by
  have hkeys : (x.items.toList.map fun y => y.id.key) = (entries es).map fun e => e.1.key := by
    have hmap := map_id_filterMap (readsIff_readItems.ok.1 ⟨x.items, hx⟩)
    have hmap := congrArg (List.map Id.key) hmap
    rw [List.map_map, List.map_map] at hmap
    rw [toList_of_readItems hids hx]
    exact hmap
  have hsub : (x.impls.map fun i => i.1.key).Sublist (x.items.toList.map fun y => y.id.key) :=
    sublist_map_filterMap (fun y i hi => ?_) _
  · rw [hkeys] at hsub
    exact hids.sublist hsub
  split at hi
  · obtain rfl := Option.some.inj hi
    rfl
  · cases hi

variable (hx' : readItems .empty es' = .ok x'.items)

include h hx'

/-- Items are found alike whatever the order of the index is. -/
theorem get?_items_of_perm : x.items.get? = x'.items.get? := by
  funext id
  rw [get?_of_readItems hx, get?_of_readItems hx', get?_indexed_of_perm h hids]

/-- The blocks are the same in another order. -/
theorem impls_perm : x.impls.Perm x'.impls := by
  have hitems : x.items.toList.Perm x'.items.toList := by
    rw [toList_of_readItems hids hx, toList_of_readItems (hids.perm h) hx']
    exact (entries_perm h).filterMap itemOf?
  exact hitems.filterMap _

end

/-- Two documents that differ in the order of their indexes only. -/
structure Reordered (doc doc' : List (String × Value)) : Prop where
  index : ∃ es es', doc.lookup "index" = some (.object es) ∧
    doc'.lookup "index" = some (.object es') ∧ es.Perm es'
  rest : ∀ k, k ≠ "index" → doc.lookup k = doc'.lookup k

namespace Reordered

variable {doc doc' : List (String × Value)} (h : Reordered doc doc')

include h

theorem part_eq {k : String} (hk : k ≠ "index") : part doc k = part doc' k := by
  rw [part, h.rest k hk, part]

theorem rootIdOf_eq : rootIdOf doc = rootIdOf doc' := by
  rw [rootIdOf, h.part_eq (by decide), rootIdOf]

theorem perm : (indexOf doc).Perm (indexOf doc') := by
  obtain ⟨es, es', hes, hes', hperm⟩ := h.index
  rw [indexOf, indexOf, part, part, hes, hes']
  exact hperm

/-- A document with distinct keys that passes the check of its structure does so in any order of
its index. -/
theorem passes (hpasses : Passes doc) (hkeys : ((indexOf doc).map Prod.fst).Nodup) :
    Passes doc' := by
  obtain ⟨es, es', hes, hes', hperm⟩ := h.index
  obtain ⟨index, rootId, raw, inner, hindex, hroot, hraw, hinner, hmodule⟩ := hpasses.root
  rw [part, hes, Option.getD_some] at hindex
  obtain rfl := Value.object.inj hindex
  have hkeys : (es.map Prod.fst).Nodup := by
    rwa [indexOf, part, hes] at hkeys
  have hkeys' : (es'.map Prod.fst).Nodup := (hperm.map Prod.fst).nodup_iff.1 hkeys
  refine ⟨h.part_eq (k := "format_version") (by decide) ▸ hpasses.version, es', rootId, raw, inner,
    ?_, ?_, ?_, hinner, hmodule⟩
  · rw [part, hes', Option.getD_some]
  · rw [← h.part_eq (k := "root") (by decide), hroot]
  · rw [← Table.lookup_eq_of_mem_iff hkeys hkeys' fun _ => hperm.mem_iff, hraw]

/-- A document that can be read can be read in any order of its index. -/
theorem readable (hids : DistinctIds (indexOf doc)) (hreadable : Readable doc) :
    Readable doc' := by
  have hget := get?_indexed_of_perm h.perm hids
  have hcontains : (indexed (indexOf doc)).contains = (indexed (indexOf doc')).contains := by
    funext id
    rw [Table.contains, hget, Table.contains]
  obtain ⟨es, es', -, hes', -⟩ := h.index
  have hrest {k : String} (hk : k ≠ "index") : part doc' k = part doc k := (h.part_eq hk).symm
  refine ⟨?_, fun e he => ?_, ?_, ?_, ?_, fun id raw hraw => ?_⟩
  · rw [part, hes', Option.getD_some, Value.isRecord, Bool.or_true]
  · exact hreadable.items e ((entries_perm h.perm).mem_iff.2 he)
  · rw [← hcontains, ← h.rootIdOf_eq]
    exact hreadable.root
  · rw [hrest (by decide)]
    exact hreadable.packages
  · rw [hrest (by decide)]
    refine ⟨hreadable.summaries.1, fun e he ms id hms hid hout => ?_⟩
    exact hreadable.summaries.2 e he ms id hms hid (hcontains ▸ hout)
  · exact hreadable.targets id raw (hget ▸ hraw)

end Reordered

theorem readSummaries_congr {xs xs' : Items} (h : xs.contains = xs'.contains) (package : Package)
    (t : Table Id Summary) (es : List (String × Value)) :
    readSummaries package xs t es = readSummaries package xs' t es := by
  induction es generalizing t with
  | nil => rfl
  | cons e es ih =>
    unfold readSummaries
    rw [h]
    simp only [ih]

/-- Of two documents that differ in the order of their indexes the one becomes an export if the
other one does, and the exports differ in their order only. -/
theorem exists_reorders {doc doc' : List (String × Value)} {x : Export} {version : Int}
    (h : Reordered doc doc') (hx : build doc version = .ok x) (hids : DistinctIds (indexOf doc))
    (honce : x.ListedOnce) : ∃ x', build doc' version = .ok x' ∧ x.Reorders x' := by
  obtain ⟨x', hx'⟩ := readsIff_build.ok.2 (h.readable hids (readsIff_build.ok.1 ⟨x, hx⟩))
  have hindexed := indexed_of_build hx
  have hindexed' := indexed_of_build hx'
  refine ⟨x', hx', ?_⟩
  obtain ⟨hitems, ⟨root, packages, hroot, hpackages, hpackage⟩, hexternal, -⟩ := parts_of_build hx
  obtain ⟨hitems', ⟨root', packages', hroot', hpackages', hpackage'⟩, hexternal', -⟩ :=
    parts_of_build hx'
  have hget := get?_items_of_perm h.perm hids hitems hitems'
  have hrest {k : String} (hk : k ≠ "index") : part doc' k = part doc k := (h.part_eq hk).symm
  rw [← hget, ← h.rootIdOf_eq, hroot] at hroot'
  obtain rfl := Option.some.inj hroot'
  rw [hrest (by decide), hpackages] at hpackages'
  obtain rfl := Except.ok.inj hpackages'
  have hsame : x.package = x'.package := by
    rw [hpackage, hpackage', packageOf, packageOf, h.rootIdOf_eq, h.part_eq (by decide),
      h.part_eq (k := "includes_private") (by decide)]
  have hcontains : x.items.contains = x'.items.contains := by
    funext id
    rw [Items.contains, hget, Items.contains]
  rw [hrest (by decide), ← hsame, ← readSummaries_congr hcontains, hexternal] at hexternal'
  obtain ⟨howners, hcontainers⟩ := hindexed.tables_eq hindexed' honce hget
  exact {
    package := hsame
    items := hget
    external := by rw [Except.ok.inj hexternal']
    owners := howners
    containers := hcontainers
    impls := impls_perm h.perm hids hitems hitems'
    keys := nodup_keys_impls hids hitems }

/-- **The order of the index does not matter.** Two texts whose documents differ in the order of
their indexes are both read as exports, if one is, and both exports have the same documents,
navigation and report, whatever the options, as long as the ids of the index are distinct and
sorted apart, and no member is listed by two items. -/
theorem results_eq_of_reordered {text text' : String} {doc doc' : List (String × Value)}
    {x : Export} (htext : Json.parse text = .ok (.object doc))
    (htext' : Json.parse text' = .ok (.object doc')) (h : Reordered doc doc')
    (hx : parse text = .ok x) (hids : DistinctIds (indexOf doc)) (honce : x.ListedOnce) :
    ∃ x', parse text' = .ok x' ∧ ∀ o,
      (x'.convert o).map Conversion.results = (x.convert o).map Conversion.results := by
  rw [parse_of_json htext] at hx
  obtain ⟨hpasses, hbuild⟩ := build_of_ofDocument hx
  have hkeys : ((indexOf doc).map Prod.fst).Nodup := by
    obtain ⟨es, es', hes, -⟩ := h.index
    cases Json.keyed_of_parse htext with
    | object _ hall =>
      have hkeyed := hall _ (mem_of_lookup_eq_some hes)
      cases hkeyed with
      | object hnodup _ =>
        rwa [indexOf, part, hes]
  obtain ⟨x', hx', hreorders⟩ := exists_reorders h hbuild hids honce
  refine ⟨x', ?_, hreorders.results⟩
  rw [parse_of_json htext', ofDocument_eq_of_passes (h.passes hpasses hkeys), hx']

/-- The crate with a private field, its index the other way round. -/
def reversedText : String := Sample.text fieldIndex.reverse

theorem reordered_fieldIndex :
    Reordered (Sample.members fieldIndex) (Sample.members fieldIndex.reverse) where
  index := ⟨_, _, rfl, rfl, (List.reverse_perm _).symm⟩
  rest k hk := by
    have hindex : (k == "index") = false := by simpa using hk
    simp only [Sample.members, List.lookup_cons, hindex]

theorem listedOnce_fieldExport : fieldExport.ListedOnce :=
  listedOnce_of_containers (by decide +kernel)

set_option maxRecDepth 4000 in
/-- The crate with a private field can be written the other way round. -/
theorem results_reversedText :
    Json.parse fieldText = .ok (.object (Sample.members fieldIndex)) ∧
    Json.parse reversedText = .ok (.object (Sample.members fieldIndex.reverse)) ∧
    Reordered (Sample.members fieldIndex) (Sample.members fieldIndex.reverse) ∧
    parse fieldText = .ok fieldExport ∧ DistinctIds (indexOf (Sample.members fieldIndex)) ∧
    fieldExport.ListedOnce ∧ (∃ c, fieldExport.convert {} = .ok c) ∧
    ∃ x', parse reversedText = .ok x' ∧ ∀ o,
      (x'.convert o).map Conversion.results = (fieldExport.convert o).map Conversion.results := by
  have htext : Json.parse fieldText = .ok (.object (Sample.members fieldIndex)) :=
    Sample.parse_textOf rereads_fieldIndex
  have hreversed : Json.parse reversedText = .ok (.object (Sample.members fieldIndex.reverse)) :=
    Sample.parse_textOf (by decide +kernel)
  have hids : DistinctIds (indexOf (Sample.members fieldIndex)) := by
    unfold DistinctIds
    decide +kernel
  exact ⟨htext, hreversed, reordered_fieldIndex, parse_fieldText, hids, listedOnce_fieldExport,
    exists_convert_fieldExport, results_eq_of_reordered htext hreversed reordered_fieldIndex
      parse_fieldText hids listedOnce_fieldExport⟩

end Export

end CrateBook
