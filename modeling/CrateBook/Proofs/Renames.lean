import CrateBook.Proofs.Addresses
import CrateBook.Proofs.Ordinals

/-!
# Renames that are recorded

A clash is recorded for the plain names that meet, with the names that settle it. A name can
also be changed without a clash of its own: where the qualified name of a request that clashes
reads like the plain name of a later one, the later one gets a number. These are exactly the
renames that no clash tells of. Among the files of a directory there are none.
-/
namespace CrateBook

namespace Layout

/-- The requests for names of one directory or page, with the names that none of them may take. -/
structure Round where
  directory : String
  reserved : List String
  requests : List Request

namespace Round

def names (r : Round) : Table Id String := namesOf r.reserved r.requests

/-- The clashes that are recorded. -/
def collisions (r : Round) : List Collision :=
  collisionsOf r.directory r.reserved (sortById (·.id) r.requests) r.names

/-- Among the clashes of a round, one settles on a name for an id. -/
def Records (r : Round) (id : Id) (name : String) : Prop :=
  ∃ c ∈ r.collisions, c.directory = r.directory ∧ c.resolved.get? id = some name

/-- A request whose plain name does not clash, but reads in lower case like the qualified name
of one in front of it that does. -/
def Overtaken (r : Round) (request : Request) : Prop :=
  clashes r.reserved r.requests request = false ∧
    ∃ front back, sortById (·.id) r.requests = front ++ request :: back ∧ ∃ q ∈ front,
      clashes r.reserved r.requests q = true ∧ Text.lower q.qualified = Text.lower request.base

end Round

section

variable {reserved : List String} {requests : List Request}

/-- Plain names that agree in lower case clash together. -/
theorem clashes_of_lower {q r : Request} (h : Text.lower q.base = Text.lower r.base) :
    clashes reserved requests q = clashes reserved requests r := by
  simp only [clashes, h]

theorem groupByBase_eq : groupByBase requests = requests.foldl
    (fun table r => table.push (Text.lower r.base) (id r)) .empty := rfl

/-- A group holds the requests of its plain name, in their order. -/
theorem eq_filter_of_group {g : String × List Request} (h : g ∈ (groupByBase requests).entries) :
    g.2 = requests.filter fun q => Text.lower q.base = g.1 := by
  rw [groupByBase_eq] at h
  simpa using Table.eq_of_mem_foldl_push h

/-- Every request stands in the group of its plain name. -/
theorem exists_group {r : Request} (h : r ∈ requests) :
    (Text.lower r.base, requests.filter fun q => Text.lower q.base = Text.lower r.base) ∈
      (groupByBase requests).entries := by
  have hpush := Table.getD_foldl_push (f := fun q => Text.lower q.base) (g := id) requests .empty
    (Text.lower r.base)
  rw [← groupByBase_eq, List.map_id, Table.get?_empty, Option.getD_none, List.nil_append] at hpush
  have hr : r ∈ requests.filter fun q => Text.lower q.base = Text.lower r.base := by
    simpa using h
  cases hget : (groupByBase requests).get? (Text.lower r.base) with
  | none =>
    rw [← hpush, hget] at hr
    exact absurd hr List.not_mem_nil
  | some group =>
    rw [hget, Option.getD_some] at hpush
    exact hpush ▸ Table.get?_eq_some_iff.1 hget

/-- A clash names a request just if the request clashes, and with the name it was given. -/
theorem exists_collision_iff {directory name : String} {names : Table Id String}
    (hids : (requests.map (·.id)).Nodup) {r : Request} (hr : r ∈ requests) :
    (∃ c ∈ collisionsOf directory reserved requests names, c.directory = directory ∧
        c.resolved.get? r.id = some name) ↔
      clashes reserved requests r = true ∧ (names.get? r.id).getD "" = name := by
  constructor
  · rintro ⟨c, hc, -, hname⟩
    obtain ⟨g, hg, hc⟩ := List.mem_filterMap.1 hc
    have hgroup := eq_filter_of_group (List.mem_mergeSort.1 hg)
    split at hc
    · cases hc
    · next q rest hq =>
      split at hc
      · next hclash =>
        cases hc
        obtain ⟨p, hp, heq⟩ := List.mem_map.1 (Table.mem_of_get?_ofList hname)
        rw [hgroup] at hp hq
        have hpr : p = r :=
          List.inj_on_of_nodup_map hids (List.mem_of_mem_filter hp) hr (Prod.mk.inj heq).1
        have hqmem : q ∈ requests.filter fun q => Text.lower q.base = g.1 :=
          hq ▸ List.mem_cons_self
        have hqbase : Text.lower q.base = g.1 := by simpa using (List.mem_filter.1 hqmem).2
        have hpbase : Text.lower p.base = g.1 := by simpa using (List.mem_filter.1 hp).2
        rw [← hpr]
        exact ⟨(clashes_of_lower (hpbase.trans hqbase.symm)).trans hclash, (Prod.mk.inj heq).2⟩
      · cases hc
  · rintro ⟨hclash, rfl⟩
    have hgroup := exists_group hr
    generalize hfilter : (requests.filter fun q => Text.lower q.base = Text.lower r.base) = group
      at hgroup
    have hmem : r ∈ group := by
      rw [← hfilter]
      simpa using hr
    obtain ⟨q, rest, rfl⟩ := List.exists_cons_of_ne_nil (List.ne_nil_of_mem hmem)
    have hqmem : q ∈ requests.filter fun q => Text.lower q.base = Text.lower r.base :=
      hfilter ▸ List.mem_cons_self
    have hqbase : Text.lower q.base = Text.lower r.base := by
      simpa using (List.mem_filter.1 hqmem).2
    have hqclash : clashes reserved requests q = true := (clashes_of_lower hqbase).trans hclash
    refine ⟨⟨directory, q.base,
      Table.ofList ((q :: rest).map fun p => (p.id, (names.get? p.id).getD ""))⟩,
      List.mem_filterMap.2 ⟨_, List.mem_mergeSort.2 hgroup, ?_⟩, rfl, ?_⟩
    · simp only [hqclash, if_true]
    · have hnodup : (((q :: rest).map fun p => (p.id, (names.get? p.id).getD "")).map
          Prod.fst).Nodup := by
        rw [List.map_map, ← hfilter]
        exact hids.sublist (List.filter_sublist.map _)
      rw [Table.get?_eq_some_iff, Table.entries_ofList hnodup]
      exact List.mem_map_of_mem hmem

end

section

variable {first : Request → String}

/-- The name of a request is that behind the requests in front of it. -/
theorem mem_numbered_append (before front : List Request) (r : Request) (back : List Request) :
    (r.id, nameBehind first (front.reverse ++ before) r) ∈
      numbered first before (front ++ r :: back) := by
  induction front generalizing before with
  | nil =>
    rw [List.nil_append, numbered_cons]
    exact List.mem_cons_self
  | cons q front ih =>
    rw [List.cons_append, numbered_cons, List.reverse_cons, List.append_assoc,
      List.singleton_append]
    exact List.mem_cons_of_mem _ (ih (q :: before))

/-- A name is the first one just if no request in front asked for it, whatever the case. -/
theorem nameBehind_eq_self_iff {before : List Request} {r : Request} :
    nameBehind first before r = first r ↔
      ∀ q ∈ before, Text.lower (first q) ≠ Text.lower (first r) := by
  have hnone : sharing first before r = 0 ↔
      ∀ q ∈ before, Text.lower (first q) ≠ Text.lower (first r) := by
    simp [sharing, List.countP_eq_zero]
  rw [← hnone, nameBehind_eq]
  split
  · next h => simp [h]
  · next h =>
    refine ⟨fun heq => ?_, fun hzero => absurd hzero h⟩
    have hlen := congrArg String.length heq
    have hdash : "-".length = 1 := by decide
    rw [String.length_append, String.length_append, hdash] at hlen
    omega

end

section

variable {reserved : List String} {requests : List Request}

/-- Requests behind the others in the order of ids are named behind them. -/
theorem get?_namesOf_append (hids : (requests.map (·.id)).Nodup) {front back : List Request}
    {r : Request} (h : sortById (·.id) requests = front ++ r :: back) :
    (namesOf reserved requests).get? r.id =
      some (nameBehind (firstName reserved requests) front.reverse r) := by
  have hfirst : firstName reserved (sortById (·.id) requests) = firstName reserved requests :=
    funext fun p => firstName_congr sorted_perm p
  rw [Table.get?_eq_some_iff, entries_namesOf hids, hfirst, h]
  simpa only [List.append_nil] using mem_numbered_append [] front r back

theorem firstName_of_not_clashes {r : Request} (h : clashes reserved requests r = false) :
    firstName reserved requests r = r.base := by
  rw [firstName, h, if_neg Bool.false_ne_true]

/-- A plain name that does not clash belongs to one request only. -/
theorem lower_base_ne_of_not_clashes {front back : List Request} {q r : Request}
    (h : sortById (·.id) requests = front ++ r :: back) (hq : q ∈ front)
    (hclash : clashes reserved requests r = false) : Text.lower q.base ≠ Text.lower r.base := by
  intro hbase
  have hcount :
      1 < (front ++ r :: back).countP fun p => Text.lower p.base == Text.lower r.base := by
    have hfront : 0 < front.countP fun p => Text.lower p.base == Text.lower r.base :=
      List.countP_pos_iff.2 ⟨q, hq, by simpa using hbase⟩
    rw [List.countP_append, List.countP_cons_of_pos (by simp)]
    omega
  have hmeets : clashes reserved (front ++ r :: back) r = true := by
    simp only [clashes, hcount, decide_true, Bool.true_or]
  rw [← clashes_congr sorted_perm, h, hmeets] at hclash
  cases hclash

end

namespace Round

variable {round : Round} (hids : (round.requests.map (·.id)).Nodup) {r : Request}
  (hr : r ∈ round.requests)

include hids hr

/-- A round records the name of a request just if its plain name clashes. -/
theorem records_iff {name : String} (hname : round.names.get? r.id = some name) :
    round.Records r.id name ↔ clashes round.reserved round.requests r = true := by
  have hperm : (sortById (·.id) round.requests).Perm round.requests := sorted_perm
  have hsorted : ((sortById (·.id) round.requests).map (·.id)).Nodup :=
    ((hperm.map _).nodup_iff).2 hids
  unfold Records collisions
  rw [exists_collision_iff hsorted (hperm.mem_iff.2 hr), clashes_congr hperm, hname]
  simp

/-- Every request gets a name. The name is changed without a record of it just if the request
is overtaken. -/
theorem exists_name_unrecorded_iff : ∃ name, round.names.get? r.id = some name ∧
    (name ≠ r.base ∧ ¬ round.Records r.id name ↔ round.Overtaken r) := by
  have hperm : (sortById (·.id) round.requests).Perm round.requests := sorted_perm
  obtain ⟨front, back, hsplit⟩ := List.append_of_mem (hperm.mem_iff.2 hr)
  have hname : round.names.get? r.id = _ := get?_namesOf_append hids hsplit
  refine ⟨_, hname, ?_⟩
  rw [records_iff hids hr hname, Bool.not_eq_true, and_comm]
  constructor
  · rintro ⟨hclash, hne⟩
    rw [← firstName_of_not_clashes hclash, ne_eq, nameBehind_eq_self_iff] at hne
    push Not at hne
    obtain ⟨q, hq, hlower⟩ := hne
    have hq : q ∈ front := List.mem_reverse.1 hq
    rw [firstName_of_not_clashes hclash] at hlower
    have hqclash : clashes round.reserved round.requests q = true := by
      by_contra hfree
      rw [Bool.not_eq_true] at hfree
      rw [firstName_of_not_clashes hfree] at hlower
      exact lower_base_ne_of_not_clashes hsplit hq hclash hlower
    rw [firstName, if_pos hqclash] at hlower
    exact ⟨hclash, front, back, hsplit, q, hq, hqclash, hlower⟩
  · rintro ⟨hclash, front', back', hsplit', q, hq, hqclash, hlower⟩
    have hname' : round.names.get? r.id = _ := get?_namesOf_append hids hsplit'
    rw [Option.some.inj (hname.symm.trans hname')]
    refine ⟨hclash, fun hself => ?_⟩
    rw [← firstName_of_not_clashes hclash, nameBehind_eq_self_iff] at hself
    refine hself q (List.mem_reverse.2 hq) ?_
    rw [firstName_of_not_clashes hclash, firstName, if_pos hqclash, hlower]

end Round

/-- Among the files of a directory no request is overtaken: a qualified name has the dot that no
plain name has. -/
theorem Round.not_overtaken_of_dot {round : Round}
    (h : ∀ r ∈ round.requests, '.' ∉ r.base.toList ∧ '.' ∈ r.qualified.toList) {r : Request}
    (hr : r ∈ round.requests) : ¬ round.Overtaken r := by
  have hdot {s : String} : '.' ∈ (Text.lower s).toList ↔ '.' ∈ s.toList := by
    rw [Text.lower, String.toList_ofList]
    exact Text.mem_lowerAfter (by decide)
  rintro ⟨-, front, back, hsplit, q, hq, -, hlower⟩
  have hqmem : q ∈ sortById (·.id) round.requests := hsplit ▸ List.mem_append_left _ hq
  have hqualified := (h q (sorted_perm.mem_iff.1 hqmem)).2
  rw [← hdot, hlower, hdot] at hqualified
  exact (h r hr).1 hqualified

/-- The rounds of a plan, in their order: one for the package, one for each module, or one for
each directory with items. -/
def rounds (t : Tree) (x : Export) : Mode → List Round
  | .single => [⟨"index.md", [], t.modules.flatMap (documentRequests t x)⟩]
  | .module => t.modules.map fun n => ⟨moduleFile n.path, [], moduleRequests t x n⟩
  | .item => (directories t).map fun e => ⟨e.1, reservedIn t e.1, itemRequests x e.2⟩

section

variable {t : Tree} {x : Export}

/-- A round that was made. -/
def Round.Allocated (r : Round) : Prop :=
  allocate r.directory r.reserved r.requests = .ok (r.names, r.collisions)

theorem Round.allocated_of_allocate {r : Round} {names : Table Id String}
    {collisions : List Collision}
    (h : allocate r.directory r.reserved r.requests = .ok (names, collisions)) :
    r.Allocated ∧ collisions = r.collisions := by
  have hnames := eq_namesOf_of_allocate h
  obtain ⟨u, -, hresult⟩ := Except.bind_eq_ok.1 h
  cases hresult
  exact ⟨h, rfl⟩

/-- Steps that make one round each make all rounds. -/
theorem allocated_of_foldlM {α : Type} {f : Draft → α → Checked Draft} {round : α → Round}
    (step : ∀ d a d', f d a = .ok d' → (round a).Allocated ∧ d'.2 = d.2 ++ (round a).collisions)
    {as : List α} {d d' : Draft} (h : as.foldlM f d = .ok d') :
    (∀ r ∈ as.map round, r.Allocated) ∧
      d'.2 = d.2 ++ (as.map round).flatMap Round.collisions := by
  induction as generalizing d with
  | nil =>
    cases h
    simp
  | cons a as ih =>
    rw [List.foldlM_cons] at h
    obtain ⟨c, hc, h⟩ := Except.bind_eq_ok.1 h
    obtain ⟨hallocated, hcollisions⟩ := step d a c hc
    obtain ⟨hrest, hmore⟩ := ih h
    rw [List.map_cons, List.forall_mem_cons, List.flatMap_cons]
    exact ⟨⟨hallocated, hrest⟩, by rw [hmore, hcollisions, List.append_assoc]⟩

/-- A plan that is made has made all of its rounds, and reports their clashes. -/
theorem allocated_of_plan {mode : Mode} {basePath : String} {l : Planned} {cs : List Collision}
    (h : Layout.plan t x mode basePath = .ok (l, cs)) :
    (∀ r ∈ rounds t x mode, r.Allocated) ∧ cs = (rounds t x mode).flatMap Round.collisions := by
  unfold Layout.plan at h
  cases mode with
  | single =>
    obtain ⟨⟨names, collisions⟩, halloc, h⟩ := Except.bind_eq_ok.1 h
    cases h
    obtain ⟨hallocated, hcollisions⟩ := Round.allocated_of_allocate
      (r := ⟨"index.md", [], t.modules.flatMap (documentRequests t x)⟩) halloc
    rw [rounds, List.forall_mem_singleton, List.flatMap_singleton]
    exact ⟨hallocated, hcollisions⟩
  | module =>
    refine allocated_of_foldlM (fun d n d' hd => ?_) h
    obtain ⟨⟨names, collisions⟩, halloc, hd⟩ := Except.bind_eq_ok.1 hd
    cases hd
    obtain ⟨hallocated, hcollisions⟩ := Round.allocated_of_allocate
      (r := ⟨moduleFile n.path, [], moduleRequests t x n⟩) halloc
    exact ⟨hallocated, congrArg (d.2 ++ ·) hcollisions⟩
  | item =>
    refine allocated_of_foldlM (fun d e d' hd => ?_) h
    obtain ⟨⟨names, collisions⟩, halloc, hd⟩ := Except.bind_eq_ok.1 hd
    cases hd
    obtain ⟨hallocated, hcollisions⟩ := Round.allocated_of_allocate
      (r := ⟨e.1, reservedIn t e.1, itemRequests x e.2⟩) halloc
    exact ⟨hallocated, congrArg (d.2 ++ ·) hcollisions⟩

end

section

variable {x : Export} {includePrivate : Bool}

variable (x includePrivate) in
/-- Members of modules at their primary placements are different items. -/
theorem nodup_primary_ids : (((Tree.ofExport x includePrivate).modules.flatMap
    (primaryMembers (Tree.ofExport x includePrivate))).map (·.itemId)).Nodup := by
  refine (nodup_primaryMembers x includePrivate).map_on fun p hp q hq hid => ?_
  obtain ⟨m, -, hp⟩ := List.mem_flatMap.1 hp
  obtain ⟨n, -, hq⟩ := List.mem_flatMap.1 hq
  exact PlacementMap.eq_of_isPrimary (mem_primaryMembers.1 hp).2 (mem_primaryMembers.1 hq).2 hid

/-- A module stands at its primary placement once. -/
theorem eq_of_isPrimaryNode {m n : Node} (hm : m ∈ (Tree.ofExport x includePrivate).modules)
    (hn : n ∈ (Tree.ofExport x includePrivate).modules)
    (hmself : (Tree.ofExport x includePrivate).isPrimaryNode m = true)
    (hnself : (Tree.ofExport x includePrivate).isPrimaryNode n = true) (hid : m.id = n.id) :
    m = n := by
  obtain ⟨p, hp, hmpath⟩ := (Option.any_eq_true _ _).1 hmself
  obtain ⟨q, hq, hnpath⟩ := (Option.any_eq_true _ _).1 hnself
  rw [hid] at hp
  obtain rfl := Option.some.inj (hp.symm.trans hq)
  have hpath : m.path = n.path := (beq_iff_eq.1 hmpath).symm.trans (beq_iff_eq.1 hnpath)
  exact List.inj_on_of_nodup_map (Tree.nodup_module_paths x includePrivate) hm hn hpath

theorem ids_documentRequests (n : Node) :
    (documentRequests (Tree.ofExport x includePrivate) x n).map (·.id) =
      (if (Tree.ofExport x includePrivate).isPrimaryNode n then [n.id] else []) ++
        (primaryMembers (Tree.ofExport x includePrivate) n).map (·.itemId) := by
  rw [documentRequests, List.map_append, List.map_map]
  congr 1
  split <;> rfl

/-- On a page of the whole package, every module and every item asks for one anchor. -/
theorem nodup_ids_document : (((Tree.ofExport x includePrivate).modules.flatMap
    (documentRequests (Tree.ofExport x includePrivate) x)).map (·.id)).Nodup := by
  have hmembers := nodup_primary_ids x includePrivate
  rw [List.map_flatMap] at hmembers
  have hmodules : (Tree.ofExport x includePrivate).modules.Nodup :=
    List.Nodup.of_map _ (Tree.nodup_module_paths x includePrivate)
  rw [List.map_flatMap, List.nodup_flatMap]
  constructor
  · intro n hn
    rw [ids_documentRequests, List.nodup_append]
    refine ⟨?_, (List.nodup_flatMap.1 hmembers).1 n hn, ?_⟩
    · split
      · exact List.nodup_singleton _
      · exact List.nodup_nil
    · intro a ha b hb hab
      obtain ⟨p, hp, rfl⟩ := List.mem_map.1 hb
      have hself : a = n.id := by
        split at ha
        · exact List.mem_singleton.1 ha
        · exact absurd ha List.not_mem_nil
      exact Tree.node_id_ne_member x includePrivate n hn p (mem_primaryMembers.1 hp).1 n hn
        (hself.symm.trans hab)
  · refine (List.nodup_iff_pairwise_ne.1 hmodules).imp_of_mem fun {m n} hm hn hne id hidm hidn => ?_
    rcases mem_ids_documentRequests.1 hidm with ⟨hmself, hmid⟩ | hmid <;>
      rcases mem_ids_documentRequests.1 hidn with ⟨hnself, hnid⟩ | hnid
    · exact hne (eq_of_isPrimaryNode hm hn hmself hnself (hmid.symm.trans hnid))
    · obtain ⟨p, hp, rfl⟩ := List.mem_map.1 hnid
      exact Tree.node_id_ne_member x includePrivate n hn p (mem_primaryMembers.1 hp).1 m hm
        hmid.symm
    · obtain ⟨p, hp, rfl⟩ := List.mem_map.1 hmid
      exact Tree.node_id_ne_member x includePrivate m hm p (mem_primaryMembers.1 hp).1 n hn
        hnid.symm
    · obtain ⟨p, hp, rfl⟩ := List.mem_map.1 hmid
      obtain ⟨q, hq, hid⟩ := List.mem_map.1 hnid
      have hp := mem_primaryMembers.1 hp
      have hq := mem_primaryMembers.1 hq
      obtain rfl := PlacementMap.eq_of_isPrimary hq.2 hp.2 hid
      exact hne (Tree.node_eq_of_member x includePrivate hm hn hp.1 hq.1)

/-- In a round of a plan every id asks for one name. -/
theorem nodup_ids_round {mode : Mode} {round : Round}
    (h : round ∈ rounds (Tree.ofExport x includePrivate) x mode) :
    (round.requests.map (·.id)).Nodup := by
  cases mode with
  | single =>
    obtain rfl := List.mem_singleton.1 h
    exact nodup_ids_document
  | module =>
    obtain ⟨n, hn, rfl⟩ := List.mem_map.1 h
    have hmembers := nodup_primary_ids x includePrivate
    rw [List.map_flatMap] at hmembers
    dsimp only
    rw [ids_moduleRequests]
    exact (List.nodup_flatMap.1 hmembers).1 n hn
  | item =>
    obtain ⟨entry, hentry, rfl⟩ := List.mem_map.1 h
    exact nodup_ids_directory hentry

/-- Among the files of identifiers no request is overtaken. -/
theorem PlainNames.not_overtaken (h : PlainNames (Tree.ofExport x includePrivate) x)
    {round : Round} (hround : round ∈ rounds (Tree.ofExport x includePrivate) x .item)
    {r : Request} (hr : r ∈ round.requests) : ¬ round.Overtaken r := by
  obtain ⟨entry, hentry, rfl⟩ := List.mem_map.1 hround
  refine Round.not_overtaken_of_dot (fun q hq => ?_) hr
  obtain ⟨p, hp, rfl⟩ := List.mem_map.1 hq
  obtain ⟨n, hn, -, hmember, -⟩ := exists_node_of_directory hentry hp
  exact ⟨(h.names _ p (Tree.recorded_members x includePrivate n hn p hmember)).2.1, by simp⟩

/-- A plan reports the clashes of its rounds. In every round each request gets a name, and this
name is changed without a record of it just if the request is overtaken: its plain name is its
own, but reads like the qualified name of one in front of it that clashes. Files of identifiers
are never overtaken. -/
theorem recordsRenames_of_plan {mode : Mode} {basePath : String} {l : Planned}
    {cs : List Collision}
    (h : Layout.plan (Tree.ofExport x includePrivate) x mode basePath = .ok (l, cs)) :
    cs = (rounds (Tree.ofExport x includePrivate) x mode).flatMap Round.collisions ∧
      ∀ round ∈ rounds (Tree.ofExport x includePrivate) x mode,
        allocate round.directory round.reserved round.requests =
          .ok (round.names, round.collisions) ∧
        ∀ r ∈ round.requests, ∃ name, round.names.get? r.id = some name ∧
          (name ≠ r.base ∧ ¬ round.Records r.id name ↔ round.Overtaken r) ∧
          (mode = .item → PlainNames (Tree.ofExport x includePrivate) x →
            name ≠ r.base → round.Records r.id name) := by
  obtain ⟨hallocated, hcollisions⟩ := allocated_of_plan h
  refine ⟨hcollisions, fun round hround => ⟨hallocated round hround, fun r hr => ?_⟩⟩
  obtain ⟨name, hname, hiff⟩ := Round.exists_name_unrecorded_iff (nodup_ids_round hround) hr
  refine ⟨name, hname, hiff, fun hmode hplain hne => ?_⟩
  subst hmode
  by_contra hmissing
  exact hplain.not_overtaken hround hr (hiff.1 ⟨hne, hmissing⟩)

end

end Layout

/-- A crate of three functions: the names of two have one slug, and that of the third one is
the slug with the word for functions in front. -/
def slugExport : Export := Sample.crate [
  Sample.module "0" "demo" ["1", "2", "3"], Sample.function "1" "a__b",
  Sample.function "2" "a_b", Sample.function "3" "fn_a_b"]

/-- The crate of three functions as a text. -/
def slugText : String := Sample.text [
  ("0", Sample.moduleEntry "demo" [1, 2, 3]), ("1", Sample.functionEntry "a__b"),
  ("2", Sample.functionEntry "a_b"), ("3", Sample.functionEntry "fn_a_b")]

set_option maxRecDepth 4000 in
theorem parse_slugText : Export.parse slugText = .ok slugExport :=
  Sample.read_textOf (by decide +kernel) rfl

/-- The tree of the three functions. -/
def slugTree : Tree :=
  ⟨((({} : PlacementMap).add ⟨"0", ["demo"], false⟩).add ⟨"1", ["demo", "a__b"], false⟩).add
      ⟨"2", ["demo", "a_b"], false⟩ |>.add ⟨"3", ["demo", "fn_a_b"], false⟩,
    .mk "0" ["demo"] []
      [⟨"1", ["demo", "a__b"], false⟩, ⟨"2", ["demo", "a_b"], false⟩,
        ⟨"3", ["demo", "fn_a_b"], false⟩] []⟩

theorem tree_slugExport : Tree.ofExport slugExport false = slugTree := by
  have hroot : Tree.candidates slugExport false ["0"] "0" =
      [.member "1" "a__b" false, .member "2" "a_b" false, .member "3" "fn_a_b" false] := rfl
  have hname : slugExport.package.name = "demo" := rfl
  have hid : slugExport.package.rootId = "0" := rfl
  have hfirst : (({} : PlacementMap).add ⟨"0", ["demo"], false⟩).holds "1" ["demo", "a__b"] =
      false := by decide
  have hsecond : ((({} : PlacementMap).add ⟨"0", ["demo"], false⟩).add
      ⟨"1", ["demo", "a__b"], false⟩).holds "2" ["demo", "a_b"] = false := by decide
  have hthird : (((({} : PlacementMap).add ⟨"0", ["demo"], false⟩).add
      ⟨"1", ["demo", "a__b"], false⟩).add ⟨"2", ["demo", "a_b"], false⟩).holds "3"
        ["demo", "fn_a_b"] = false := by decide
  have hsorted : ([⟨"1", ["demo", "a__b"], false⟩, ⟨"2", ["demo", "a_b"], false⟩,
      ⟨"3", ["demo", "fn_a_b"], false⟩] : List Placement).mergeSort Tree.memberLe =
      [⟨"1", ["demo", "a__b"], false⟩, ⟨"2", ["demo", "a_b"], false⟩,
        ⟨"3", ["demo", "fn_a_b"], false⟩] := List.mergeSort_of_pairwise (by decide +kernel)
  simp [Tree.ofExport, hname, hid, hroot, Tree.place, Tree.Growth.addMember, Tree.Growth.node,
    slugTree, PlacementMap.isNew, hfirst, hsecond, hthird, hsorted]

/-- The one round of the three functions, where every module has a page. -/
def slugRound : Layout.Round where
  directory := "index.md"
  reserved := []
  requests := [⟨"1", "a-b", "fn-a-b"⟩, ⟨"2", "a-b", "fn-a-b"⟩, ⟨"3", "fn-a-b", "fn-fn-a-b"⟩]

theorem rounds_slugExport :
    Layout.rounds (Tree.ofExport slugExport false) slugExport .module = [slugRound] := by
  have hmodules : slugTree.modules = [slugTree.root] := rfl
  have hrequests : Layout.moduleRequests slugTree slugExport slugTree.root =
      slugRound.requests := by decide +kernel
  rw [tree_slugExport, Layout.rounds, hmodules, List.map_singleton, hrequests]
  rfl

theorem entries_slugRound : slugRound.names.entries =
    [("1", "fn-a-b"), ("2", "fn-a-b-2"), ("3", "fn-a-b-3")] := by
  rw [Layout.Round.names, Layout.entries_namesOf_of_pairwise (by decide) (by decide +kernel)]
  decide +kernel

theorem exists_plan_slugExport : ∃ l cs,
    Layout.plan (Tree.ofExport slugExport false) slugExport .module "" = .ok (l, cs) :=
  Sample.exists_layout (by decide) ⟨_, rfl⟩ .module

namespace Layout

/-- The second function is renamed with a record. -/
theorem recordsRenames_of_plan_slug : ∃ l cs,
    Layout.plan (Tree.ofExport slugExport false) slugExport .module "" = .ok (l, cs) ∧
      cs = slugRound.collisions ∧ slugRound.names.get? "2" = some "fn-a-b-2" ∧
      slugRound.Records "2" "fn-a-b-2" := by
  obtain ⟨l, cs, hplan⟩ := exists_plan_slugExport
  obtain ⟨hcs, hrounds⟩ := recordsRenames_of_plan hplan
  rw [rounds_slugExport, List.flatMap_singleton] at hcs
  rw [rounds_slugExport, List.forall_mem_singleton] at hrounds
  obtain ⟨name, hname, hiff, -⟩ := hrounds.2 ⟨"2", "a-b", "fn-a-b"⟩ (by decide)
  have hgiven : slugRound.names.get? "2" = some "fn-a-b-2" := by
    rw [Table.get?_eq_some_iff, entries_slugRound]
    decide
  obtain rfl := Option.some.inj (hgiven.symm.trans hname)
  have hclash : clashes slugRound.reserved slugRound.requests ⟨"2", "a-b", "fn-a-b"⟩ = true := by
    decide +kernel
  refine ⟨l, cs, hplan, hcs, hgiven, ?_⟩
  by_contra hmissing
  have hovertaken := hiff.1 ⟨by decide, hmissing⟩
  exact Bool.false_ne_true (hovertaken.1.symm.trans hclash)

/-- The third function is renamed too, and nothing tells of it. -/
theorem not_recordsRenames_slug : Export.parse slugText = .ok slugExport ∧
    (∃ l, Layout.plan (Tree.ofExport slugExport false) slugExport .module "" =
      .ok (l, slugRound.collisions)) ∧
    slugRound ∈ rounds (Tree.ofExport slugExport false) slugExport .module ∧
    ∃ r ∈ slugRound.requests, ∃ name, slugRound.names.get? r.id = some name ∧ name ≠ r.base ∧
      ¬ slugRound.Records r.id name := by
  obtain ⟨l, cs, hplan⟩ := exists_plan_slugExport
  have hcs := (allocated_of_plan hplan).2
  rw [rounds_slugExport, List.flatMap_singleton] at hcs
  have hgiven : slugRound.names.get? "3" = some "fn-a-b-3" := by
    rw [Table.get?_eq_some_iff, entries_slugRound]
    decide
  refine ⟨parse_slugText, ⟨l, hcs ▸ hplan⟩, rounds_slugExport ▸ List.mem_singleton_self _,
    ⟨"3", "fn-a-b", "fn-fn-a-b"⟩, by decide, _, hgiven, by decide, ?_⟩
  rw [Round.records_iff (by decide) (by decide) hgiven]
  decide +kernel

end Layout

end CrateBook
