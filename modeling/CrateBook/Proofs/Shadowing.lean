import CrateBook.Export.Reader
import CrateBook.Proofs.Members
import CrateBook.Proofs.SampleCrates

/-!
# Which module stands at a name

A node has one child for a name, and the candidates compete for it: the module that comes
first in the order of the list stays, those that come later are dropped. So the children of a
node are known from its module's list alone. A module that is declared in the list, and that
no other entry of the list could replace, is a child of the node exactly when no glob that
stands before it has brought another module of its name.
-/
namespace CrateBook

/-- A lineage below a node goes on from the node's own lineage. -/
theorem Node.Lineage.append {root n m : Node} {above js : List Id}
    (h : root.Lineage (n.id :: above) n) (hm : n.Lineage js m) :
    root.Lineage (js ++ above) m := by
  induction hm with
  | root => exact h
  | child _ hc ih => exact .child ih hc

namespace Export

variable (x : Export) (includePrivate : Bool)

/-- The id is an included module of this name. -/
def IsModuleNamed (id : Id) (name : String) : Prop :=
  name ≠ "" ∧ ∃ y, x.items.get? id = some y ∧ y.isIncluded includePrivate = true ∧
    y.payload.isModule = true ∧ y.name = some name

/-- A module lists another one, which is neither itself nor above it, and lists nothing else
that goes by the name of that one, globs apart. -/
structure Declares (above : List Id) (m id : Id) (name : String) : Prop where
  listed : id ∈ x.listed m
  named : x.IsModuleNamed includePrivate id name
  below : id ∉ above
  noModule : ∀ j ∈ x.listed m, j ≠ id → ∀ z, x.items.get? j = some z →
    z.payload.isModule = true → z.name ≠ some name
  noUse : ∀ j ∈ x.listed m, ∀ u, x.items.payload? j = some (.use u) → u.isGlob = false →
    u.name ≠ name

end Export

namespace Tree

/-- The module that a candidate brings under a name, past the modules of a stack. -/
def Candidate.moduleAt? (stack : List Id) (name : String) : Candidate → Option Id
  | .module id n _ => if n = name ∧ id ∉ stack then some id else none
  | _ => none

/-- The entry that a candidate is. -/
def Candidate.entry? : Candidate → Option ReExport
  | .reexport r => some r
  | _ => none

/-- The module that comes first under a name among what some ids of a list stand for. -/
def firstFor (x : Export) (includePrivate : Bool) (stack : List Id) (name : String)
    (ids : List Id) : Option Id :=
  (ids.flatMap (listChild x includePrivate stack)).findSome? (Candidate.moduleAt? stack name)

/-- The module that stands at a path below a node under way. -/
def Growth.childAt? (g : Growth) (path : List String) : Option Id :=
  (g.children.find? fun c => c.path == path).map Node.id

/-- A node shows all that its module lists: the items that it offers, for each name the
module that comes first, and the re-exports that lead out of the package. -/
structure Filled (x : Export) (includePrivate : Bool) (above : List Id) (n : Node) : Prop where
  members : ∀ id path, (id, path) ∈ n.members.map Placement.key ↔
    ∃ name, name ≠ "" ∧ path = n.path ++ [name] ∧
      ∃ y, x.IsPlaceable includePrivate id y ∧ x.Offers includePrivate above n.id id y name
  children : ∀ id name, (∃ c ∈ n.children, c.id = id ∧ c.path = n.path ++ [name]) ↔
    firstFor x includePrivate above name (x.listed n.id) = some id
  reexports : n.reexports =
    ((x.listed n.id).flatMap (listChild x includePrivate above)).filterMap Candidate.entry?

/-- A node has a module as its child under a name, with its own contents all the way down. -/
def HasChild (x : Export) (includePrivate : Bool) (above : List Id) (n : Node) (id : Id)
    (name : String) : Prop :=
  ∃ c ∈ n.children, c.id = id ∧ c.path = n.path ++ [name] ∧
    ∀ js m, c.Lineage js m → Filled x includePrivate (js ++ above) m

/-- Another module has come under a name before the place of an id in a list. -/
def Displaced (x : Export) (includePrivate : Bool) (above : List Id) (m id : Id)
    (name : String) : Prop :=
  ∃ other ≠ id,
    firstFor x includePrivate above name ((x.listed m).takeWhile (· ≠ id)) = some other

variable {x : Export} {includePrivate : Bool}

section

variable {stack : List Id} {path : List String} {g : Growth} {name : String}

theorem childAt?_addMember (p : Placement) : (g.addMember p).childAt? path = g.childAt? path := by
  unfold Growth.addMember
  split <;> rfl

theorem childAt?_eq_none_iff : g.childAt? path = none ↔ g.hasChild path = false := by
  simp [Growth.childAt?, Growth.hasChild]

/-- A new child is found at its own path, behind the children of before. -/
theorem childAt?_push (c : Node) (before : PlacementMap) (q : List String) :
    Growth.childAt? { g with placements := before, children := g.children ++ [c] } q =
      (g.childAt? q).or (if c.path = q then some c.id else none) := by
  simp only [Growth.childAt?, List.find?_append, List.find?_singleton, beq_iff_eq]
  cases g.children.find? fun d => d.path == q with
  | some d => rfl
  | none =>
    split <;> rfl

/-- What one candidate brings comes before what the rest brings. -/
theorem or_findSome?_cons {c : Candidate} {rest : List Candidate} {old new all : Option Id}
    (hnew : new = old.or (c.moduleAt? stack name))
    (hall : all = new.or (rest.findSome? (Candidate.moduleAt? stack name))) :
    all = old.or ((c :: rest).findSome? (Candidate.moduleAt? stack name)) := by
  rw [hall, hnew, Option.or_assoc, List.findSome?_cons]
  cases c.moduleAt? stack name <;> rfl

/-- The child at a name is the one of before, or the first that the candidates bring. -/
theorem childAt?_place (stack : List Id) (path : List String) (g : Growth)
    (cs : List Candidate) (hcs : ∀ c ∈ cs, c.Known x) :
    (place x includePrivate stack path g cs).childAt? (path ++ [name]) =
      (g.childAt? (path ++ [name])).or (cs.findSome? (Candidate.moduleAt? stack name)) := by
  fun_induction place x includePrivate stack path g cs with
  | case1 stack path g => rw [List.findSome?_nil, Option.or_none]
  | case2 stack path g r rest ih =>
    exact or_findSome?_cons Option.or_none.symm (ih fun c hc => hcs c (List.mem_cons_of_mem _ hc))
  | case3 stack path g id nm via rest ih =>
    refine or_findSome?_cons ?_ (ih fun c hc => hcs c (List.mem_cons_of_mem _ hc))
    rw [childAt?_addMember]
    exact Option.or_none.symm
  | case4 stack path g id nm via rest childPath hid hchild ih =>
    refine or_findSome?_cons ?_ (ih fun c hc => hcs c (List.mem_cons_of_mem _ hc))
    by_cases hnm : nm = name
    · -- the place is taken
      subst hnm
      cases hold : g.childAt? childPath with
      | none => exact absurd hchild (by simp [childAt?_eq_none_iff.1 hold])
      | some i => rfl
    · rw [Candidate.moduleAt?, if_neg fun h => hnm h.1, Option.or_none]
  | case5 stack path g id nm via rest childPath hid hchild inner _ _ ih =>
    refine or_findSome?_cons ?_ (ih fun c hc => hcs c (List.mem_cons_of_mem _ hc))
    have hpath : (inner.node id childPath).path = path ++ [name] ↔ nm = name := by
      simp [Growth.node, Node.path, childPath]
    have hid' : (inner.node id childPath).id = id := rfl
    simp only [childAt?_push, hpath, hid', Candidate.moduleAt?, hid.2, not_false_eq_true, and_true]
  | case6 stack path g id nm via rest hid ih =>
    refine or_findSome?_cons ?_ (ih fun c hc => hcs c (List.mem_cons_of_mem _ hc))
    obtain ⟨-, y, hy, -⟩ := hcs _ List.mem_cons_self
    have hstack : id ∈ stack := not_not.1 fun h => hid ⟨Items.mem_ids_of_get? hy, h⟩
    rw [Candidate.moduleAt?, if_neg fun h => h.2 hstack, Option.or_none]

theorem reexports_addMember (p : Placement) : (g.addMember p).reexports = g.reexports := by
  unfold Growth.addMember
  split <;> rfl

/-- A run puts down the entries among its candidates, in their order. -/
theorem reexports_place (stack : List Id) (path : List String) (g : Growth)
    (cs : List Candidate) : (place x includePrivate stack path g cs).reexports =
      g.reexports ++ cs.filterMap Candidate.entry? := by
  fun_induction place x includePrivate stack path g cs with
  | case1 => simp
  | case2 stack path g r rest ih => simp [ih, Candidate.entry?]
  | case3 stack path g id nm via rest ih => rw [ih, reexports_addMember]; rfl
  | case4 stack path g id nm via rest childPath hid hchild ih => exact ih
  | case5 stack path g id nm via rest childPath hid hchild inner _ _ ih => exact ih
  | case6 stack path g id nm via rest hid ih => exact ih

end

section

variable {n : Node} {ids : List Id} {id : Id} {name : String}

/-- In a grown node, children of one path are one child. -/
theorem childAt?_eq_some_iff {g : Growth} {path : List String}
    (h : (g.children.map Node.path).Nodup) :
    g.childAt? path = some id ↔ ∃ c ∈ g.children, c.id = id ∧ c.path = path := by
  constructor
  · intro hchild
    obtain ⟨c, hc, rfl⟩ := Option.map_eq_some_iff.1 hchild
    exact ⟨c, List.mem_of_find?_eq_some hc, rfl, by simpa using List.find?_some hc⟩
  · rintro ⟨c, hc, rfl, rfl⟩
    rw [Growth.childAt?, Option.map_eq_some_iff]
    cases hfind : g.children.find? fun d => d.path == c.path with
    | none => exact absurd (beq_self_eq_true c.path) (List.find?_eq_none.1 hfind c hc)
    | some d =>
      have hpath : d.path = c.path := by simpa using List.find?_some hfind
      exact ⟨d, rfl, congrArg Node.id
        (List.inj_on_of_nodup_map h (List.mem_of_find?_eq_some hfind) hc hpath)⟩

/-- Every node of a tree shows all that its module lists. -/
theorem filled_of_lineage (h : (ofExport x includePrivate).root.Lineage ids n) :
    Filled x includePrivate ids n := by
  have hgrown := grown_modules x includePrivate n h.mem_walk
  obtain ⟨hg, -, -⟩ := grownBy_lineage x includePrivate h
  next nid npath before g =>
  have hnodup : (g.children.map Node.path).Nodup :=
    (((List.mergeSort_perm g.children childLe).map Node.path).nodup_iff).1 hgrown.children_nodup
  refine ⟨fun _ _ => key_mem_members_iff h, fun id name => ?_, ?_⟩
  · have hchild : g.childAt? (npath ++ [name]) =
        firstFor x includePrivate ids name (x.listed nid) := by
      rw [hg, childAt?_place _ _ _ _ (known_candidates ids nid), candidates_eq]
      exact Option.none_or
    refine Iff.trans ?_ (hchild ▸ childAt?_eq_some_iff hnodup).symm
    simp only [Growth.node, Node.children, Node.path, List.mem_mergeSort]
  · have hentries : g.reexports = _ := hg ▸ reexports_place ids npath _ _
    rw [candidates_eq, List.nil_append] at hentries
    exact hentries

/-- A node has a child under a name exactly if its module comes first there. -/
theorem hasChild_iff (h : (ofExport x includePrivate).root.Lineage ids n) :
    HasChild x includePrivate ids n id name ↔
      firstFor x includePrivate ids name (x.listed n.id) = some id := by
  rw [← (filled_of_lineage h).children]
  constructor
  · rintro ⟨c, hc, hid, hpath, -⟩
    exact ⟨c, hc, hid, hpath⟩
  · rintro ⟨c, hc, hid, hpath⟩
    exact ⟨c, hc, hid, hpath, fun js m hm => filled_of_lineage ((h.child hc).append hm)⟩

end

section

variable {stack : List Id} {m id j : Id} {y : Item} {nm : Option String} {name : String}
  {via v : Bool}

theorem firstFor_append (as bs : List Id) : firstFor x includePrivate stack name (as ++ bs) =
    (firstFor x includePrivate stack name as).or (firstFor x includePrivate stack name bs) := by
  rw [firstFor, List.flatMap_append, List.findSome?_append, firstFor, firstFor]

theorem module_mem_candidate (hy : x.items.get? j = some y) :
    .module id name v ∈ candidate y nm via →
      id = j ∧ nm = some name ∧ name ≠ "" ∧ y.payload.isModule = true := by
  have hid : y.id = j := Items.id_of_get? hy
  intro hc
  unfold candidate at hc
  split at hc
  · exact absurd hc List.not_mem_nil
  · next n =>
    split at hc
    · exact absurd hc List.not_mem_nil
    · next hn =>
      split at hc
      · next hmod =>
        obtain ⟨rfl, rfl, -⟩ := Candidate.module.inj (List.mem_singleton.1 hc)
        exact ⟨hid, rfl, by simpa using hn, hmod⟩
      · split at hc <;> simp at hc

theorem isModuleNamed_of_mem_ownCandidates
    (h : .module id name v ∈ ownCandidates x includePrivate via j) :
    id = j ∧ x.IsModuleNamed includePrivate id name := by
  cases hy : x.items.get? j with
  | none => simp [ownCandidates, hy] at h
  | some y =>
    obtain ⟨hinc, -, hc⟩ := (mem_ownCandidates hy).1 h
    obtain ⟨rfl, hname, hne, hmod⟩ := module_mem_candidate hy hc
    exact ⟨rfl, hne, y, hy, hinc, hmod, hname⟩

/-- A re-export that is no glob brings a module under its own name only. -/
theorem module_mem_listUse {u : UseBody}
    (h : .module id name v ∈ listUse x includePrivate stack y u) :
    u.isGlob = false ∧ u.name = name ∨ u.isGlob = true ∧ ∃ t, u.target = some t ∧
      x.items.contains t = true ∧ .module id name v ∈ listGlob x includePrivate stack t := by
  unfold listUse at h
  split at h
  · simp at h
  · next t ht =>
    split at h
    · simp at h
    · next hknown =>
      split at h
      · next hglob => exact .inr ⟨hglob, t, ht, by simpa using hknown, h⟩
      · next hglob =>
        split at h
        · simp at h
        · split at h
          · simp at h
          · next hz =>
            split at h
            · obtain ⟨-, hname, -⟩ := module_mem_candidate hz h
              exact .inl ⟨by simpa using hglob, Option.some.inj hname⟩
            · simp at h

/-- A module that is listed stands for itself. -/
theorem listChild_module (h : x.IsModuleNamed includePrivate id name) :
    listChild x includePrivate stack id = [.module id name false] := by
  obtain ⟨hne, y, hy, hinc, hmod, hname⟩ := h
  have hcandidate : candidate y y.name false = [.module id name false] := by
    simp [candidate, hname, hne, hmod, Items.id_of_get? hy]
  rw [← hcandidate]
  simp only [listChild, hy, hinc, if_true]
  split
  · next u hu => simp [hu, Payload.isModule] at hmod
  · rfl

/-- What comes first under the name of a listed module: what came before it, or itself. -/
theorem firstFor_listed (h : id ∈ x.listed m) (hid : id ∉ stack)
    (hnamed : x.IsModuleNamed includePrivate id name) :
    firstFor x includePrivate stack name (x.listed m) =
      (firstFor x includePrivate stack name ((x.listed m).takeWhile (· ≠ id))).or (some id) := by
  have hself : ∀ rest, firstFor x includePrivate stack name (id :: rest) = some id := by
    intro rest
    rw [firstFor, List.flatMap_cons, listChild_module hnamed, List.singleton_append,
      List.findSome?_cons, Candidate.moduleAt?, if_pos ⟨rfl, hid⟩]
  obtain ⟨before, rest, hlist, hnot⟩ := List.eq_append_cons_of_mem h
  have hbefore : (x.listed m).takeWhile (· ≠ id) = before := by
    rw [hlist, List.takeWhile_append_of_pos, List.takeWhile_cons_of_neg, List.append_nil]
    · simp
    · intro i hi
      have hne : i ≠ id := fun heq => hnot (heq ▸ hi)
      simpa using hne
  rw [hbefore, hlist, firstFor_append, hself]

/-- Whatever displaces a declared module has come through a glob that stands before it. -/
theorem exists_glob_of_displaced (h : x.Declares includePrivate stack m id name)
    (hdisplaced : Displaced x includePrivate stack m id name) :
    ∃ glob ∈ (x.listed m).takeWhile (· ≠ id), ∃ t k other,
      x.IsGlobOf includePrivate glob t ∧
      Relation.ReflTransGen (x.GlobStep includePrivate (· ∈ stack)) t k ∧
      other ∈ x.listed k ∧ other ≠ id ∧ x.IsModuleNamed includePrivate other name := by
  obtain ⟨other, hother, hfirst⟩ := hdisplaced
  obtain ⟨c, hc, hmodule⟩ := List.exists_of_findSome?_eq_some hfirst
  obtain ⟨j, hj, hc⟩ := List.mem_flatMap.1 hc
  have hlisted : j ∈ x.listed m := List.takeWhile_sublist _ |>.subset hj
  have hne : j ≠ id := by
    simpa using List.all_eq_true.1 List.all_takeWhile j hj
  obtain ⟨via, rfl⟩ : ∃ via, c = .module other name via := by
    cases c with
    | module i n via =>
      obtain ⟨⟨rfl, -⟩, hi⟩ := Option.ite_none_right_eq_some.1 hmodule
      obtain rfl := Option.some.inj hi
      exact ⟨via, rfl⟩
    | member => cases hmodule
    | reexport => cases hmodule
  rcases mem_listChild.1 hc with hown | ⟨y, u, huse, hmem⟩
  · obtain ⟨rfl, -, y, hy, -, hmod, hname⟩ := isModuleNamed_of_mem_ownCandidates hown
    exact absurd hname (h.noModule other hlisted hne y hy hmod)
  · rcases module_mem_listUse hmem with ⟨hglob, hname⟩ | ⟨hglob, t, ht, hknown, hmem⟩
    · have hpayload : x.items.payload? j = some (.use u) := by
        rw [Items.payload?, huse.1, Option.map_some, huse.2.2]
      exact absurd hname (h.noUse j hlisted u hpayload hglob)
    · obtain ⟨-, k, hroute, i, hi, hown⟩ := mem_listGlob.1 hmem
      obtain ⟨rfl, hnamed⟩ := isModuleNamed_of_mem_ownCandidates hown
      exact ⟨j, hj, t, k, other, huse.isGlobOf_iff.2 ⟨hglob, ht, hknown⟩, hroute, hi, hother,
        hnamed⟩

end

/-- A declared module is a child of each node of the module that lists it, with all its
contents, unless a glob that stands before it has brought another module of its name. -/
theorem hasChild_iff_of_declares {ids : List Id} {n : Node} {id : Id} {name : String}
    (h : (ofExport x includePrivate).root.Lineage ids n)
    (hdeclares : x.Declares includePrivate ids n.id id name) :
    (HasChild x includePrivate ids n id name ↔ ¬ Displaced x includePrivate ids n.id id name) ∧
      (Displaced x includePrivate ids n.id id name →
        ∃ glob ∈ (x.listed n.id).takeWhile (· ≠ id), ∃ t k other,
          x.IsGlobOf includePrivate glob t ∧
          Relation.ReflTransGen (x.GlobStep includePrivate (· ∈ ids)) t k ∧
          other ∈ x.listed k ∧ other ≠ id ∧ x.IsModuleNamed includePrivate other name) := by
  refine ⟨?_, exists_glob_of_displaced hdeclares⟩
  rw [hasChild_iff h, firstFor_listed hdeclares.listed hdeclares.below hdeclares.named, Displaced]
  cases firstFor x includePrivate ids name ((x.listed n.id).takeWhile (· ≠ id)) with
  | none => simp
  | some other => simp

/-- A crate that declares a module, and has a glob of a private module that holds another
module of that name. -/
def twinExport (list : List Id) : Export := Sample.crate [
  Sample.module "0" "demo" list, Sample.reexport "1" "a" "a" (some "2") true,
  Sample.item "2" "module" (some "a") (.module { items := ["4"] }) .default,
  Sample.item "3" "module" (some "m") (.module { items := [] }) .pub "Declared.",
  Sample.item "4" "module" (some "m") (.module { items := [] }) .pub "Globbed."]

theorem declares_twinExport {list : List Id} (hlist : list = ["3", "1"] ∨ list = ["1", "3"]) :
    (twinExport list).Declares false ["0"] "0" "3" "m" := by
  have hmem : ∀ j, j ∈ (twinExport list).listed "0" ↔ j = "3" ∨ j = "1" := by
    intro j
    rcases hlist with rfl | rfl
    · exact (List.mem_cons.trans (or_congr_right List.mem_singleton))
    · exact (List.mem_cons.trans (or_congr_right List.mem_singleton)).trans or_comm
  refine ⟨(hmem "3").2 (.inl rfl), ⟨by decide, _, rfl, rfl, rfl, rfl⟩, by decide, ?_, ?_⟩
  · intro j hj hne z hz hmod
    obtain rfl := ((hmem j).1 hj).resolve_left hne
    obtain rfl := Option.some.inj hz
    cases hmod
  · intro j hj u hu hglob
    rcases (hmem j).1 hj with rfl | rfl
    · cases hu
    · obtain rfl := Payload.use.inj (Option.some.inj hu)
      cases hglob

/-- Before the glob, the declaration has its place. -/
theorem hasChild_twinExport :
    (ofExport (twinExport ["3", "1"]) false).root.Lineage ["0"]
      (ofExport (twinExport ["3", "1"]) false).root ∧
    (twinExport ["3", "1"]).Declares false ["0"] "0" "3" "m" ∧
    HasChild (twinExport ["3", "1"]) false ["0"] (ofExport (twinExport ["3", "1"]) false).root
      "3" "m" := by
  have hdeclares := declares_twinExport (.inl rfl)
  refine ⟨.root, hdeclares, (hasChild_iff_of_declares .root hdeclares).1.2 ?_⟩
  rintro ⟨other, -, hfirst⟩
  cases hfirst

/-- A module of the crate with docs and without items. -/
def twinEntry (docs : String) : Value :=
  Sample.entry [("name", .str "m"), ("visibility", .str "public"), ("docs", .str docs)]
    "module" (.object [])

/-- The crate as a text, the glob in front. -/
def twinText : String := Sample.text [
  ("0", Sample.moduleEntry "demo" [1, 3]),
  ("1", Sample.entry [("visibility", .str "public")] "use" (.object
    [("source", .str "a"), ("name", .str "a"), ("id", .int 2), ("is_glob", .bool true)])),
  ("2", Sample.privateEntry "a" "module" (.object [("items", .list [.int 4])])),
  ("3", twinEntry "Declared."), ("4", twinEntry "Globbed.")]

set_option maxRecDepth 4000 in
theorem parse_twinText : Export.parse twinText = .ok (twinExport ["1", "3"]) :=
  Sample.read_textOf (by decide +kernel) rfl

/-- Behind the glob, the declaration is lost: its place is taken by the other module. -/
theorem not_hasChild_twinExport : Export.parse twinText = .ok (twinExport ["1", "3"]) ∧
    (twinExport ["1", "3"]).Declares false ["0"] "0" "3" "m" ∧
    ¬ HasChild (twinExport ["1", "3"]) false ["0"]
      (ofExport (twinExport ["1", "3"]) false).root "3" "m" ∧
    HasChild (twinExport ["1", "3"]) false ["0"]
      (ofExport (twinExport ["1", "3"]) false).root "4" "m" := by
  have hroot : (ofExport (twinExport ["1", "3"]) false).root.Lineage ["0"]
      (ofExport (twinExport ["1", "3"]) false).root := .root
  have hglob : listGlobs (twinExport ["1", "3"]) false ["0"] ["2"] ["4"] =
      [.module "4" "m" true] := by
    simp [listGlobs, twinExport, Sample.crate, Sample.module, Sample.reexport, Sample.item,
      Items.get?_insert, Item.isIncluded, Visibility.isPublic, candidate, Payload.isModule]
  have hfirst : firstFor (twinExport ["1", "3"]) false ["0"] "m" ["1", "3"] = some "4" := by
    have hlist : listChild (twinExport ["1", "3"]) false ["0"] "1" =
        [.module "4" "m" true] := hglob
    rw [firstFor, List.flatMap_cons, hlist]
    rfl
  refine ⟨parse_twinText, declares_twinExport (.inr rfl), ?_, (hasChild_iff hroot).2 hfirst⟩
  intro hkept
  have hsame : some "4" = some "3" := hfirst.symm.trans ((hasChild_iff hroot).1 hkept)
  exact absurd hsame (by decide)

end Tree

end CrateBook
