import CrateBook.Proofs.SampleCrates
import CrateBook.Proofs.Shadowing

/-!
# Re-exports that lead out of the package

A re-export whose chain ends at a target that is not in the index has an entry of its own in
the node of its module. How often the entry stands there is told by the list of the module,
and by how the chain ends. A re-export with such a target has one entry for each place in the
list, and so has one from which further re-exports lead to an id that nothing in the index
has. One from which they lead to a re-export without a target has none.
-/
namespace CrateBook

def Node.entriesFor (n : Node) (id : Id) : List ReExport :=
  n.reexports.filter fun r => r.itemId = id

/-- From the body of a re-export, so many others lead on to one whose target is not in the
index: it has none, or no item has its id. No body on the way is that of a glob. -/
inductive Export.LeadsOut (x : Export) : Nat → UseBody → Option Id → Prop
  | here {u : UseBody} : u.isGlob = false → x.find? u.target = none → LeadsOut x 0 u u.target
  | hop {n : Nat} {u v : UseBody} {t : Id} {out : Option Id} :
      u.isGlob = false → u.target = some t → x.items.payload? t = some (.use v) →
      LeadsOut x n v out → LeadsOut x (n + 1) u out

namespace Tree

variable {x : Export} {includePrivate : Bool}

section

variable {n : Nat} {u v : UseBody} {t last : Id} {out : Option Id}

/-- A chain that leads out with an id leads to this id. -/
theorem chainsTo_of_leadsOut (h : x.LeadsOut n v out) (ht : x.items.payload? t = some (.use v))
    (hlast : out = some last) : x.ChainsTo (n + 1) t last := by
  induction h generalizing t with
  | here hglob hout =>
    refine .hop ht hglob hlast (.ends fun w hw => ?_)
    rw [hlast, Export.find?, Option.bind_some] at hout
    rw [Items.payload?, hout] at hw
    cases hw
  | hop hglob hnext huse _ ih => exact .hop ht hglob hnext (ih huse hlast)

/-- A chain that leads out with an id has no other end, and one that leads out without an id
has none. -/
theorem out_eq_of_chainsTo {k : Nat} (h : x.LeadsOut n v out)
    (ht : x.items.payload? t = some (.use v)) (hchain : x.ChainsTo k t last) :
    out = some last := by
  induction h generalizing t k with
  | here hglob hout =>
    cases hchain with
    | ends hno => exact absurd ht (hno _)
    | hop hu _ hnext hrest =>
      obtain rfl := Payload.use.inj (Option.some.inj (ht.symm.trans hu))
      cases hrest with
      | ends _ => exact hnext
      | hop hw _ _ _ =>
        rw [hnext, Export.find?, Option.bind_some] at hout
        rw [Items.payload?, hout] at hw
        cases hw
  | hop _ hnext huse _ ih =>
    cases hchain with
    | ends hno => exact absurd ht (hno _)
    | hop hu _ hnext' hrest =>
      obtain rfl := Payload.use.inj (Option.some.inj (ht.symm.trans hu))
      obtain rfl := Option.some.inj (hnext.symm.trans hnext')
      exact ih huse hrest

/-- The end that is found of a chain that leads out: the id with which it does. -/
theorem chainEnd_of_leadsOut (h : x.LeadsOut n v out)
    (ht : x.items.payload? t = some (.use v)) (hn : n + 1 < maxChain) :
    chainEnd x.items maxChain [] t = out := by
  cases hout : out with
  | some last => exact Export.chainEnd_eq_some_iff.2 ⟨n + 1, hn, chainsTo_of_leadsOut h ht hout⟩
  | none =>
    cases hend : chainEnd x.items maxChain [] t with
    | none => rfl
    | some last =>
      obtain ⟨k, -, hchain⟩ := Export.chainEnd_eq_some_iff.1 hend
      cases hout.symm.trans (out_eq_of_chainsTo h ht hchain)

/-- What is out is not in the index. -/
theorem find?_out (h : x.LeadsOut n u out) : x.find? out = none := by
  induction h with
  | here _ hout => exact hout
  | hop _ _ _ _ ih => exact ih

/-- A re-export that leads out stands for its entry, unless the last of several re-exports has
no target. -/
theorem listUse_of_leadsOut (h : x.LeadsOut n u out) (hn : n < maxChain) (stack : List Id)
    (y : Item) : listUse x includePrivate stack y u =
      if n = 0 ∨ out ≠ none then [.reexport (entryOf y u)] else [] := by
  cases h with
  | here hglob hout =>
    rw [if_pos (.inl rfl), listUse]
    split
    · rfl
    · next t ht =>
      rw [ht, Export.find?, Option.bind_some] at hout
      rw [Items.contains, hout]
      rfl
  | @hop n _ v t _ hglob ht huse hrest =>
    have hknown : x.items.contains t = true := by
      rw [Items.payload?, Option.map_eq_some_iff] at huse
      obtain ⟨z, hz, -⟩ := huse
      rw [Items.contains, hz, Option.isSome_some]
    simp only [listUse, ht, hknown, hglob, chainEnd_of_leadsOut hrest huse hn, Bool.not_true,
      Bool.false_eq_true, if_false, Nat.add_eq_zero_iff, Nat.one_ne_zero, and_false, false_or]
    cases out with
    | none => rfl
    | some last =>
      have hlast : x.items.get? last = none := find?_out hrest
      dsimp only
      rw [hlast, if_pos (Option.some_ne_none last)]

end

section

variable {stack : List Id} {id j : Id} {y : Item} {u : UseBody} {r : ReExport}

theorem reexport_notMem_candidate (z : Item) (name : Option String) (via : Bool) :
    .reexport r ∉ candidate z name via := by
  unfold candidate
  repeat' split
  all_goals simp

theorem reexport_notMem_ownCandidates (via : Bool) :
    .reexport r ∉ ownCandidates x includePrivate via j := by
  cases hy : x.items.get? j with
  | none => simp [ownCandidates, hy]
  | some z =>
    rw [mem_ownCandidates hy]
    exact fun hmem => reexport_notMem_candidate z z.name via hmem.2.2

/-- The entry that a re-export may stand for is its own. -/
theorem itemId_of_mem_listUse (h : .reexport r ∈ listUse x includePrivate stack y u) :
    r.itemId = y.id := by
  have hown : .reexport r ∈ [Candidate.reexport (entryOf y u)] → r.itemId = y.id := by
    intro hmem
    rw [Candidate.reexport.inj (List.mem_singleton.1 hmem), entryOf]
  unfold listUse at h
  split at h
  · exact hown h
  · split at h
    · exact hown h
    · split at h
      · obtain ⟨-, k, -, i, -, hmem⟩ := mem_listGlob.1 h
        exact absurd hmem (reexport_notMem_ownCandidates true)
      · split at h
        · exact absurd h List.not_mem_nil
        · split at h
          · exact hown h
          · split at h
            · exact absurd h (reexport_notMem_candidate _ _ _)
            · exact absurd h List.not_mem_nil

/-- The entries that an id in a list stands for are its own. -/
theorem itemId_of_mem_listChild (h : .reexport r ∈ listChild x includePrivate stack j) :
    r.itemId = j := by
  rcases mem_listChild.1 h with hown | ⟨y, u, huse, hmem⟩
  · exact absurd hown (reexport_notMem_ownCandidates false)
  · rw [itemId_of_mem_listUse hmem, Items.id_of_get? huse.1]

theorem listChild_use (h : x.IsUse includePrivate id y u) :
    listChild x includePrivate stack id = listUse x includePrivate stack y u := by
  obtain ⟨hy, hinc, hu⟩ := h
  simp only [listChild, hy, hinc, hu, if_true]

/-- What several places of a list come to, if only those of one id give anything. -/
theorem flatMap_eq_of_only {α : Type} {f : Id → List α} {as : List α} (hself : f id = as)
    (hother : ∀ i, i ≠ id → f i = []) (ids : List Id) :
    ids.flatMap f = (List.replicate (ids.count id) as).flatten := by
  induction ids with
  | nil => rfl
  | cons i ids ih =>
    rw [List.flatMap_cons, ih]
    by_cases hi : i = id
    · rw [hi, hself, List.count_cons_self, List.replicate_succ, List.flatten_cons]
    · rw [hother i hi, List.nil_append, List.count_cons_of_ne hi]

/-- The entries of a node for a re-export of its module: what the re-export stands for, once
for each of its places in the list. -/
theorem entriesFor_eq {n : Node} {ids : List Id}
    (hn : (ofExport x includePrivate).root.Lineage ids n) (huse : x.IsUse includePrivate id y u) :
    n.entriesFor id = (List.replicate ((x.listed n.id).count id)
      ((listUse x includePrivate ids y u).filterMap Candidate.entry?)).flatten := by
  rw [Node.entriesFor, (filled_of_lineage hn).reexports, List.filterMap_flatMap,
    List.filter_flatMap]
  have hentry : ∀ i, ∀ r ∈ (listChild x includePrivate ids i).filterMap Candidate.entry?,
      r.itemId = i := by
    intro i r hr
    obtain ⟨c, hc, hr⟩ := List.mem_filterMap.1 hr
    cases c with
    | reexport s =>
      obtain rfl := Option.some.inj hr
      exact itemId_of_mem_listChild hc
    | _ => cases hr
  refine flatMap_eq_of_only ?_ (fun i hi => ?_) _
  · rw [List.filter_eq_self.2 fun r hr => by simpa using hentry id r hr, listChild_use huse]
  · rw [List.filter_eq_nil_iff]
    intro r hr
    simpa [hentry i r hr] using hi

end

/-- **The entries of a re-export that leads out of the package.** There is one for each place
of the re-export in its module's list, unless several re-exports lead to one without a target:
then there is none. -/
theorem entriesFor_of_leadsOut {n : Node} (hn : n ∈ (ofExport x includePrivate).modules)
    {id : Id} {y : Item} {u : UseBody} (huse : x.IsUse includePrivate id y u)
    {k : Nat} {out : Option Id} (hout : x.LeadsOut k u out) (hk : k < maxChain) :
    (n.entriesFor id = if k = 0 ∨ out ≠ none then
      List.replicate ((x.listed n.id).count id) (entryOf y u) else []) ∧
    ((∃ r, n.entriesFor id = [r]) ↔ (k = 0 ∨ out ≠ none) ∧ (x.listed n.id).count id = 1) := by
  obtain ⟨ids, hids⟩ := Node.mem_walk_iff_lineage.1 hn
  have hentries : n.entriesFor id = if k = 0 ∨ out ≠ none then
      List.replicate ((x.listed n.id).count id) (entryOf y u) else [] := by
    rw [entriesFor_eq hids huse, listUse_of_leadsOut hout hk]
    split
    · simp [Candidate.entry?]
    · simp
  refine ⟨hentries, ?_⟩
  by_cases hkept : k = 0 ∨ out ≠ none
  · rw [if_pos hkept] at hentries
    rw [hentries, and_iff_right hkept]
    constructor
    · rintro ⟨r, hr⟩
      simpa using congrArg List.length hr
    · intro hone
      exact ⟨entryOf y u, by rw [hone, List.replicate_one]⟩
  · simp [hentries, hkept]

/-- A crate that lists a re-export of another one, which leads out with an id or without. -/
def outwardExport (out : Option Id) : Export := Sample.crate [
  Sample.module "0" "demo" ["1"], Sample.reexport "1" "inner::x" "x" (some "2"),
  Sample.reexport "2" "other::x" "x" out]

/-- The body of the re-export that the crate lists. -/
def outwardUse : UseBody := { source := "inner::x", name := "x", target := some "2" }

theorem isUse_outwardExport (out : Option Id) :
    ∃ y, (outwardExport out).IsUse false "1" y outwardUse := ⟨_, rfl, rfl, rfl⟩

theorem leadsOut_outwardExport {out : Option Id} (hout : (outwardExport out).find? out = none) :
    (outwardExport out).LeadsOut 1 outwardUse out :=
  .hop rfl rfl rfl (.here rfl hout)

/-- A chain of two re-exports that ends at an unknown id has its entry. -/
theorem entriesFor_outwardExport : ∃ y,
    (outwardExport (some "9")).IsUse false "1" y outwardUse ∧
    (outwardExport (some "9")).LeadsOut 1 outwardUse (some "9") ∧ 1 < maxChain ∧
    (ofExport (outwardExport (some "9")) false).root ∈
      (ofExport (outwardExport (some "9")) false).modules ∧
    (ofExport (outwardExport (some "9")) false).root.entriesFor "1" = [entryOf y outwardUse] := by
  obtain ⟨y, huse⟩ := isUse_outwardExport (some "9")
  have hout : (outwardExport (some "9")).LeadsOut 1 outwardUse (some "9") :=
    leadsOut_outwardExport rfl
  have hroot := (ofExport (outwardExport (some "9")) false).root.self_mem_walk
  exact ⟨y, huse, hout, by decide, hroot, (entriesFor_of_leadsOut hroot huse hout (by decide)).1⟩

/-- The crate as a text, where the second re-export has no target. -/
def outwardText : String := Sample.text [
  ("0", Sample.moduleEntry "demo" [1]), ("1", Sample.reexportEntry "inner::x" "x" (.int 2)),
  ("2", Sample.reexportEntry "other::x" "x" .null)]

set_option maxRecDepth 4000 in
theorem parse_outwardText : Export.parse outwardText = .ok (outwardExport none) :=
  Sample.read_textOf (by decide +kernel) rfl

/-- A chain of two re-exports that ends without a target is lost: the module that lists it has
no entry for it. -/
theorem entriesFor_outwardExport_eq_nil : Export.parse outwardText = .ok (outwardExport none) ∧
    (∃ y, (outwardExport none).IsUse false "1" y outwardUse) ∧
    "1" ∈ (outwardExport none).listed (ofExport (outwardExport none) false).root.id ∧
    (outwardExport none).LeadsOut 1 outwardUse none ∧ 1 < maxChain ∧
    (ofExport (outwardExport none) false).root.entriesFor "1" = [] := by
  obtain ⟨y, huse⟩ := isUse_outwardExport none
  have hout : (outwardExport none).LeadsOut 1 outwardUse none := leadsOut_outwardExport rfl
  refine ⟨parse_outwardText, ⟨y, huse⟩, List.mem_cons_self, hout, by decide, ?_⟩
  rw [entriesFor_eq .root huse, listUse_of_leadsOut hout (by decide)]
  rfl

end Tree

end CrateBook
