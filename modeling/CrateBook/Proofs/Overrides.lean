import CrateBook.Proofs.Overlays

/-!
# The command line over a file

What the command line says about a configuration can always be laid over it. Its only list is the
one of the packages, and where a configuration that was read has a list there, the elements are
texts already.
-/
namespace CrateBook.Configuration

open Entries (find?)
open Setting (overlay fitsEntries fitsValue mapping list str record at?_cons KeyedWithin Overlays)

/-- What is read from a file is made of its entries: what holds of all `ofEntries user` holds of
each configuration that was read. -/
theorem exists_entries_of_ofText {path : FilePath} {text : String} {config : Entries}
    (h : ofText path text = .ok config) :
    ∃ user, overlay none defaults user = .ok config ∧ config = ofEntries user := by
  unfold ofText at h
  split at h
  · cases h
  · split at h
    · next user _ => exact ⟨user, h, eq_ofEntries_of_overlay h⟩
    · cases h

/-- The place of the packages. -/
def packagesPath : List Scalar := [.str "workspace", .str "packages"]

/-- The packages that a configuration lists can be written. -/
def ListsPackages (config : Entries) : Prop :=
  ∀ xs, (mapping config).at? packagesPath = some (list xs) → ∀ v ∈ xs, v.isWritable = true

theorem endsUnited_packagesPath : Setting.EndsUnited packagesPath :=
  ⟨("workspace", "packages"), by decide, List.suffix_rfl⟩

theorem at?_packagesPath_defaults : (mapping defaults).at? packagesPath = some (list []) := rfl

theorem listsPackages_defaults : ListsPackages defaults := by
  intro xs hxs
  rw [at?_packagesPath_defaults] at hxs
  cases hxs
  exact List.forall_mem_nil _

/-- What lies over the defaults lists texts as packages, if anything. -/
theorem listsPackages_of_overlays {user config : Entries}
    (h : Overlays none (mapping defaults) (mapping user) (mapping config)) :
    ListsPackages config := by
  intro xs hxs
  cases hsection : find? user (.str "workspace") with
  | none =>
    have hkept := h.keeps [] (.str "workspace") [.str "packages"] _ _ rfl rfl hsection
    exact listsPackages_defaults xs (hkept.symm.trans hxs)
  | some w =>
    have hw : (mapping user).at? [.str "workspace"] = some w :=
      at?_cons.2 ⟨_, _, rfl, hsection, Setting.at?_nil w⟩
    by_cases hmapping : ∃ ws, w = mapping ws
    · obtain ⟨ws, rfl⟩ := hmapping
      cases hpackages : find? ws (.str "packages") with
      | none =>
        have hkept := h.keeps [.str "workspace"] (.str "packages") [] _ _ rfl hw hpackages
        exact listsPackages_defaults xs (hkept.symm.trans hxs)
      | some v =>
        have hv : (mapping user).at? packagesPath = some v :=
          (Setting.at?_concat_of_mapping hw _).trans hpackages
        by_cases hlist : ∃ ys, v = list ys
        · obtain ⟨ys, rfl⟩ := hlist
          obtain ⟨ts, hts, -⟩ := h.lists packagesPath [] ys endsUnited_packagesPath rfl hv
          cases hts.symm.trans hxs
          exact List.forall_mem_map.2 fun _ _ => rfl
        · have hreplaced := h.replaces [.str "workspace"] (.str "packages") _ v rfl hv ?_
          · cases hreplaced.symm.trans hxs
            exact absurd ⟨xs, rfl⟩ hlist
          · rintro (⟨_, _, hold, -⟩ | ⟨-, _, ys, -, rfl⟩)
            · cases hold
            · exact hlist ⟨ys, rfl⟩
    · have hreplaced := h.replaces [] (.str "workspace") _ w rfl hw ?_
      · have hsplit : (mapping config).at? ([.str "workspace"] ++ [.str "packages"]) =
            some (list xs) := hxs
        obtain ⟨cs, hcs, -⟩ := Setting.at?_concat.1 hsplit
        cases hreplaced.symm.trans hcs
        exact absurd ⟨cs, rfl⟩ hmapping
      · rintro (⟨_, ws, -, rfl⟩ | ⟨-, _, _, hold, -⟩)
        · exact hmapping ⟨ws, rfl⟩
        · cases hold

theorem fitsEntries_section {config : Entries} {name : String}
    {entries : List (Option (String × Setting))}
    (h : ∀ base e, find? config (.str name) = some (mapping base) → some e ∈ entries →
      fitsValue (some (.str name)) (.str e.1) (find? base (.str e.1)) e.2 = true) :
    fitsEntries none config (Overrides.section_ name entries) = true := by
  unfold Overrides.section_
  dsimp only
  split
  · rfl
  · rw [Setting.fitsEntries_eq, List.all_cons, List.all_nil, Bool.and_true, record]
    unfold fitsValue
    split
    · next base hbase =>
      rw [Setting.fitsEntries_eq, List.all_eq_true]
      refine List.forall_mem_map.2 fun e he => ?_
      obtain ⟨e', he', heq⟩ := List.mem_filterMap.1 he
      exact h base e hbase (heq ▸ he')
    · rfl

theorem fitsValue_of_scalar {s : Option Scalar} {k : Scalar} {old : Option Setting} {v : Setting}
    (h : ∃ x, v = .scalar x) : fitsValue s k old v = true := by
  obtain ⟨x, rfl⟩ := h
  rfl

/-- The overrides of the command line can be laid over a configuration whose packages can be
written. -/
theorem overlay_entries {config : Entries} (h : ListsPackages config) (o : Overrides) :
    overlay none config o.entries = .ok (override config o) := by
  have houtput (e : String × Setting) (he : some e ∈
      [if o.includePrivate then some ("include_private", Setting.bool true) else none,
        o.mode.map fun m => ("mode", str m.name), o.basePath.map fun p => ("base_path", str p)]) :
      ∃ x, e.2 = .scalar x := by
    simp only [List.mem_cons, List.not_mem_nil, or_false] at he
    rcases he with he | he | he
    · split at he <;> cases he
      exact ⟨_, rfl⟩
    all_goals
      obtain ⟨_, -, rfl⟩ := Option.map_eq_some_iff.1 he.symm
      exact ⟨_, rfl⟩
  have hnavigation (e : String × Setting) (he : some e ∈
      [o.navigationOutput.map fun p => ("output", str p.text),
        o.navigationCollapsed.map fun b => ("collapsed", Setting.bool b)]) :
      ∃ x, e.2 = .scalar x := by
    simp only [List.mem_cons, List.not_mem_nil, or_false] at he
    rcases he with he | he
    all_goals
      obtain ⟨_, -, rfl⟩ := Option.map_eq_some_iff.1 he.symm
      exact ⟨_, rfl⟩
  refine if_pos ?_
  rw [Setting.fitsEntries_eq, Overrides.entries, List.all_append, List.all_append,
    ← Setting.fitsEntries_eq, ← Setting.fitsEntries_eq, ← Setting.fitsEntries_eq,
    fitsEntries_section fun _ e _ he => fitsValue_of_scalar (houtput e he),
    fitsEntries_section fun _ e _ he => fitsValue_of_scalar (hnavigation e he), Bool.true_and,
    Bool.and_true]
  refine fitsEntries_section fun base e hbase he => ?_
  obtain ⟨ps, -, rfl⟩ := Option.map_eq_some_iff.1 (List.mem_singleton.1 he).symm
  unfold fitsValue
  split
  · next xs hxs =>
    have hwritable := h xs (at?_cons.2 ⟨_, _, rfl, hbase, at?_cons.2 ⟨_, _, rfl, hxs, rfl⟩⟩)
    rw [List.all_append, List.all_eq_true.2 hwritable,
      List.all_eq_true.2 (List.forall_mem_map.2 fun _ _ => rfl)]
    rfl
  · rfl

/-- Whatever the command line says can be laid over a configuration that was read: over the
defaults, and over those with the mapping of a file over them. -/
theorem overlay_override {user config : Entries} (hkeyed : KeyedWithin (.mapping user))
    (h : overlay none defaults user = .ok config) (o : Overrides) :
    overlay none defaults o.entries = .ok (override defaults o) ∧
      overlay none config o.entries = .ok (override config o) := by
  have hoverlays := Setting.overlays_of_overlay hkeyed h
  exact ⟨overlay_entries listsPackages_defaults o,
    overlay_entries (listsPackages_of_overlays hoverlays) o⟩

end CrateBook.Configuration
