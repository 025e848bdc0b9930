import CrateBook.Configuration
import CrateBook.Proofs.KeyClasses
import CrateBook.Setting.Options

/-!
# What the options are read from

Every option is read from one place of a configuration, a key of a section; only the versions
take in a whole mapping. A section that holds nothing has no places. Where one configuration
is laid over another, the place of the upper one counts, and where it has none, the place of
the lower one.
-/
namespace CrateBook

namespace Setting

variable {v : Setting}

/-- The entries that a section shows: one that is no mapping shows none. -/
def shown : Setting → Entries
  | mapping es => es
  | _ => []

theorem shown_eq_nil (h : ¬ ∃ es, v = mapping es) : v.shown = [] := by
  cases v with
  | mapping es => exact absurd ⟨es, rfl⟩ h
  | _ => rfl

theorem orMapping_eq_shown {es : Entries} (h : v.orMapping = mapping es) : v.shown = es := by
  unfold orMapping orElse at h
  split at h
  · rw [h, shown]
  · next hset =>
    cases h
    cases v <;> simp_all [shown, isSet]

end Setting

namespace Entries

def inSection (es : Entries) (name : String) : Entries := (es.get name).shown

/-- What stands at a key of a section. -/
def chosen? (es : Entries) (name key : String) : Option Setting :=
  (es.inSection name).find? (.str key)

/-- The value at a key of a section; null where it is missing. -/
def choice (es : Entries) (name key : String) : Setting := (es.chosen? name key).getD .null

/-- A truth value at a key of a section, with a default for the missing one. -/
def truth (es : Entries) (name key : String) (default : Bool) : Bool :=
  ((es.chosen? name key).map Setting.isSet).getD default

end Entries

namespace Setting

variable {es : Entries} {name key : String}

theorem field_eq_ok {w : Setting}
    (h : (es.get name).orMapping.field key = .ok w) : w = es.choice name key := by
  cases hv : (es.get name).orMapping with
  | mapping ws =>
    rw [hv] at h
    rw [Entries.choice, Entries.chosen?, Entries.inSection, orMapping_eq_shown hv]
    exact (Except.ok.inj h).symm
  | _ => rw [hv] at h; cases h

theorem flag_eq_ok {default b : Bool}
    (h : (es.get name).orMapping.flag key default = .ok b) : b = es.truth name key default := by
  cases hv : (es.get name).orMapping with
  | mapping ws =>
    rw [hv, flag] at h
    rw [Entries.truth, Entries.chosen?, Entries.inSection, orMapping_eq_shown hv]
    split at h <;> next hfind =>
      cases h
      rw [hfind]
      rfl
  | _ => rw [hv] at h; cases h

theorem texts_list (vs : List Setting) : (list vs).texts = .ok (vs.map text) := by
  cases vs <;> rfl

/-- The links that a configuration asks for. -/
structure ReadsLinks (es : Entries) (l : LinkSettings) : Prop where
  externalHost : l.externalHost = (es.choice "links" "external_host").textOr "https://docs.rs"
  stdHost : l.stdHost = (es.choice "links" "std_host").textOr "https://doc.rust-lang.org"
  defaultVersion : l.defaultVersion = (es.choice "links" "default_version").textOr "latest"
  versions : (es.choice "links" "versions").versions = .ok l.versions

/-- Link settings are determined by the values in the places that they are read from. -/
theorem ReadsLinks.unique {es' : Entries} {l l' : LinkSettings} (h : ReadsLinks es l)
    (h' : ReadsLinks es' l') (hsame : ∀ key, es.choice "links" key = es'.choice "links" key) :
    l = l' := by
  have hexternal : l.externalHost = l'.externalHost := by
    rw [h.externalHost, h'.externalHost, hsame]
  have hstd : l.stdHost = l'.stdHost := by rw [h.stdHost, h'.stdHost, hsame]
  have hdefault : l.defaultVersion = l'.defaultVersion := by
    rw [h.defaultVersion, h'.defaultVersion, hsame]
  have hversions : l.versions = l'.versions :=
    Except.ok.inj (h.versions.symm.trans (hsame _ ▸ h'.versions))
  cases l
  cases l'
  exact LinkSettings.mk.injEq .. ▸ ⟨hexternal, hstd, hdefault, hversions⟩

/-- The options that a configuration asks for, each by the place that it is read from. -/
structure Reads (es : Entries) (a : Options) : Prop where
  includePrivate : a.includePrivate = es.truth "output" "include_private" false
  mode : modeOf ((es.choice "output" "mode").textOr "module") = .ok a.mode
  workspacePackages : (es.choice "workspace" "packages").texts = .ok a.workspacePackages
  basePath : a.basePath = (es.choice "output" "base_path").textOr ""
  navigationOutput : (es.choice "navigation" "output").path? = .ok a.navigationOutput
  navigationCollapsed : a.navigationCollapsed = es.truth "navigation" "collapsed" true
  links : ReadsLinks es a.links
  noiseTraits : (es.choice "noise" "traits").texts = .ok a.noiseTraits

theorem readsLinks_of_linkSettings {l : LinkSettings}
    (h : linkSettings (es.get "links").orMapping = .ok l) : ReadsLinks es l := by
  unfold linkSettings at h
  obtain ⟨externalHost, hexternalHost, h⟩ := Except.bind_eq_ok.1 h
  obtain ⟨stdHost, hstdHost, h⟩ := Except.bind_eq_ok.1 h
  obtain ⟨defaultVersion, hdefaultVersion, h⟩ := Except.bind_eq_ok.1 h
  obtain ⟨versionsField, hversionsField, h⟩ := Except.bind_eq_ok.1 h
  obtain ⟨versions, hversions, h⟩ := Except.bind_eq_ok.1 h
  cases h
  cases field_eq_ok hexternalHost
  cases field_eq_ok hstdHost
  cases field_eq_ok hdefaultVersion
  cases field_eq_ok hversionsField
  exact ⟨rfl, rfl, rfl, hversions⟩

theorem reads_of_options {hash : String} {a : Options}
    (h : (mapping es).options hash = .ok a) : Reads es a ∧ a.configHash = hash := by
  unfold options at h
  obtain ⟨outputSection, houtput, h⟩ := Except.bind_eq_ok.1 h
  obtain ⟨workspaceSection, hworkspace, h⟩ := Except.bind_eq_ok.1 h
  obtain ⟨navigationSection, hnavigation, h⟩ := Except.bind_eq_ok.1 h
  obtain ⟨linksSection, hlinks, h⟩ := Except.bind_eq_ok.1 h
  obtain ⟨noiseSection, hnoise, h⟩ := Except.bind_eq_ok.1 h
  obtain ⟨navigationOutput, hnavigationOutput, h⟩ := Except.bind_eq_ok.1 h
  obtain ⟨includePrivate, hincludePrivate, h⟩ := Except.bind_eq_ok.1 h
  obtain ⟨modeName, hmodeName, h⟩ := Except.bind_eq_ok.1 h
  obtain ⟨packagesField, hpackagesField, h⟩ := Except.bind_eq_ok.1 h
  obtain ⟨packages, hpackages, h⟩ := Except.bind_eq_ok.1 h
  obtain ⟨basePath, hbasePath, h⟩ := Except.bind_eq_ok.1 h
  obtain ⟨path, hpath, h⟩ := Except.bind_eq_ok.1 h
  obtain ⟨collapsed, hcollapsed, h⟩ := Except.bind_eq_ok.1 h
  obtain ⟨linkSettings, hlinkSettings, h⟩ := Except.bind_eq_ok.1 h
  obtain ⟨traitsField, htraitsField, h⟩ := Except.bind_eq_ok.1 h
  obtain ⟨traits, htraits, h⟩ := Except.bind_eq_ok.1 h
  obtain ⟨mode, hmode, h⟩ := Except.bind_eq_ok.1 h
  cases h
  cases houtput
  cases hworkspace
  cases hnavigation
  cases hlinks
  cases hnoise
  cases field_eq_ok hnavigationOutput
  cases field_eq_ok hmodeName
  cases field_eq_ok hpackagesField
  cases field_eq_ok hbasePath
  cases field_eq_ok htraitsField
  refine ⟨?_, rfl⟩
  exact {
    includePrivate := flag_eq_ok hincludePrivate
    mode := hmode
    workspacePackages := hpackages
    basePath := rfl
    navigationOutput := hpath
    navigationCollapsed := flag_eq_ok hcollapsed
    links := readsLinks_of_linkSettings hlinkSettings
    noiseTraits := htraits }

end Setting

/-! ## Places of a configuration with another one over it -/

namespace Entries

variable {es : Entries} {k : Scalar} {name : String} {v : Setting}

/-- No two entries have the same key. -/
def Keyed (es : Entries) : Prop := es.Pairwise fun e f => e.1.sameKey f.1 = false

/-- No two entries of a configuration have the same key, nor two of one of its sections. -/
structure Distinct (es : Entries) : Prop where
  keys : es.Keyed
  sections : ∀ e ∈ es, Keyed e.2.shown

theorem find?_cons_self : find? ((.str name, v) :: es) (.str name) = some v := by
  simp [find?, Scalar.sameKey_str_iff]

theorem find?_cons_of_ne (h : k ≠ .str name) :
    find? ((k, v) :: es) (.str name) = find? es (.str name) := by
  simp [find?, Scalar.sameKey_str_iff, h]

theorem keyed_texts {ts : List (String × Setting)} (h : (ts.map (·.1)).Nodup) :
    Keyed (ts.map fun e => (.str e.1, e.2)) := by
  refine List.pairwise_map.2 ((List.pairwise_map.1 h).imp fun hne => ?_)
  exact Bool.eq_false_iff.2 fun heq => hne (Scalar.str.inj (Scalar.sameKey_str_iff.1 heq))

theorem find?_append (as bs : Entries) (k : Scalar) :
    find? (as ++ bs) k = (find? as k).or (find? bs k) := by
  rw [find?, List.find?_append, Option.map_or]
  rfl

theorem mem_of_find? (h : find? es k = some v) : ∃ e ∈ es, e.2 = v := by
  obtain ⟨e, he, -, hv⟩ := exists_of_find? h
  exact ⟨e, he, hv⟩

/-- Where keys differ, a key that is a text has one value. -/
theorem Keyed.find?_eq_some_iff (h : es.Keyed) :
    find? es (.str name) = some v ↔ (.str name, v) ∈ es := by
  induction es with
  | nil => simp [find?]
  | cons e es ih =>
    obtain ⟨k, w⟩ := e
    obtain ⟨hfirst, hrest⟩ := List.pairwise_cons.1 h
    by_cases hk : k = .str name
    · subst hk
      rw [find?_cons_self, List.mem_cons, Prod.mk.injEq]
      refine ⟨fun heq => .inl ⟨rfl, (Option.some.inj heq).symm⟩, ?_⟩
      rintro (⟨-, rfl⟩ | hmem)
      · rfl
      · have hne := hfirst _ hmem
        rw [Scalar.str_sameKey_iff.2 rfl] at hne
        cases hne
    · rw [find?_cons_of_ne hk, ih hrest, List.mem_cons, Prod.mk.injEq]
      exact ⟨.inr, fun h => h.resolve_left fun heq => hk heq.1.symm⟩

/-- Giving a key a value keeps the keys, with the new one behind them. -/
theorem map_fst_put (k : Scalar) (v : Setting) (es : Entries) :
    (put k v es).map (·.1) = es.map (·.1) ∨
      ((put k v es).map (·.1) = es.map (·.1) ++ [k] ∧ ∀ e ∈ es, e.1.sameKey k = false) := by
  induction es with
  | nil => exact .inr ⟨rfl, List.forall_mem_nil _⟩
  | cons e es ih =>
    unfold put
    split
    · exact .inl rfl
    · next hne =>
      rcases ih with heq | ⟨heq, hall⟩
      · exact .inl (congrArg (e.1 :: ·) heq)
      · exact .inr ⟨congrArg (e.1 :: ·) heq,
          List.forall_mem_cons.2 ⟨Bool.eq_false_iff.2 hne, hall⟩⟩

theorem keyed_iff : es.Keyed ↔ (es.map (·.1)).Pairwise fun j k => j.sameKey k = false := by
  rw [List.pairwise_map]
  exact Iff.rfl

/-- Setting a key keeps a mapping keyed. -/
theorem Keyed.put (h : es.Keyed) (k : Scalar) (v : Setting) : (put k v es).Keyed := by
  rw [keyed_iff] at h ⊢
  rcases map_fst_put k v es with heq | ⟨heq, hall⟩
  · rw [heq]
    exact h
  · rw [heq, List.pairwise_append]
    refine ⟨h, List.pairwise_singleton _ _, fun j hj l hl => ?_⟩
    obtain ⟨e, he, rfl⟩ := List.mem_map.1 hj
    rw [List.mem_singleton.1 hl]
    exact hall e he

/-- Merging keeps a mapping keyed. -/
theorem Keyed.mergeEntries (h : es.Keyed) (section_ : Option Scalar) (update : Entries) :
    Keyed (Setting.mergeEntries section_ es update) := by
  induction update generalizing es with
  | nil =>
    rw [Setting.mergeEntries]
    exact h
  | cons e update ih =>
    rw [Setting.mergeEntries]
    exact ih (h.put _ _)

theorem mem_keys_mergeEntries (h : k ∈ es.map (·.1)) (section_ : Option Scalar)
    (update : Entries) : k ∈ (Setting.mergeEntries section_ es update).map (·.1) := by
  induction update generalizing es with
  | nil =>
    rw [Setting.mergeEntries]
    exact h
  | cons e update ih =>
    rw [Setting.mergeEntries]
    refine ih ?_
    rcases map_fst_put e.1 _ es with heq | ⟨heq, -⟩ <;> rw [heq]
    · exact h
    · exact List.mem_append_left _ h

/-- What stands under a key after entries were laid over others: the upper value, merged with
the lower one, or the lower one alone. -/
theorem find?_mergeEntries {section_ : Option Scalar} {base es : Entries} (hes : es.Keyed)
    (k : Scalar) :
    find? (Setting.mergeEntries section_ base es) k =
      ((find? es k).map (Setting.mergeValue section_ k (find? base k))).or (find? base k) := by
  induction es generalizing base with
  | nil => rw [Setting.mergeEntries]; rfl
  | cons e es ih =>
    obtain ⟨j, v⟩ := e
    obtain ⟨hfirst, hrest⟩ := List.pairwise_cons.1 hes
    rw [Setting.mergeEntries, ih hrest, find?_put, find?_cons]
    by_cases hj : j.sameKey k = true
    · have hnone : find? es k = none := find?_eq_none_iff.2 fun e he => by
        rw [← Scalar.sameKey_congr hj, Scalar.sameKey_comm, hfirst e he]
      rw [if_pos hj, if_pos hj, hnone, Option.map_none, Option.none_or, Option.map_some,
        Option.some_or, Setting.mergeValue_congr hj, find?_congr hj]
    · rw [if_neg hj, if_neg hj]

@[simp] theorem find?_nil (k : Scalar) : find? [] k = none := rfl

/-- Where nothing was, a value stays as it is. -/
theorem mergeValue_none (section_ : Option Scalar) (k : Scalar) :
    Setting.mergeValue section_ k none = id := by
  funext v
  cases v <;> rfl

/-- Nothing but a mapping shows entries, also after it was laid over something. -/
theorem shown_mergeValue (hv : ¬ ∃ ws, v = .mapping ws) (section_ : Option Scalar) (k : Scalar)
    (old : Option Setting) : (Setting.mergeValue section_ k old v).shown = [] := by
  cases v with
  | mapping ws => exact absurd ⟨ws, rfl⟩ hv
  | list xs =>
    unfold Setting.mergeValue Setting.unite
    dsimp only
    split
    · split
      · split <;> rfl
      · rfl
    · rfl
  | _ => rfl

/-- What stands under a key of a section after entries were laid over it. -/
theorem find?_shown_mergeValue {ws : Entries} (hws : ws.Keyed) (section_ : String)
    (old : Option Setting) (key : String) :
    find? (Setting.mergeValue none (.str section_) old (.mapping ws)).shown (.str key) =
      ((find? ws (.str key)).map (Setting.mergeValue (some (.str section_)) (.str key)
        (find? (old.getD .null).shown (.str key)))).or
          (find? (old.getD .null).shown (.str key)) := by
  cases old with
  | none => simp [Setting.mergeValue, Setting.shown, Setting.null, mergeValue_none]
  | some v =>
    cases v with
    | mapping base => exact find?_mergeEntries hws (.str key)
    | _ => simp [Setting.mergeValue, Setting.shown, mergeValue_none]

/-- What stands at a key of a section after a configuration of sections was laid over another
one. -/
theorem chosen?_merge {base es : Entries} {section_ : String} (hes : es.Keyed)
    (hsections : ∀ v, find? es (.str section_) = some v → ∃ ws, v = .mapping ws ∧ Keyed ws)
    (key : String) :
    (Setting.merge base es).chosen? section_ key =
      ((es.chosen? section_ key).map (Setting.mergeValue (some (.str section_)) (.str key)
        (base.chosen? section_ key))).or (base.chosen? section_ key) := by
  have hmerge : find? (Setting.merge base es) (.str section_) = _ :=
    find?_mergeEntries hes (.str section_)
  cases hfind : find? es (.str section_) with
  | none =>
    rw [hfind] at hmerge
    simp only [chosen?, inSection, get, hmerge, hfind]
    rfl
  | some v =>
    obtain ⟨ws, rfl, hws⟩ := hsections v hfind
    rw [hfind] at hmerge
    simp only [chosen?, inSection, get, hmerge, hfind]
    exact find?_shown_mergeValue hws section_ _ key

/-- A section that is no mapping leaves nothing. -/
theorem chosen?_merge_eq_none {base es : Entries} {section_ : String} (hes : es.Keyed)
    (hfind : find? es (.str section_) = some v) (hv : ¬ ∃ ws, v = .mapping ws) (key : String) :
    (Setting.merge base es).chosen? section_ key = none := by
  have hmerge : find? (Setting.merge base es) (.str section_) = _ :=
    find?_mergeEntries hes (.str section_)
  rw [hfind] at hmerge
  simp only [chosen?, inSection, get, hmerge, Option.map_some, Option.some_or, Option.getD_some]
  rw [shown_mergeValue hv, find?_nil]

end Entries

end CrateBook
