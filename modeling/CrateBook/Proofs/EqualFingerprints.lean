import CrateBook.Proofs.DefaultLayers
import CrateBook.Proofs.Reordering

/-!
# Equal fingerprints

The fingerprint of a configuration is stamped into the report, so that runs with equal fingerprints
over one export give the same pages. It is the digest of the canonical text, and that text does not
tell everything that options are made of: as keys, words are spelled in another way than as texts;
what has parts is written in another form and order; and empty bytes and the empty set are written
like texts. Where a configuration has none of these in the places that options are read from, the
canonical text tells the options, but for the order of the versions.
-/
namespace CrateBook

namespace Setting

variable {v w : Setting} {es fs : Entries}

/-- No two canonical texts of the settings have the same digest. -/
def ToldApart (v w : Setting) : Prop := ∀ s t, v.canonical = .ok s → w.canonical = .ok t →
  Digest.ofText s = Digest.ofText t → s = t

/-- Configurations with the same fingerprint have the same canonical text. -/
theorem matches_of_fingerprint {version : Int} {f : String}
    (htold : ToldApart (stamped v (scalar (.int version))) (stamped w (scalar (.int version))))
    (hv : v.fingerprint version = .ok f) (hw : w.fingerprint version = .ok f) : v.Matches w := by
  obtain ⟨s, hs, hsf⟩ := Except.bind_eq_ok.1 hv
  obtain ⟨t, ht, htf⟩ := Except.bind_eq_ok.1 hw
  obtain rfl := htold s t hs ht ((Except.ok.inj hsf).trans (Except.ok.inj htf).symm)
  have hmatch : (stamped v (scalar (.int version))).Matches (stamped w (scalar (.int version))) :=
    ⟨s, hs, ht⟩
  have hkeyed (u : Setting) : Entries.Keyed
      ([("format_version", scalar (.int version)), ("config", u)].map fun e => (.str e.1, e.2)) :=
    Entries.keyed_texts (by simp)
  have htext (u : Setting) : HasText
      ([("format_version", scalar (.int version)), ("config", u)].map fun e => (.str e.1, e.2)) :=
    ⟨_, List.mem_cons_self, rfl⟩
  have hrel : Option.Rel Matches (some v) (some w) :=
    hmatch.find? (hkeyed v) (hkeyed w) (htext v) (htext w) "config"
  cases hrel with
  | some hconfig => exact hconfig

/-! ## Options of settings that match -/

theorem Matches.textOr_eq (h : v.Matches w) (hv : v.isDefinite = true ∧ v.isPartless = true)
    (hw : w.isDefinite = true ∧ w.isPartless = true) (other : String) :
    v.textOr other = w.textOr other := by
  rw [textOr, textOr, h.isSet_eq hv.1 hw.1, h.text_eq hv.2 hw.2]

/-- What is a path is a text. -/
theorem exists_str_of_path? {p : Option FilePath} (hset : v.isSet = true) (h : v.path? = .ok p) :
    ∃ s, v = str s ∧ p = some (FilePath.ofText s) := by
  unfold path? at h
  rw [if_pos hset] at h
  split at h
  · exact ⟨_, rfl, (Except.ok.inj h).symm⟩
  · cases h

theorem Matches.path?_eq (h : v.Matches w) (hv : v.isDefinite = true) (hw : w.isDefinite = true)
    {p q : Option FilePath} (hp : v.path? = .ok p) (hq : w.path? = .ok q) : p = q := by
  have hset := h.isSet_eq hv hw
  cases hisSet : v.isSet with
  | true =>
    obtain ⟨s, rfl, rfl⟩ := exists_str_of_path? hisSet hp
    obtain ⟨t, rfl, rfl⟩ := exists_str_of_path? (hset.symm.trans hisSet) hq
    rw [show s = t from h.text_eq rfl rfl]
  | false =>
    unfold path? at hp hq
    rw [hisSet] at hp
    rw [← hset, hisSet] at hq
    exact (Except.ok.inj hp).symm.trans (Except.ok.inj hq)

/-- The setting is a list, or a scalar other than bytes. -/
def isListed : Setting → Bool
  | list _ => true
  | scalar (.bytes _) => false
  | scalar _ => true
  | _ => false

/-- A scalar that lists something is a text. -/
theorem exists_str_of_texts {s : Scalar} {ts : List String} (hs : (scalar s).isListed = true)
    (hset : s.isSet = true) (h : (scalar s).texts = .ok ts) : ∃ t, s = .str t := by
  have hset' : (scalar s).isSet = true := hset
  unfold texts elementsOrNone at h
  rw [if_pos hset'] at h
  cases s with
  | str t => exact ⟨t, rfl⟩
  | bytes bs => cases hs
  | _ => cases h

theorem canonical_texts {ss us : List String}
    (h : List.Forall₂ (fun v t => v.canonical = .ok t) (ss.map str) us) :
    us = ss.map (Json.quote true) := by
  induction ss generalizing us with
  | nil =>
    cases h
    rfl
  | cons s ss ih =>
    cases h with
    | cons hs hrest =>
      cases hs
      exact congrArg _ (ih hrest)

/-- Lists of texts that match are the same. -/
theorem Matches.texts_inj {ss ts : List String}
    (h : (list (ss.map str)).Matches (list (ts.map str))) : ss = ts := by
  obtain ⟨t, hs, ht⟩ := h
  obtain ⟨us, hus, hut⟩ := canonical_list hs
  obtain ⟨ws, hws, hwt⟩ := canonical_list ht
  have hlist := Json.listText_inj (script_elements hus) (script_elements hws) (hut.symm.trans hwt)
  have heq : us = ws := List.map_injective_iff.2 (fun _ _ => String.toList_inj.1) hlist
  rw [canonical_texts hus, canonical_texts hws] at heq
  exact List.map_injective_iff.2 (fun _ _ => Json.quote_inj) heq

/-- The setting holds only texts if it is a list. -/
def ListsTexts (v : Setting) : Prop := ∀ vs, v = list vs → ∃ ss : List String, vs = ss.map str

/-- Only a list matches a list, among what is listed. -/
theorem Matches.exists_list {vs : List Setting} (h : (list vs).Matches w)
    (hw : w.isListed = true) : ∃ ws, w = list ws := by
  obtain ⟨c, hc, hwc⟩ := h.opens
  obtain rfl := eq_of_beq hc
  cases w with
  | list ws => exact ⟨ws, rfl⟩
  | scalar s => cases hwc
  | _ => cases hw

theorem Matches.texts_eq (h : v.Matches w) (hv : v.isListed = true) (hw : w.isListed = true)
    (hvt : v.ListsTexts) (hwt : w.ListsTexts) {ss ts : List String} (hs : v.texts = .ok ss)
    (ht : w.texts = .ok ts) : ss = ts := by
  cases v with
  | list vs =>
    obtain ⟨ws, rfl⟩ := h.exists_list hw
    obtain ⟨as, rfl⟩ := hvt vs rfl
    obtain ⟨bs, rfl⟩ := hwt ws rfl
    rw [texts_list, h.texts_inj] at hs
    rw [texts_list] at ht
    exact (Except.ok.inj hs).symm.trans (Except.ok.inj ht)
  | scalar s =>
    cases w with
    | list ws =>
      obtain ⟨vs, heq⟩ := h.symm.exists_list hv
      cases heq
    | scalar t =>
      have hsdef : (scalar s).isDefinite = true := by
        cases s <;> first | rfl | cases hv
      have htdef : (scalar t).isDefinite = true := by
        cases t <;> first | rfl | cases hw
      have hset := h.isSet_eq hsdef htdef
      cases hisSet : (scalar s).isSet with
      | true =>
        obtain ⟨a, rfl⟩ := exists_str_of_texts hv hisSet hs
        obtain ⟨b, rfl⟩ := exists_str_of_texts hw (hset.symm.trans hisSet) ht
        obtain rfl : a = b := h.text_eq rfl rfl
        exact Except.ok.inj (hs.symm.trans ht)
      | false =>
        unfold texts elementsOrNone at hs ht
        rw [hisSet] at hs
        rw [← hset, hisSet] at ht
        exact (Except.ok.inj hs).symm.trans (Except.ok.inj ht)
    | _ => cases hw
  | _ => cases hv

/-! ## Versions -/

/-- The keys are spelled as they are written, and each once, and the values have no parts. -/
structure Spelled (es : Entries) : Prop where
  keys : ∀ e ∈ es, e.1.keyText = .ok e.1.text
  values : ∀ e ∈ es, e.2.isPartless = true
  distinct : (es.map fun e => e.1.text).Nodup

theorem spelled_texts {es : List (String × String)} (h : (es.map (·.1)).Nodup) :
    Spelled (es.map fun e => (.str e.1, str e.2)) where
  keys := List.forall_mem_map.2 fun _ _ => rfl
  values := List.forall_mem_map.2 fun _ _ => rfl
  distinct := by
    rw [List.map_map]
    exact h

theorem versions_eq {l : List (String × String)} (hspelled : Spelled v.shown)
    (h : v.versions = .ok l) : l = v.shown.map fun e => (e.1.text, e.2.text) := by
  unfold versions at h
  obtain ⟨es, hes, h⟩ := Except.bind_eq_ok.1 h
  cases h
  cases hor : v.orMapping with
  | mapping fs =>
    rw [hor] at hes
    obtain rfl := Except.ok.inj hes
    rw [← orMapping_eq_shown hor, Table.entries_ofList]
    rw [List.map_map]
    exact hspelled.distinct
  | _ =>
    rw [hor] at hes
    cases hes

theorem Matches.mem_versions (h : v.Matches w) (hv : Spelled v.shown) (hw : Spelled w.shown)
    {p : String × String} (hp : p ∈ v.shown.map fun e => (e.1.text, e.2.text)) :
    p ∈ w.shown.map fun e => (e.1.text, e.2.text) := by
  rcases h.shown_cases with ⟨es, fs, rfl, rfl⟩ | ⟨hnil, -⟩
  · obtain ⟨e, he, rfl⟩ := List.mem_map.1 hp
    obtain ⟨f, hf, ⟨k, hk, hk'⟩, hmatch⟩ := h.exists_entry he
    have hkey : e.1.text = f.1.text :=
      (Except.ok.inj ((hv.keys e he).symm.trans hk)).trans
        (Except.ok.inj (hk'.symm.trans (hw.keys f hf)))
    rw [hkey, hmatch.text_eq (hv.values e he) (hw.values f hf)]
    exact List.mem_map_of_mem hf
  · rw [hnil] at hp
    cases hp

/-- The versions of settings that match are looked up alike. -/
theorem Matches.lookup_versions (h : v.Matches w) (hv : Spelled v.shown) (hw : Spelled w.shown)
    {l m : List (String × String)} (hl : v.versions = .ok l) (hm : w.versions = .ok m)
    (package : String) : l.lookup package = m.lookup package := by
  rw [versions_eq hv hl, versions_eq hw hm]
  refine Table.lookup_eq_of_mem_iff ?_ ?_ (fun p => ⟨h.mem_versions hv hw, ?_⟩) package
  · rw [List.map_map]
    exact hv.distinct
  · rw [List.map_map]
    exact hw.distinct
  · exact h.symm.mem_versions hw hv

end Setting

/-! ## Configurations -/

namespace Entries

open Setting (Matches)

variable {c d : Entries}

def textPlaces : List (String × String) :=
  [("output", "mode"), ("output", "base_path"), ("links", "external_host"), ("links", "std_host"),
    ("links", "default_version")]

/-- The places of which it matters whether they hold something. -/
def setPlaces : List (String × String) :=
  ("output", "include_private") :: ("navigation", "output") :: ("navigation", "collapsed") ::
    textPlaces

/-- The canonical text tells what the places of options hold. -/
structure Clear (c : Entries) : Prop where
  definite : ∀ p ∈ setPlaces, (c.choice p.1 p.2).isDefinite = true
  partless : ∀ p ∈ textPlaces, (c.choice p.1 p.2).isPartless = true
  listed : ∀ p ∈ Setting.unitedLists, (c.choice p.1 p.2).isListed = true
  versions : Setting.Spelled (c.choice "links" "versions").shown

/-- Two configurations have matching values in the places of options. -/
def Corresponds (c d : Entries) : Prop := ∀ name ∈ Configuration.sectionNames, ∀ key,
  Option.Rel Matches (c.chosen? name key) (d.chosen? name key)

namespace Corresponds

variable (h : c.Corresponds d)

include h

/-- Corresponding configurations have matching values in every place. -/
theorem choice {name : String} (hname : name ∈ Configuration.sectionNames) (key : String) :
    (c.choice name key).Matches (d.choice name key) := by
  have hrel := h name hname key
  unfold Entries.choice
  generalize c.chosen? name key = v, d.chosen? name key = w at hrel ⊢
  cases hrel with
  | some hmatch => exact hmatch
  | none => exact ⟨"null", rfl, rfl⟩

/-- Corresponding configurations agree on what a definite place switches on. -/
theorem truth {name : String} (hname : name ∈ Configuration.sectionNames) {key : String}
    (hc : (c.choice name key).isDefinite = true) (hd : (d.choice name key).isDefinite = true)
    (default : Bool) : c.truth name key default = d.truth name key default := by
  have hrel := h name hname key
  unfold Entries.choice at hc hd
  unfold Entries.truth
  generalize c.chosen? name key = v, d.chosen? name key = w at hrel hc hd ⊢
  cases hrel with
  | some hmatch => exact hmatch.isSet_eq hc hd
  | none => rfl

end Corresponds

end Entries

namespace Configuration

open Entries (Clear Corresponds setPlaces textPlaces)
open Setting (Reads ListsTexts mapping record scalar stamped str)

/-- What is listed in a place of a united list is a text. -/
theorem listsTexts_choice {user : Entries} (h : user.Distinct) {p : String × String}
    (hp : p ∈ Setting.unitedLists) {w : Setting}
    (hmatch : ((ofEntries user).choice p.1 p.2).Matches w) :
    ((ofEntries user).choice p.1 p.2).ListsTexts := by
  intro vs hvs
  obtain ⟨t, ht, -⟩ := hmatch
  rw [hvs] at ht
  refine exists_texts h hp ?_ ht
  unfold Entries.choice at hvs
  cases hv : (ofEntries user).chosen? p.1 p.2 with
  | some v =>
    rw [hv] at hvs
    exact congrArg some hvs
  | none =>
    rw [hv] at hvs
    cases hvs

/-- Clear configurations that correspond give alike options. -/
theorem alike_of_corresponds {c d : Entries} (h : c.Corresponds d) (hc : c.Clear) (hd : d.Clear)
    (hct : ∀ p ∈ Setting.unitedLists, (c.choice p.1 p.2).ListsTexts)
    (hdt : ∀ p ∈ Setting.unitedLists, (d.choice p.1 p.2).ListsTexts) {a b : Options}
    (ha : Reads c a) (hb : Reads d b) (hhash : a.configHash = b.configHash) : a.Alike b := by
  have hsections : ∀ p ∈ setPlaces ++ Setting.unitedLists, p.1 ∈ sectionNames := by decide
  have hset {p : String × String} (hp : p ∈ setPlaces) : p.1 ∈ sectionNames :=
    hsections p (List.mem_append_left _ hp)
  have htext {p : String × String} (hp : p ∈ textPlaces) (other : String) :
      (c.choice p.1 p.2).textOr other = (d.choice p.1 p.2).textOr other := by
    have hp' : p ∈ setPlaces := List.mem_cons_of_mem _ (List.mem_cons_of_mem _
      (List.mem_cons_of_mem _ hp))
    exact (h.choice (hset hp') p.2).textOr_eq ⟨hc.definite p hp', hc.partless p hp⟩
      ⟨hd.definite p hp', hd.partless p hp⟩ other
  have htruth {p : String × String} (hp : p ∈ setPlaces) (default : Bool) :
      c.truth p.1 p.2 default = d.truth p.1 p.2 default :=
    h.truth (hset hp) (hc.definite p hp) (hd.definite p hp) default
  have hlist {p : String × String} (hp : p ∈ Setting.unitedLists) {ss ts : List String}
      (hs : (c.choice p.1 p.2).texts = .ok ss) (ht : (d.choice p.1 p.2).texts = .ok ts) : ss = ts :=
    (h.choice (hsections p (List.mem_append_right _ hp)) p.2).texts_eq (hc.listed p hp)
      (hd.listed p hp) (hct p hp) (hdt p hp) hs ht
  have hmode := htext (p := ("output", "mode")) (by decide) "module"
  constructor
  case includePrivate =>
    rw [ha.includePrivate, hb.includePrivate]
    exact htruth (p := ("output", "include_private")) (by decide) false
  case mode =>
    have hmode' := ha.mode
    rw [hmode, hb.mode] at hmode'
    exact (Except.ok.inj hmode').symm
  case workspacePackages =>
    exact hlist (p := ("workspace", "packages")) (by decide) ha.workspacePackages
      hb.workspacePackages
  case basePath =>
    rw [ha.basePath, hb.basePath]
    exact htext (p := ("output", "base_path")) (by decide) ""
  case navigationOutput =>
    have hp : ("navigation", "output") ∈ setPlaces := by decide
    exact (h.choice (hset hp) "output").path?_eq (hc.definite _ hp) (hd.definite _ hp)
      ha.navigationOutput hb.navigationOutput
  case navigationCollapsed =>
    rw [ha.navigationCollapsed, hb.navigationCollapsed]
    exact htruth (p := ("navigation", "collapsed")) (by decide) true
  case links =>
    constructor
    case externalHost =>
      rw [ha.links.externalHost, hb.links.externalHost]
      exact htext (p := ("links", "external_host")) (by decide) _
    case stdHost =>
      rw [ha.links.stdHost, hb.links.stdHost]
      exact htext (p := ("links", "std_host")) (by decide) _
    case defaultVersion =>
      rw [ha.links.defaultVersion, hb.links.defaultVersion]
      exact htext (p := ("links", "default_version")) (by decide) _
    case versions =>
      exact (h.choice (by decide) "versions").lookup_versions hc.versions hd.versions
        ha.links.versions hb.links.versions
  case noiseTraits =>
    exact hlist (p := ("noise", "traits")) (by decide) ha.noiseTraits hb.noiseTraits
  case configHash => exact hhash

/-- A configuration of sections. -/
def ofSections (ss : List (String × List (String × Setting))) : Entries :=
  ss.map fun s => (.str s.1, record s.2)

theorem distinct_ofSections {ss : List (String × List (String × Setting))}
    (h : (ss.map (·.1)).Nodup) (hs : ∀ s ∈ ss, (s.2.map (·.1)).Nodup) :
    (ofSections ss).Distinct where
  keys := by
    have hkeyed := @Entries.keyed_texts (ss.map fun s => (s.1, record s.2))
    rw [List.map_map, List.map_map] at hkeyed
    exact hkeyed h
  sections := List.forall_mem_map.2 fun s hmem => Entries.keyed_texts (hs s hmem)

/-- The canonical text that the fingerprint of a user's configuration is made of. -/
def stampText (user : Entries) : Option String :=
  (stamped (mapping (ofEntries user)) (scalar (.int supportedVersion))).canonical.toOption

/-- Configurations with one such text have one fingerprint. -/
theorem exists_fingerprint {u v : Entries} (hsome : (stampText u).isSome = true)
    (hsame : stampText u = stampText v) : ∃ f,
      Setting.ToldApart (stamped (mapping (ofEntries u)) (scalar (.int supportedVersion)))
        (stamped (mapping (ofEntries v)) (scalar (.int supportedVersion))) ∧
      (mapping (ofEntries u)).fingerprint supportedVersion = .ok f ∧
      (mapping (ofEntries v)).fingerprint supportedVersion = .ok f := by
  obtain ⟨t, ht⟩ := Option.isSome_iff_exists.1 hsome
  have hok {x : Checked String} (h : x.toOption = some t) : x = .ok t := by
    cases x with
    | ok s => exact congrArg _ (Option.some.inj h)
    | error e => cases h
  have hu := hok ht
  have hv := hok (hsame ▸ ht)
  refine ⟨Digest.ofText t, fun s s' hs hs' _ => ?_, ?_, ?_⟩
  · rw [hu] at hs
    rw [hv] at hs'
    exact (Except.ok.inj hs).symm.trans (Except.ok.inj hs')
  · rw [Setting.fingerprint, Setting.digest, hu]
    rfl
  · rw [Setting.fingerprint, Setting.digest, hv]
    rfl

/-- Equal fingerprints mean alike options, and the same pages of each export, for configurations
whose canonical texts tell what the places of options hold, unless two canonical texts have one
digest. -/
theorem alike_of_fingerprint {u v : Entries} (hu : u.Distinct) (hv : v.Distinct)
    (hcu : (ofEntries u).Clear) (hcv : (ofEntries v).Clear) {version : Int}
    (htold : Setting.ToldApart (stamped (mapping (ofEntries u)) (scalar (.int version)))
      (stamped (mapping (ofEntries v)) (scalar (.int version))))
    {f : String} (hfu : (mapping (ofEntries u)).fingerprint version = .ok f)
    (hfv : (mapping (ofEntries v)).fingerprint version = .ok f) {hash : String} {a b : Options}
    (ha : (mapping (ofEntries u)).options hash = .ok a)
    (hb : (mapping (ofEntries v)).options hash = .ok b) :
    a.Alike b ∧ ∀ x : Export,
      (x.convert b).map Conversion.results = (x.convert a).map Conversion.results := by
  have hmatch := Setting.matches_of_fingerprint htold hfu hfv
  have hcorresponds : (ofEntries u).Corresponds (ofEntries v) := fun name hname key =>
    rel_chosen? hmatch hu.keys hv.keys hname key
  have hsections : ∀ p ∈ Setting.unitedLists, p.1 ∈ sectionNames := by decide
  obtain ⟨hreads, hhash⟩ := Setting.reads_of_options ha
  obtain ⟨hreads', hhash'⟩ := Setting.reads_of_options hb
  have halike : a.Alike b := by
    refine alike_of_corresponds hcorresponds hcu hcv (fun p hp => ?_) (fun p hp => ?_) hreads
      hreads' (hhash.trans hhash'.symm)
    · exact listsTexts_choice hu hp (hcorresponds.choice (hsections p hp) p.2)
    · exact listsTexts_choice hv hp (hcorresponds.choice (hsections p hp) p.2).symm
  exact ⟨halike, halike.results⟩

/-- A configuration of versions and a mode. -/
def someUser : Entries := ofSections
  [("links", [("versions", record [("serde", str "1"), ("log", str "2")])]),
   ("output", [("mode", str "item")])]

/-- The same in another order, with a default spelled out. -/
def otherUser : Entries := ofSections
  [("output", [("include_private", .bool false), ("mode", str "item")]),
   ("links", [("versions", record [("log", str "2"), ("serde", str "1")])])]

/-- The two configurations have one fingerprint, so whatever is converted with them is the same.
-/
theorem alike_of_fingerprint_otherUser : ∃ f a b,
    (mapping (ofEntries someUser)).fingerprint supportedVersion = .ok f ∧
    (mapping (ofEntries otherUser)).fingerprint supportedVersion = .ok f ∧
    (mapping (ofEntries someUser)).options "" = .ok a ∧
    (mapping (ofEntries otherUser)).options "" = .ok b ∧
    a.Alike b ∧ ∀ x : Export,
      (x.convert b).map Conversion.results = (x.convert a).map Conversion.results := by
  have hclear : (ofEntries someUser).Clear := {
    definite := by decide +kernel
    partless := by decide +kernel
    listed := by decide +kernel
    versions := @Setting.spelled_texts [("serde", "1"), ("log", "2")] (by decide) }
  have hclear' : (ofEntries otherUser).Clear := {
    definite := by decide +kernel
    partless := by decide +kernel
    listed := by decide +kernel
    versions := @Setting.spelled_texts [("log", "2"), ("serde", "1")] (by decide) }
  obtain ⟨f, htold, hf, hf'⟩ := @exists_fingerprint someUser otherUser (by decide +kernel)
    (by decide +kernel)
  have ha : (mapping (ofEntries someUser)).options "" = .ok
      { mode := .item, links := { versions := [("serde", "1"), ("log", "2")] } } := by rfl
  have hb : (mapping (ofEntries otherUser)).options "" = .ok
      { mode := .item, links := { versions := [("log", "2"), ("serde", "1")] } } := by rfl
  have hdistinct : someUser.Distinct := distinct_ofSections (by decide) (by decide)
  have hdistinct' : otherUser.Distinct := distinct_ofSections (by decide) (by decide)
  exact ⟨f, _, _, hf, hf', ha, hb,
    alike_of_fingerprint hdistinct hdistinct' hclear hclear' htold hf hf' ha hb⟩

/-- A version of a package that is named by a word. -/
def wordKey : Entries := ofSections [("links", [("versions", mapping [(.bool true, str "1")])])]

/-- A version of a package that is named by the same word as a text. -/
def textKey : Entries := ofSections [("links", [("versions", record [("true", str "1")])])]

/-- The canonical text writes both keys in one way, and the options spell them in two. -/
theorem not_alike_wordKey : wordKey.Distinct ∧ textKey.Distinct ∧
    stampText wordKey = stampText textKey ∧ ∃ f a b,
      (mapping (ofEntries wordKey)).fingerprint supportedVersion = .ok f ∧
      (mapping (ofEntries textKey)).fingerprint supportedVersion = .ok f ∧
      (mapping (ofEntries wordKey)).options "" = .ok a ∧
      (mapping (ofEntries textKey)).options "" = .ok b ∧
      a.links.versions = [("True", "1")] ∧ b.links.versions = [("true", "1")] ∧ ¬ a.Alike b := by
  have hsame : stampText wordKey = stampText textKey := by decide +kernel
  obtain ⟨f, -, hf, hf'⟩ := exists_fingerprint (by decide +kernel) hsame
  have ha : (mapping (ofEntries wordKey)).options "" = .ok
      { links := { versions := [("True", "1")] } } := by rfl
  have hb : (mapping (ofEntries textKey)).options "" = .ok
      { links := { versions := [("true", "1")] } } := by rfl
  refine ⟨distinct_ofSections (by decide) (by decide), distinct_ofSections (by decide) (by decide),
    hsame, f, _, _, hf, hf', ha, hb, rfl, rfl, fun halike => ?_⟩
  have hlookup := halike.links.versions "true"
  simp at hlookup

end Configuration

end CrateBook
