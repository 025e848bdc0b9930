import CrateBook.CommandLine.Arguments
import CrateBook.Proofs.OptionPlaces
import Mathlib.Logic.Basic

/-!
# Flags over a configuration

What the command line says is laid over the defaults and the user's file. A flag that is given
decides its option, whatever the file holds in that place, and a flag that is not given leaves
its option to the file.
-/
namespace CrateBook

/-! ## Paths that are written and read again -/

namespace FilePath

/-- A name of a path: not empty, not a single point, and without a slash. -/
def IsName (n : String) : Prop := n ≠ "" ∧ n ≠ "." ∧ '/' ∉ n.toList

theorem names_ofText (s : String) :
    (ofText s).names = ((s.toList.splitOn '/').map String.ofList).filter
      fun n => !n.isEmpty && n != "." := by
  rw [ofText, Text.splitAt, Text.splitChars_eq_splitOn]

theorem isName_of_mem {s n : String} (h : n ∈ (ofText s).names) : IsName n := by
  rw [names_ofText] at h
  obtain ⟨hpart, hkept⟩ := List.mem_filter.1 h
  obtain ⟨cs, hcs, rfl⟩ := List.mem_map.1 hpart
  rw [Bool.and_eq_true, Bool.not_eq_true', bne_iff_ne] at hkept
  refine ⟨fun hempty => ?_, hkept.2, ?_⟩
  · rw [hempty] at hkept
    exact absurd hkept.1 (by decide)
  · rw [String.toList_ofList]
    exact Text.notMem_of_mem_splitOn hcs

theorem filter_names {names : List String} (h : ∀ n ∈ names, IsName n) :
    (names.filter fun n => !n.isEmpty && n != ".") = names := by
  refine List.filter_eq_self.2 fun n hn => ?_
  obtain ⟨hempty, hpoint, -⟩ := h n hn
  rw [Bool.and_eq_true, Bool.not_eq_true', bne_iff_ne]
  exact ⟨Bool.eq_false_iff.2 fun heq => hempty (String.isEmpty_iff.1 heq), hpoint⟩

/-- Slashes in front of names write a root and no name. -/
theorem names_ofText_intercalate {names : List String} (h : ∀ n ∈ names, IsName n)
    (slashes : Nat) :
    (ofText (String.ofList (List.replicate slashes '/') ++ "/".intercalate names)).names =
      names := by
  rw [names_ofText, String.toList_append, String.toList_ofList, String.toList_intercalate]
  induction slashes with
  | zero =>
    rw [List.replicate_zero, List.nil_append]
    by_cases hnil : names = []
    · rw [hnil]
      rfl
    · have hslash : ∀ part ∈ names.map String.toList, '/' ∉ part :=
        List.forall_mem_map.2 fun n hn => (h n hn).2.2
      have hjoined := List.splitOn_intercalate '/' hslash (by simpa using hnil)
      rw [show "/".toList = ['/'] from rfl, hjoined, List.map_map]
      simpa using filter_names h
  | succ slashes ih =>
    rw [List.replicate_succ, List.cons_append, List.splitOn_cons_eq_if_modifyHead,
      if_pos (beq_self_eq_true _), List.map_cons, List.filter_cons_of_neg (by decide)]
    exact ih

theorem rootOf_cases (s : String) :
    ∃ slashes ≤ 2, rootOf s = String.ofList (List.replicate slashes '/') := by
  unfold rootOf
  split
  · exact ⟨1, by decide, rfl⟩
  · exact ⟨2, by decide, rfl⟩
  · exact ⟨1, by decide, rfl⟩
  · exact ⟨0, by decide, rfl⟩

/-- One slash or two in front of anything but a slash are the root of a text. -/
theorem rootOf_slashes {s : String} (hs : s.toList.head? ≠ some '/') {slashes : Nat}
    (hle : slashes ≤ 2) :
    rootOf (String.ofList (List.replicate slashes '/') ++ s) =
      String.ofList (List.replicate slashes '/') := by
  have hchars : s.toList = [] ∨ ∃ c cs, s.toList = c :: cs ∧ c ≠ '/' := by
    cases hlist : s.toList with
    | nil => exact .inl rfl
    | cons c cs => exact .inr ⟨c, cs, rfl, fun heq => hs (by rw [hlist, heq, List.head?_cons])⟩
  rw [rootOf, String.toList_append, String.toList_ofList]
  match slashes, hle with
  | 0, _ | 1, _ | 2, _ =>
    rcases hchars with hlist | ⟨c, cs, hlist, hc⟩
    · rw [hlist]
      rfl
    · simp [hlist, hc]

theorem head?_intercalate {names : List String} (h : ∀ n ∈ names, IsName n) :
    ("/".intercalate names).toList.head? ≠ some '/' := by
  cases names with
  | nil => simp
  | cons n names =>
    obtain ⟨hempty, -, hslash⟩ := h n List.mem_cons_self
    obtain ⟨c, cs, hn⟩ := List.exists_cons_of_ne_nil (mt String.toList_eq_nil_iff.1 hempty)
    have hc : c ≠ '/' := fun heq => hslash (hn ▸ heq ▸ List.mem_cons_self)
    have hhead : ("/".intercalate (n :: names)).toList.head? = some c := by
      by_cases hnil : names = []
      · rw [hnil, String.intercalate_singleton, hn, List.head?_cons]
      · rw [String.intercalate_cons_of_ne_nil hnil, String.toList_append, String.toList_append, hn]
        rfl
    rw [hhead]
    exact fun heq => hc (Option.some.inj heq)

/-- The text of a path writes this path. -/
theorem ofText_text (s : String) : ofText (ofText s).text = ofText s := by
  have hnames : ∀ n ∈ (ofText s).names, IsName n := fun n => isName_of_mem
  obtain ⟨slashes, hle, hroot⟩ := rootOf_cases s
  rw [text]
  split
  · next hpoint =>
    rw [Bool.and_eq_true, String.isEmpty_iff, List.isEmpty_iff] at hpoint
    calc ofText "." = ⟨"", []⟩ := by decide
      _ = ⟨(ofText s).root, (ofText s).names⟩ := by rw [hpoint.1, hpoint.2]
  · have hroot' := rootOf_slashes (head?_intercalate hnames) hle
    have hnames' := names_ofText_intercalate hnames slashes
    rw [← hroot] at hroot' hnames'
    calc ofText (rootOf s ++ "/".intercalate (ofText s).names)
        = ⟨rootOf s, (ofText s).names⟩ := congrArg₂ FilePath.mk hroot' hnames'

theorem text_ne_empty (s : String) : (ofText s).text ≠ "" := by
  intro hempty
  have hback := ofText_text s
  rw [hempty] at hback
  rw [← hback] at hempty
  exact absurd hempty (by decide)

end FilePath

namespace CommandLine

open CrateBook.Configuration (Overrides override ofEntries)

open Setting (str bool record)

/-- What the flags of a command line say about the configuration. -/
structure Flags where
  includePrivate : Bool := false
  mode : Option Mode := none
  basePath : Option String := none
  /-- Names with commas between them. -/
  packages : Option String := none
  navigationOutput : Option String := none
  navigationCollapsed : Option Bool := none
deriving DecidableEq, Repr

namespace Flags

/-- The overrides that the flags stand for. An empty list of packages is as good as none. -/
def overrides (f : Flags) : Overrides where
  includePrivate := f.includePrivate
  mode := f.mode
  basePath := f.basePath
  packages := f.packages.bind fun s => if s.isEmpty then none else some (nameList s)
  navigationOutput := f.navigationOutput.map FilePath.ofText
  navigationCollapsed := f.navigationCollapsed

end Flags

/-! ## Arguments that are read -/

variable {d e : Draft}

/-- The flags so far are flags with these values. -/
def Draft.Says (d : Draft) : Prop := ∃ f : Flags, d.overrides = f.overrides

theorem Draft.Says.setFlag {f : Flag} (h : d.Says) (hset : d.setFlag f = .ok e) : e.Says := by
  obtain ⟨fs, hfs⟩ := h
  cases f with
  | includePrivate =>
    cases hset
    exact ⟨{ fs with includePrivate := true }, by rw [hfs]; rfl⟩
  | help => cases hset
  | _ =>
    cases hset
    exact ⟨fs, hfs⟩

theorem Draft.Says.setValue {f : Flag} {v : String} (h : d.Says) (hset : d.setValue f v = .ok e) :
    e.Says := by
  obtain ⟨fs, hfs⟩ := h
  cases f with
  | mode =>
    unfold Draft.setValue at hset
    cases hmode : Mode.ofName? v with
    | none => simp [hmode] at hset
    | some m =>
      simp only [hmode] at hset
      cases hset
      exact ⟨{ fs with mode := some m }, by rw [hfs]; rfl⟩
  | basePath =>
    cases hset
    exact ⟨{ fs with basePath := some v }, by rw [hfs]; rfl⟩
  | packages =>
    cases hset
    exact ⟨{ fs with packages := some v }, by rw [hfs]; rfl⟩
  | navigationOutput =>
    cases hset
    exact ⟨{ fs with navigationOutput := some v }, by rw [hfs]; rfl⟩
  | navigationCollapsed =>
    unfold Draft.setValue at hset
    cases hword : truthWords.lookup (Text.lower (Text.trim v)) with
    | none => simp [hword] at hset
    | some b =>
      simp only [hword] at hset
      cases hset
      exact ⟨{ fs with navigationCollapsed := some b }, by rw [hfs]; rfl⟩
  | _ =>
    cases hset
    exact ⟨fs, hfs⟩

/-- Reading arguments takes in flags and nothing else. -/
theorem Draft.Says.readWords {n : Nat} {ws : List Word} (h : d.Says)
    (hread : readWords n d ws = .ok e) : e.Says := by
  induction n generalizing d ws with
  | zero =>
    cases hread
    exact h
  | succ n ih =>
    unfold CommandLine.readWords at hread
    dsimp only at hread
    split at hread
    · cases hread
      exact h
    · split at hread
      · obtain ⟨e', hset, hread⟩ := Except.bind_eq_ok.1 hread
        exact ih (h.setValue hset) hread
      · cases hread
    · split at hread
      · split at hread
        · obtain ⟨e', hset, hread⟩ := Except.bind_eq_ok.1 hread
          exact ih (h.setValue hset) hread
        · cases hread
      · obtain ⟨e', hset, hread⟩ := Except.bind_eq_ok.1 hread
        exact ih (h.setFlag hset) hread
    · refine ih ?_ hread
      exact h
    · split at hread <;>
      · refine ih ?_ hread
        exact h

/-- What a command line overrides is what some flags say. -/
theorem exists_flags_of_parse {arguments : List String} {i : Invocation}
    (h : Invocation.parse arguments = .ok i) : ∃ f : Flags, i.overrides = f.overrides := by
  obtain ⟨ws, -, h⟩ := Except.bind_eq_ok.1 h
  obtain ⟨d, hread, h⟩ := Except.bind_eq_ok.1 h
  have hsays : d.Says := Draft.Says.readWords ⟨{}, rfl⟩ hread
  split at h
  · split at h
    · cases h
      exact hsays
    · cases h
  · cases h

end CommandLine

/-! ## Overrides as a configuration of sections -/

namespace Configuration.Overrides

open Setting (str bool record list)

open Entries (Keyed find?)

variable {o : Overrides}

def fields (entries : List (Option (String × Setting))) : Entries :=
  (entries.filterMap id).map fun e => (.str e.1, e.2)

theorem find?_section (name : String) (entries : List (Option (String × Setting))) :
    find? (section_ name entries) (.str name) =
      if (entries.filterMap id).isEmpty then none else some (.mapping (fields entries)) := by
  unfold section_
  dsimp only
  split
  · rfl
  · exact Entries.find?_cons_self

theorem find?_section_of_ne {name other : String} (h : name ≠ other)
    (entries : List (Option (String × Setting))) :
    find? (section_ name entries) (.str other) = none := by
  unfold section_
  dsimp only
  split
  · rfl
  · exact Entries.find?_cons_of_ne fun heq => h (Scalar.str.inj heq)

theorem mem_section {name : String} {entries : List (Option (String × Setting))}
    {e : Scalar × Setting} (h : e ∈ section_ name entries) :
    e = (.str name, .mapping (fields entries)) := by
  unfold section_ at h
  dsimp only at h
  split at h
  · cases h
  · exact List.mem_singleton.1 h

theorem chosen?_section (name key : String) (entries : List (Option (String × Setting))) :
    Entries.chosen? (section_ name entries) name key = find? (fields entries) (.str key) := by
  rw [Entries.chosen?, Entries.inSection, Entries.get, find?_section]
  split
  · next hempty =>
    rw [fields, List.isEmpty_iff.1 hempty]
    rfl
  · rfl

theorem keyed_section (name : String) (entries : List (Option (String × Setting))) :
    Keyed (section_ name entries) := by
  unfold section_
  dsimp only
  split
  · exact .nil
  · exact List.pairwise_singleton _ _

theorem keyed_entries (o : Overrides) : Keyed o.entries := by
  unfold entries
  refine List.pairwise_append.2
    ⟨List.pairwise_append.2 ⟨keyed_section _ _, keyed_section _ _, ?_⟩, keyed_section _ _, ?_⟩
  · intro e he f hf
    rw [mem_section he, mem_section hf]
    rfl
  · intro e he f hf
    rcases List.mem_append.1 he with he | he <;>
    · rw [mem_section he, mem_section hf]
      rfl

theorem sections_entries (o : Overrides) {name : String} {v : Setting}
    (h : find? o.entries (.str name) = some v) : ∃ ws, v = .mapping ws ∧ Keyed ws := by
  obtain ⟨e, he, rfl⟩ := Entries.mem_of_find? h
  unfold entries at he
  rcases List.mem_append.1 he with he | he
  · rcases List.mem_append.1 he with he | he
    · refine ⟨_, congrArg Prod.snd (mem_section he), Entries.keyed_texts ?_⟩
      cases o.includePrivate <;> cases o.mode <;> cases o.basePath <;> simp
    · refine ⟨_, congrArg Prod.snd (mem_section he), Entries.keyed_texts ?_⟩
      cases o.packages <;> simp
  · refine ⟨_, congrArg Prod.snd (mem_section he), Entries.keyed_texts ?_⟩
    cases o.navigationOutput <;> cases o.navigationCollapsed <;> simp

/-- What a section of the overrides holds. -/
theorem chosen?_output (o : Overrides) (key : String) : o.entries.chosen? "output" key =
    find? (fields [if o.includePrivate then some ("include_private", bool true) else none,
      o.mode.map fun m => ("mode", str m.name),
      o.basePath.map fun p => ("base_path", str p)]) (.str key) := by
  rw [← chosen?_section "output", Entries.chosen?, Entries.inSection, Entries.get, entries,
    Entries.find?_append, Entries.find?_append, @find?_section_of_ne "workspace" _ (by decide),
    @find?_section_of_ne "navigation" _ (by decide), Option.or_none, Option.or_none]
  rfl

theorem chosen?_workspace (o : Overrides) (key : String) : o.entries.chosen? "workspace" key =
    find? (fields [o.packages.map fun ps => ("packages", list (ps.map str))]) (.str key) := by
  rw [← chosen?_section "workspace", Entries.chosen?, Entries.inSection, Entries.get, entries,
    Entries.find?_append, Entries.find?_append, find?_section_of_ne (by decide),
    @find?_section_of_ne "navigation" _ (by decide), Option.none_or, Option.or_none]
  rfl

theorem chosen?_navigation (o : Overrides) (key : String) : o.entries.chosen? "navigation" key =
    find? (fields [o.navigationOutput.map fun p => ("output", str p.text),
      o.navigationCollapsed.map fun b => ("collapsed", bool b)]) (.str key) := by
  rw [← chosen?_section "navigation", Entries.chosen?, Entries.inSection, Entries.get, entries,
    Entries.find?_append, Entries.find?_append, find?_section_of_ne (by decide),
    find?_section_of_ne (by decide), Option.none_or, Option.none_or]
  rfl

theorem chosen?_of_ne {name : String} (houtput : "output" ≠ name) (hworkspace : "workspace" ≠ name)
    (hnavigation : "navigation" ≠ name) (o : Overrides) (key : String) :
    o.entries.chosen? name key = none := by
  rw [Entries.chosen?, Entries.inSection, Entries.get, entries, Entries.find?_append,
    Entries.find?_append, find?_section_of_ne houtput, find?_section_of_ne hworkspace,
    find?_section_of_ne hnavigation]
  rfl

theorem chosen?_includePrivate (o : Overrides) : o.entries.chosen? "output" "include_private" =
    if o.includePrivate then some (bool true) else none := by
  rw [chosen?_output]
  cases o.includePrivate <;> cases o.mode <;> cases o.basePath <;> rfl

theorem chosen?_mode (o : Overrides) :
    o.entries.chosen? "output" "mode" = o.mode.map fun m => str m.name := by
  rw [chosen?_output]
  cases o.includePrivate <;> cases o.mode <;> cases o.basePath <;> rfl

theorem chosen?_basePath (o : Overrides) :
    o.entries.chosen? "output" "base_path" = o.basePath.map str := by
  rw [chosen?_output]
  cases o.includePrivate <;> cases o.mode <;> cases o.basePath <;> rfl

theorem chosen?_packages (o : Overrides) :
    o.entries.chosen? "workspace" "packages" = o.packages.map fun ps => list (ps.map str) := by
  rw [chosen?_workspace]
  cases o.packages <;> rfl

theorem chosen?_navigationOutput (o : Overrides) :
    o.entries.chosen? "navigation" "output" = o.navigationOutput.map fun p => str p.text := by
  rw [chosen?_navigation]
  cases o.navigationOutput <;> cases o.navigationCollapsed <;> rfl

theorem chosen?_navigationCollapsed (o : Overrides) :
    o.entries.chosen? "navigation" "collapsed" = o.navigationCollapsed.map bool := by
  rw [chosen?_navigation]
  cases o.navigationOutput <;> cases o.navigationCollapsed <;> rfl

/-- What stands at a key of a section under overrides. -/
theorem chosen?_override (config : Entries) (o : Overrides) (name key : String) :
    (override config o).chosen? name key =
      ((o.entries.chosen? name key).map (Setting.mergeValue (some (.str name)) (.str key)
        (config.chosen? name key))).or (config.chosen? name key) :=
  Entries.chosen?_merge (keyed_entries o) (fun _ => sections_entries o) key

end Configuration.Overrides

/-! ## Options under flags -/

namespace CommandLine.Flags

open CrateBook.Configuration (Overrides override ofEntries)

open Setting (str list record)

/-- Each flag that is given decides its option. -/
structure Decides (f : Flags) (a : Options) : Prop where
  includePrivate : f.includePrivate = true → a.includePrivate = true
  mode : ∀ m, f.mode = some m → a.mode = m
  basePath : ∀ s, f.basePath = some s → a.basePath = s
  /-- The names between the commas, without blanks around them. -/
  packages : ∀ s, f.packages = some s → ∀ part ∈ Text.splitAt ',' s, Text.trim part ≠ "" →
    Text.trim part ∈ a.workspacePackages
  navigationOutput : ∀ s, f.navigationOutput = some s →
    a.navigationOutput = some (FilePath.ofText s)
  navigationCollapsed : ∀ b, f.navigationCollapsed = some b → a.navigationCollapsed = b

/-- Options that are the same but for those whose flags are given. -/
structure Spares (f : Flags) (a b : Options) : Prop where
  includePrivate : f.includePrivate = false → a.includePrivate = b.includePrivate
  mode : f.mode = none → a.mode = b.mode
  basePath : f.basePath = none → a.basePath = b.basePath
  packages : f.packages = none → a.workspacePackages = b.workspacePackages
  navigationOutput : f.navigationOutput = none → a.navigationOutput = b.navigationOutput
  navigationCollapsed : f.navigationCollapsed = none →
    a.navigationCollapsed = b.navigationCollapsed
  links : a.links = b.links
  noiseTraits : a.noiseTraits = b.noiseTraits

variable {f : Flags} {config : Entries} {a b : Options}

/-- A place that no flag is about shows what it showed. -/
theorem chosen?_of_none {o : Overrides} {name key : String}
    (h : o.entries.chosen? name key = none) :
    (override config o).chosen? name key = config.chosen? name key := by
  rw [Overrides.chosen?_override, h]
  rfl

theorem choice_of_none {o : Overrides} {name key : String}
    (h : o.entries.chosen? name key = none) :
    (override config o).choice name key = config.choice name key := by
  rw [Entries.choice, Entries.choice, chosen?_of_none h]

theorem truth_of_none {o : Overrides} {name key : String}
    (h : o.entries.chosen? name key = none) (default : Bool) :
    (override config o).truth name key default = config.truth name key default := by
  rw [Entries.truth, Entries.truth, chosen?_of_none h]

/-- A place that a flag is about shows what the flag says, but for a list. -/
theorem chosen?_of_scalar {o : Overrides} {name key : String} {s : Scalar}
    (h : o.entries.chosen? name key = some (.scalar s)) :
    (override config o).chosen? name key = some (.scalar s) := by
  rw [Overrides.chosen?_override, h]
  rfl

theorem choice_of_scalar {o : Overrides} {name key : String} {s : Scalar}
    (h : o.entries.chosen? name key = some (.scalar s)) :
    (override config o).choice name key = .scalar s := by
  rw [Entries.choice, chosen?_of_scalar h]
  rfl

theorem truth_of_scalar {o : Overrides} {name key : String} {s : Scalar}
    (h : o.entries.chosen? name key = some (.scalar s)) (default : Bool) :
    (override config o).truth name key default = s.isSet := by
  rw [Entries.truth, chosen?_of_scalar h]
  rfl

theorem textOr_str (s other : String) (h : s = "" → other = "") :
    (str s).textOr other = s := by
  rw [Setting.textOr]
  split
  · rfl
  · next hset =>
    have hempty : s = "" := by simpa [str, Setting.isSet, Scalar.isSet] using hset
    rw [hempty, h hempty]

theorem path?_str {s : String} (h : s ≠ "") : (str s).path? = .ok (some (FilePath.ofText s)) := by
  have hset : (str s).isSet = true := by simpa [str, Setting.isSet, Scalar.isSet] using h
  unfold Setting.path?
  rw [if_pos hset]
  rfl

/-- What a flag lists is listed, whatever was there. -/
theorem exists_list_of_merge (old : Option Setting) (ps : List String) :
    ∃ xs, Setting.mergeValue (some (.str "workspace")) (.str "packages") old
        (list (ps.map str)) = list xs ∧ ∀ p ∈ ps, p ∈ xs.map Setting.text := by
  have hmem {p : String} (hp : p ∈ ps) {ys : List Setting} :
      p ∈ (ys ++ ps.map str).map Setting.text :=
    List.mem_map.2 ⟨str p, List.mem_append_right _ (List.mem_map_of_mem hp), rfl⟩
  unfold Setting.mergeValue
  split
  · next ys =>
    rw [if_pos (by decide), Setting.unite]
    split
    · refine ⟨_, rfl, fun p hp => ?_⟩
      rw [List.map_map, List.mem_map]
      exact ⟨p, List.mem_mergeSort.2 (List.mem_eraseDups.2 (hmem hp)), rfl⟩
    · exact ⟨_, rfl, fun p hp => hmem hp⟩
  · exact ⟨_, rfl, fun p hp => @hmem p hp []⟩

theorem decides_of_reads (h : Setting.Reads (override config f.overrides) a) : f.Decides a where
  includePrivate := by
    intro hflag
    have hplace : f.overrides.entries.chosen? "output" "include_private" =
        some (Setting.bool true) := by
      rw [Overrides.chosen?_includePrivate, overrides, hflag]
      rfl
    exact h.includePrivate.trans (truth_of_scalar hplace false)
  mode := by
    intro m hflag
    have hplace : f.overrides.entries.chosen? "output" "mode" = some (str m.name) := by
      rw [Overrides.chosen?_mode, overrides, hflag]
      rfl
    have hmode := h.mode
    rw [choice_of_scalar hplace, ← str, textOr_str _ _ (by cases m <;> decide), Setting.modeOf,
      Mode.ofName?_name] at hmode
    exact (Except.ok.inj hmode).symm
  basePath := by
    intro s hflag
    have hplace : f.overrides.entries.chosen? "output" "base_path" = some (str s) := by
      rw [Overrides.chosen?_basePath, overrides, hflag]
      rfl
    rw [h.basePath, choice_of_scalar hplace]
    exact textOr_str s "" fun _ => rfl
  packages := by
    intro s hflag part hpart hsome
    have hname : Text.trim part ∈ nameList s := by
      refine List.mem_filter.2 ⟨List.mem_map_of_mem hpart, ?_⟩
      simpa using hsome
    have hne : s.isEmpty = false := by
      refine Bool.eq_false_iff.2 fun hempty => hsome ?_
      rw [String.isEmpty_iff.1 hempty] at hpart
      obtain rfl := List.mem_singleton.1 hpart
      rfl
    have hplace : f.overrides.entries.chosen? "workspace" "packages" =
        some (list ((nameList s).map str)) := by
      rw [Overrides.chosen?_packages, overrides, hflag, Option.bind_some, hne]
      rfl
    obtain ⟨xs, hxs, hmem⟩ :=
      exists_list_of_merge (config.chosen? "workspace" "packages") (nameList s)
    have htexts := h.workspacePackages
    rw [Entries.choice, Overrides.chosen?_override, hplace, Option.map_some, hxs, Option.some_or,
      Option.getD_some, Setting.texts_list] at htexts
    exact Except.ok.inj htexts ▸ hmem _ hname
  navigationOutput := by
    intro s hflag
    have hplace : f.overrides.entries.chosen? "navigation" "output" =
        some (str (FilePath.ofText s).text) := by
      rw [Overrides.chosen?_navigationOutput, overrides, hflag]
      rfl
    have hpath := h.navigationOutput
    rw [choice_of_scalar hplace, ← str, path?_str (FilePath.text_ne_empty s),
      FilePath.ofText_text] at hpath
    exact (Except.ok.inj hpath).symm
  navigationCollapsed := by
    intro b hflag
    have hplace : f.overrides.entries.chosen? "navigation" "collapsed" = some (Setting.bool b) := by
      rw [Overrides.chosen?_navigationCollapsed, overrides, hflag]
      rfl
    exact h.navigationCollapsed.trans (truth_of_scalar hplace true)

theorem spares_of_reads (ha : Setting.Reads (override config f.overrides) a)
    (hb : Setting.Reads config b) : f.Spares a b where
  includePrivate := by
    intro hflag
    have hplace : f.overrides.entries.chosen? "output" "include_private" = none := by
      rw [Overrides.chosen?_includePrivate, overrides, hflag]
      rfl
    rw [ha.includePrivate, hb.includePrivate, truth_of_none hplace]
  mode := by
    intro hflag
    have hplace : f.overrides.entries.chosen? "output" "mode" = none := by
      rw [Overrides.chosen?_mode, overrides, hflag]
      rfl
    have hmode := ha.mode
    rw [choice_of_none hplace, hb.mode] at hmode
    exact (Except.ok.inj hmode).symm
  basePath := by
    intro hflag
    have hplace : f.overrides.entries.chosen? "output" "base_path" = none := by
      rw [Overrides.chosen?_basePath, overrides, hflag]
      rfl
    rw [ha.basePath, hb.basePath, choice_of_none hplace]
  packages := by
    intro hflag
    have hplace : f.overrides.entries.chosen? "workspace" "packages" = none := by
      rw [Overrides.chosen?_packages, overrides, hflag]
      rfl
    have htexts := ha.workspacePackages
    rw [choice_of_none hplace, hb.workspacePackages] at htexts
    exact (Except.ok.inj htexts).symm
  navigationOutput := by
    intro hflag
    have hplace : f.overrides.entries.chosen? "navigation" "output" = none := by
      rw [Overrides.chosen?_navigationOutput, overrides, hflag]
      rfl
    have hpath := ha.navigationOutput
    rw [choice_of_none hplace, hb.navigationOutput] at hpath
    exact (Except.ok.inj hpath).symm
  navigationCollapsed := by
    intro hflag
    have hplace : f.overrides.entries.chosen? "navigation" "collapsed" = none := by
      rw [Overrides.chosen?_navigationCollapsed, overrides, hflag]
      rfl
    rw [ha.navigationCollapsed, hb.navigationCollapsed, truth_of_none hplace]
  links := by
    have hplace (key : String) : f.overrides.entries.chosen? "links" key = none :=
      Overrides.chosen?_of_ne (by decide) (by decide) (by decide) _ _
    exact ha.links.unique hb.links fun key => choice_of_none (hplace key)
  noiseTraits := by
    have hplace : f.overrides.entries.chosen? "noise" "traits" = none :=
      Overrides.chosen?_of_ne (by decide) (by decide) (by decide) _ _
    have htexts := ha.noiseTraits
    rw [choice_of_none hplace, hb.noiseTraits] at htexts
    exact (Except.ok.inj htexts).symm

/-- Whatever the user's file holds, flags decide their options and no others. -/
theorem decides_and_spares {user : Entries} {f : Flags} {hash : String} {a : Options}
    (ha : (Setting.mapping (override (ofEntries user) f.overrides)).options hash = .ok a) :
    f.Decides a ∧ ∀ hash' b, (Setting.mapping (ofEntries user)).options hash' = .ok b →
      f.Spares a b :=
  have hreads := (Setting.reads_of_options ha).1
  ⟨decides_of_reads hreads, fun _ _ hb =>
    spares_of_reads hreads (Setting.reads_of_options hb).1⟩

/-- A file with another base path, a text for its packages, and two sections that hold
nothing. -/
def mixedUser : Entries :=
  [(.str "output", record [("mode", .null), ("base_path", str "/old")]),
   (.str "workspace", record [("packages", str "b")]),
   (.str "navigation", .null), (.str "links", .null)]

/-- Flags that empty the base path, name packages and place the navigation. -/
def mixedFlags : Flags where
  basePath := some ""
  packages := some " a,, c"
  navigationOutput := some "nav/./bar.js"

/-- Flags over a configuration that nulls two sections: what they set is decided, the rest spared.
-/
theorem decides_and_spares_mixed :
    ∃ a, (Setting.mapping (override (ofEntries mixedUser) mixedFlags.overrides)).options "" =
        .ok a ∧
      mixedFlags.Decides a ∧
        ∀ hash' b, (Setting.mapping (ofEntries mixedUser)).options hash' = .ok b →
          mixedFlags.Spares a b := by
  have ha : (Setting.mapping (override (ofEntries mixedUser) mixedFlags.overrides)).options "" =
      .ok { workspacePackages := ["a", "c"],
            navigationOutput := some ⟨"", ["nav", "bar.js"]⟩ } := by
    rfl
  exact ⟨_, ha, decides_and_spares ha⟩

end CommandLine.Flags

end CrateBook
