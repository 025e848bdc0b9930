import CrateBook.Proofs.Coverage

/-!
# Internal links lead to pages

There are three ways to an address within the package: the place of an item, the place of a
member below the item that shows it, and the page of a module. Each of them names a planned
file, and each planned file is written.
-/
namespace CrateBook.Site

variable {s : Site}

/-- The address leads to a planned file, or to a fragment of one. -/
def IsPageLink (s : Site) (href : String) : Prop :=
  ∃ plan ∈ s.layout.files, href = s.layout.urlOf plan ∨
    ∃ fragment, href = s.layout.urlOf plan ++ "#" ++ fragment

/-- What is promised about the internal links of a site. -/
structure LeadsToPages (s : Site) : Prop where
  located : ∀ id title href, s.locate id = .target (.link .internal title href) →
    s.IsPageLink href
  modules : ∀ n href, s.moduleLink n = some href → s.IsPageLink href
  /-- A run to the end writes each planned file once, at its path. -/
  written : ∀ ds, s.documents.result = .ok ds →
    ds.map (·.plan) = s.layout.files ∧ ds.map Document.path = s.layout.files.map (·.path)
  /-- Runs come to their end unless a declaration cannot be written. -/
  ends : s.Writable → ∃ ds, s.documents.result = .ok ds

/-- What belongs to another package is never internal. -/
theorem externalTarget_ne_internal (x : Summary) (title href : String) :
    s.externalTarget x ≠ .link .internal title href := by
  unfold externalTarget
  repeat' split
  all_goals simp

namespace Planned

variable (h : s.Planned)

include h

theorem isPageLink_of_hrefFor {id : Id} {href : String}
    (hhref : s.layout.hrefFor id = some href) : s.IsPageLink href := by
  obtain ⟨plan, hplan, rfl⟩ := Option.map_eq_some_iff.1 hhref
  refine ⟨plan, h.mem_files_of_fileFor hplan, ?_⟩
  split
  · next a _ =>
    split
    · exact .inl rfl
    · exact .inr ⟨a, rfl⟩
  · exact .inl rfl

theorem isPageLink_of_memberTarget {id : Id} {title href : String}
    (htarget : s.memberTarget id = some (.link .internal title href)) : s.IsPageLink href := by
  obtain ⟨⟨chain, owner⟩, -, htarget⟩ := Option.bind_eq_some_iff.1 htarget
  dsimp only at htarget
  split at htarget
  · obtain ⟨plan, hplan, htarget⟩ := Option.bind_eq_some_iff.1 htarget
    cases htarget
    exact ⟨plan, h.mem_files_of_fileFor hplan, .inr ⟨_, rfl⟩⟩
  · cases htarget

theorem isPageLink_of_locate {id : Id} {title href : String}
    (hid : s.locate id = .target (.link .internal title href)) : s.IsPageLink href := by
  unfold locate at hid
  split at hid
  · split at hid
    · next hhref =>
      cases hid
      exact h.isPageLink_of_hrefFor hhref
    · cases hmember : s.memberTarget id with
      | none =>
        rw [hmember] at hid
        cases hid
      | some t =>
        rw [hmember] at hid
        cases hid
        exact h.isPageLink_of_memberTarget hmember
  · split at hid
    · next e _ =>
      exact absurd (Destination.target.inj hid) (externalTarget_ne_internal e title href)
    · cases hid

theorem isPageLink_of_moduleLink {n : Node} {href : String}
    (hlink : s.moduleLink n = some href) : s.IsPageLink href := by
  unfold moduleLink at hlink
  split at hlink
  · next plan hplan =>
    cases hlink
    exact ⟨plan, (h.mem_files_of_fileAt hplan).1, .inl rfl⟩
  · split at hlink
    · exact h.isPageLink_of_hrefFor hlink
    · cases hlink

end Planned

/-- No internal link of a site leads to a page that is not written. -/
theorem leadsToPages_of_plan {x : Export} {o : Options} (h : Site.plan x o = .ok s) :
    s.source = x ∧ s.options = o ∧ s.LeadsToPages := by
  obtain ⟨hsource, hoptions, hplanned⟩ := planned_of_plan h
  refine ⟨hsource, hoptions, ?_⟩
  exact {
    located := fun id title href hid => hplanned.isPageLink_of_locate hid
    modules := fun n href hlink => hplanned.isPageLink_of_moduleLink hlink
    written := by
      intro ds hds
      have hplans := plans_of_documents hds
      refine ⟨hplans, ?_⟩
      rw [← hplans, List.map_map]
      rfl
    ends := hplanned.leaves_documents.ends }

/-- All pages of a small crate are written, also where it is one page. -/
theorem leadsToPages_of_plan_small : ∃ s, Site.plan smallExport { mode := .single } = .ok s ∧
    s.LeadsToPages ∧ ∃ ds, s.documents.result = .ok ds := by
  obtain ⟨s, hs⟩ := exists_plan_smallExport { mode := .single }
  obtain ⟨hsource, -, hleads⟩ := leadsToPages_of_plan hs
  exact ⟨s, hs, hleads, hleads.ends (writable_smallExport hsource)⟩

end CrateBook.Site
