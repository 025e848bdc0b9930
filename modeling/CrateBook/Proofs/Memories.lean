import CrateBook.Proofs.Agreement

/-!
# Sound memories

A memory is sound if all that it holds is what the site works out afresh: a target is the
one of its id under some title, a group is the one of its type. The title of a remembered
target is that of whoever asked first. Its kind and its address are those of the id, so a
site with a sound memory gives the same addresses and the same blocks as one that remembers
nothing.
-/
namespace CrateBook.Site

variable {s : Site}

/-- The site remembers only what it would work out. -/
structure Sound (s : Site) : Prop where
  targets : ∀ id t, s.memory.targets.get? id = some t → ∃ title, t = s.resolve id title
  groups : ∀ typeId g, s.memory.groups.get? typeId = some g →
    g = s.source.classify s.options.noiseTraits typeId

/-- A site that remembers nothing is sound. -/
theorem sound_of_memory_eq (h : s.memory = {}) : s.Sound where
  targets id t ht := by
    rw [h] at ht
    cases ht
  groups typeId g hg := by
    rw [h] at hg
    cases hg

theorem sound_recalling_empty (s : Site) : (s.recalling {}).Sound := sound_of_memory_eq rfl

/-- Where an id leads does not depend on the title under which it is asked for. -/
theorem kind_resolve (id : Id) (title title' : String) :
    (s.resolve id title).kind = (s.resolve id title').kind := by
  unfold resolve
  cases s.locate id <;> rfl

theorem href?_resolve (id : Id) (title title' : String) :
    (s.resolve id title).href? = (s.resolve id title').href? := by
  unfold resolve
  cases s.locate id <;> rfl

theorem locate_recalling (m : Memory) (id : Id) : (s.recalling m).locate id = s.locate id :=
  congrFun (s.samePlan_recalling m).locate id

/-- What a site works out does not depend on what it remembers. -/
theorem resolve_recalling (m : Memory) (id : Id) (title : String) :
    (s.recalling m).resolve id title = s.resolve id title := by
  rw [(s.samePlan_recalling m).resolve]

namespace Sound

variable (h : s.Sound)

include h

theorem exists_targetOf (id : Id) (title : String) :
    ∃ first, s.targetOf id title = s.resolve id first := by
  unfold targetOf
  cases ht : s.memory.targets.get? id with
  | none => exact ⟨title, rfl⟩
  | some t => exact h.targets id t ht

theorem kind_targetOf (id : Id) (title title' : String) :
    (s.targetOf id title).kind = (s.resolve id title').kind := by
  obtain ⟨first, hfirst⟩ := h.exists_targetOf id title
  rw [hfirst]
  exact kind_resolve id first title'

theorem href?_targetOf (id : Id) (title title' : String) :
    (s.targetOf id title).href? = (s.resolve id title').href? := by
  obtain ⟨first, hfirst⟩ := h.exists_targetOf id title
  rw [hfirst]
  exact href?_resolve id first title'

theorem hrefOf_eq (id : Id) : s.hrefOf id = (s.resolve id "").href? := h.href?_targetOf id "" ""

theorem implsOf_eq (typeId : Id) :
    s.implsOf typeId = s.source.classify s.options.noiseTraits typeId := by
  unfold implsOf
  cases hg : s.memory.groups.get? typeId with
  | none => rfl
  | some g => exact h.groups typeId g hg

/-- Addresses and blocks are those of a site that remembers nothing. -/
theorem hrefOf_recalling : (s.recalling {}).hrefOf = s.hrefOf := by
  funext id
  rw [h.hrefOf_eq, (sound_recalling_empty s).hrefOf_eq, resolve_recalling]

theorem implsOf_recalling : (s.recalling {}).implsOf = s.implsOf := by
  funext typeId
  rw [h.implsOf_eq, (sound_recalling_empty s).implsOf_eq, source_recalling, options_recalling]

end Sound

end CrateBook.Site
