import CrateBook.Fault
import CrateBook.Link
import CrateBook.Placement

/-!
# Notes of a rendering step

A rendering step may fail, and it leaves notes on what it met: references it asked for,
types whose blocks it looked at, links it wrote, kinds it could not read, and which items,
members and list entries it put on a page. The notes before a failure stay. A step never
reads notes; of the steps before it, it sees what a site remembers of them.
-/
namespace CrateBook

/-- Something that a rendering step met. -/
inductive Note where
  /-- A reference to an id was looked up under a title. -/
  | asked (id : Id) (title : String)
  /-- The implementation blocks for a type were looked up. -/
  | classified (typeId : Id)
  /-- A type or path was written with a link. -/
  | linked (link : Link)
  /-- An item of an unknown kind was met. -/
  | unsupported (id : Id) (tag : String)
  /-- The section of an item was written, behind an anchor or none. -/
  | section_ (id : Id) (anchor : Option String)
  /-- A member was written, with the anchor that leads to it. -/
  | member (id : Id) (anchor : String)
  /-- A placement was listed with the address that its item has elsewhere. -/
  | entry (p : Placement) (href : Option String)
deriving DecidableEq, Repr

/-- The link of a note that a link was written. -/
def Note.link? : Note → Option Link
  | linked l => some l
  | _ => none

/-- A step with a result and the notes it left. -/
structure Noting (α : Type) where
  result : Checked α
  notes : List Note

namespace Noting

variable {α β : Type}

/-- One step after another; a failure is the last step. -/
def bind (x : Noting α) (f : α → Noting β) : Noting β :=
  match x.result with
  | .ok a => ⟨(f a).result, x.notes ++ (f a).notes⟩
  | .error e => ⟨.error e, x.notes⟩

instance : Monad Noting where
  pure a := ⟨.ok a, []⟩
  bind := bind

instance : MonadLift Checked Noting where
  monadLift x := ⟨x, []⟩

def note (n : Note) : Noting Unit := ⟨.ok (), [n]⟩

def noteAll (ns : List Note) : Noting Unit := ⟨.ok (), ns⟩

def fail (f : Fault) : Noting α := ⟨.error f, []⟩

/-- A step together with the links it wrote. -/
def withLinks (x : Noting α) : Noting (α × List Link) :=
  ⟨x.result.map fun a => (a, x.notes.filterMap Note.link?), x.notes⟩

@[simp] theorem result_pure (a : α) : (pure a : Noting α).result = .ok a := rfl

@[simp] theorem notes_pure (a : α) : (pure a : Noting α).notes = [] := rfl

@[simp] theorem result_note (n : Note) : (note n).result = .ok () := rfl

@[simp] theorem notes_note (n : Note) : (note n).notes = [n] := rfl

theorem bind_ok {x : Noting α} {a : α} (h : x.result = .ok a) (f : α → Noting β) :
    x >>= f = ⟨(f a).result, x.notes ++ (f a).notes⟩ := by
  change bind x f = _
  simp [bind, h]

theorem bind_error {x : Noting α} {e : Fault} (h : x.result = .error e) (f : α → Noting β) :
    x >>= f = ⟨.error e, x.notes⟩ := by
  change bind x f = _
  simp [bind, h]

theorem map_id (x : Noting α) : id <$> x = x := by
  obtain ⟨_ | a, ns⟩ := x <;> simp [Functor.map, bind]

theorem pure_bind_eq (a : α) (f : α → Noting β) : (pure a : Noting α) >>= f = f a :=
  (bind_ok rfl f).trans (by simp)

theorem bind_assoc_eq {γ : Type} (x : Noting α) (f : α → Noting β) (g : β → Noting γ) :
    x >>= f >>= g = x >>= fun a => f a >>= g := by
  obtain ⟨r, ns⟩ := x
  cases r with
  | error e => rfl
  | ok a =>
    rw [bind_ok rfl f, bind_ok (x := ⟨.ok a, ns⟩) rfl]
    cases h : (f a).result with
    | error e => rw [bind_error h, bind_error rfl]
    | ok b => rw [bind_ok h, bind_ok rfl]; simp [List.append_assoc]

instance : LawfulMonad Noting := LawfulMonad.mk' Noting map_id pure_bind_eq bind_assoc_eq

end Noting

end CrateBook
