import CrateBook.Proofs.Decimals
import CrateBook.Proofs.Drawings
import CrateBook.Proofs.Marks

/-!
# Generic parameters that are written

A formatter leaves out the generic parameters that it writes as nothing, the rules those that the
compiler made up. These are the same, since every other parameter starts with a word.
-/
namespace CrateBook

namespace Value

theorem literal_ne_empty (v : Value) : v.literal ≠ "" := by
  cases v with
  | null => decide
  | bool b => cases b <;> decide
  | int n =>
    rw [literal]
    cases n with
    | ofNat n => exact Nat.repr_ne_empty
    | negSucc n => simp [toString, Int.repr]
  | float x => exact Decimal.text_ne_empty (by decide) (by decide) x
  | str s => simp [literal, Text.quoted]
  | list xs => simp [literal]
  | object ms => simp [literal]

theorem textOr_ne_empty {other : String} (hother : other ≠ "") (v : Value) :
    v.textOr other ≠ "" := by
  unfold textOr
  split
  · rename_i hset
    cases v with
    | str s => simpa [isSet, text] using hset
    | _ => exact literal_ne_empty _
  · exact hother

end Value

namespace Noting

variable {α β : Type} {P : β → Prop}

/-- What a step gives is of a kind, if it gives anything. -/
def Gives (P : β → Prop) (x : Noting β) : Prop := ∀ b, x.result = .ok b → P b

theorem gives_pure {b : β} (h : P b) : Gives P (pure b) := by
  intro c hc
  cases hc
  exact h

theorem gives_bind {x : Noting α} {f : α → Noting β}
    (h : ∀ a, x.result = .ok a → Gives P (f a)) : Gives P (x >>= f) := by
  intro b hb
  obtain ⟨a, ha, hb⟩ := bind_eq_ok.1 hb
  exact h a ha b hb

theorem gives_mapM {f : α → Noting β} (h : ∀ a, Gives P (f a)) (as : List α) :
    Gives (fun bs => ∀ b ∈ bs, P b) (as.mapM f) := by
  induction as with
  | nil => exact gives_pure (by simp)
  | cons a as ih =>
    rw [List.mapM_cons]
    refine gives_bind fun b hb => gives_bind fun bs hbs => gives_pure ?_
    exact List.forall_mem_cons.2 ⟨h a b hb, ih bs hbs⟩

theorem Maps.bind_gives {γ δ : Type} {f : β → α} {g : δ → γ} {x : Noting α} {y : Noting β}
    {u : α → Noting γ} {w : β → Noting δ} (hxy : Maps f x y) (hy : Gives P y)
    (hu : ∀ b, P b → Maps g (u (f b)) (w b)) : Maps g (x >>= u) (y >>= w) := by
  rw [Maps] at hxy ⊢
  rw [hxy, map_bind, bind_map_left]
  cases hb : y.result with
  | error e => rw [bind_error hb, bind_error hb]
  | ok b => rw [bind_ok hb, bind_ok hb, hu b (hy b hb)]

end Noting

open Noting (Maps maps_pure maps_read maps_lift maps_mapM Gives gives_pure gives_bind gives_mapM)

open Segment (lit)

namespace Segment

/-- A row that starts with a word. -/
def Worded (row : List Segment) : Prop := ∃ s rest, s ≠ "" ∧ row = lit s ++ rest

theorem worded_lit {s : String} (h : s ≠ "") : Worded (lit s) := ⟨s, [], h, by simp⟩

theorem Worded.append {row : List Segment} (h : Worded row) (more : List Segment) :
    Worded (row ++ more) := by
  obtain ⟨s, rest, hs, rfl⟩ := h
  exact ⟨s, rest ++ more, hs, List.append_assoc _ _ _⟩

end Segment

open Segment (Worded worded_lit)

namespace TypeText

variable {t : TypeText}

theorem worded_lifetimeParam {name : String} {kind : Value} {row : List Segment}
    (hname : name ≠ "") (h : lifetimeParam name kind = .ok row) : Worded row := by
  unfold lifetimeParam at h
  obtain ⟨lifetime, -, h⟩ := Except.bind_eq_ok.1 h
  obtain ⟨part, -, h⟩ := Except.bind_eq_ok.1 h
  obtain ⟨outlives, -, h⟩ := Except.bind_eq_ok.1 h
  split at h
  · cases h
    exact worded_lit hname
  · obtain ⟨shown, -, h⟩ := Except.bind_eq_ok.1 h
    cases h
    exact worded_lit (by simp)

theorem worded_typeParam {name : String} (hname : name ≠ "") (body : Value) :
    Gives Worded (t.typeParam name body) := by
  have hrow (bounded defaulted : List Segment) : Worded (lit name ++ bounded ++ defaulted) :=
    ((worded_lit hname).append _).append _
  unfold typeParam
  repeat' with_reducible first
    | exact gives_pure (hrow _ _)
    | refine gives_bind fun _ _ => ?_
    | split

theorem worded_constParam (name : String) (body : Value) :
    Gives Worded (t.constParam name body) := by
  unfold constParam
  refine gives_bind fun part _ => gives_bind fun type _ => gives_bind fun default _ => ?_
  exact gives_pure (((worded_lit (by simp)).append _).append _)

/-- A parameter that is shown starts with a word: its name, or `const`. -/
theorem worded_genericParam (p : Value) :
    Gives (fun shown => ∀ row, shown = some row → Worded row) (t.genericParam p) := by
  have hnone : Gives (fun shown => ∀ row, shown = some row → Worded row)
      (pure none : Noting (Option (List Segment))) := gives_pure nofun
  have hsome {row : List Segment} (h : Worded row) :
      Gives (fun shown => ∀ row, shown = some row → Worded row) (pure (some row)) := by
    refine gives_pure fun row' hrow => ?_
    cases hrow
    exact h
  unfold genericParam
  cases p with
  | object ms =>
    have hname : ((ms.lookup "name").getD .null).textOr "_" ≠ "" :=
      Value.textOr_ne_empty (by decide) _
    refine gives_bind fun isLifetime _ => ?_
    split
    · split
      · exact hnone
      · exact gives_bind fun row hrow => hsome (worded_lifetimeParam hname hrow)
    refine gives_bind fun isType _ => ?_
    split
    · refine gives_bind fun body _ => gives_bind fun isSynthetic _ => ?_
      split
      · exact hnone
      · exact gives_bind fun row hrow => hsome (worded_typeParam hname _ row hrow)
    refine gives_bind fun isConst _ => ?_
    split
    · refine gives_bind fun body _ => gives_bind fun row hrow => ?_
      exact hsome (worded_constParam _ _ row hrow)
    · exact hsome (worded_lit hname)
  | _ => exact hnone

end TypeText

namespace Formatter.Draws

variable {F : Formatter} {t : TypeText} {f : List Segment → String} {fuel : Nat}

theorem ne_empty (d : F.Draws t f) {row : List Segment} (h : Worded row) : f row ≠ "" := by
  obtain ⟨s, rest, hs, rfl⟩ := h
  rw [d.append, d.lit]
  intro hempty
  exact d.text_ne s hs (String.append_eq_empty_iff.1 hempty).1

/-- A type with enough fuel, as it is asked for from outside. -/
theorem type (d : F.Draws t f) {v : Value} (depth : Nat) (hfuel : TypeText.fuelFor v ≤ fuel) :
    Maps f (F.typeAt fuel depth v) (t.typeAt (TypeText.fuelFor v) depth v) :=
  (d.agrees _ _).type _ _ (Nat.le_min.2 ⟨hfuel, Nat.le_refl _⟩)

/-- A path with enough fuel, as it is asked for from outside. -/
theorem path (d : F.Draws t f) {v : Value} (depth : Nat) (hfuel : TypeText.fuelFor v ≤ fuel) :
    Maps f (F.pathAt fuel depth v) (t.pathAt (TypeText.fuelFor v) depth v) :=
  (d.agrees _ _).path _ _ (Nat.le_of_succ_le (Nat.le_min.2 ⟨hfuel, Nat.le_refl _⟩))

/-- Bounds with enough fuel, as they are asked for from outside. -/
theorem bounds (d : F.Draws t f) {v : Value} (depth : Nat) (hfuel : TypeText.fuelFor v ≤ fuel) :
    Maps f (F.boundsAt fuel depth v) (t.boundsAt (TypeText.fuelFor v) depth v) :=
  (d.agrees _ _).bounds _ _ (Nat.le_min.2 ⟨hfuel, Nat.le_refl _⟩)

/-- A bound with enough fuel, as it is asked for from outside. -/
theorem bound (d : F.Draws t f) {v : Value} (depth : Nat) (hfuel : TypeText.fuelFor v ≤ fuel) :
    Maps f (F.boundAt fuel depth v) (t.boundAt (TypeText.fuelFor v) depth v) :=
  (d.agrees _ _).bound _ _ (Nat.le_of_succ_le (Nat.le_min.2 ⟨hfuel, Nat.le_refl _⟩))

theorem lifetimeParam (d : F.Draws t f) (name : String) (kind : Value) :
    F.lifetimeParam name kind = f <$> TypeText.lifetimeParam name kind := by
  unfold Formatter.lifetimeParam TypeText.lifetimeParam
  simp only [map_bind]
  refine bind_congr fun lifetime => bind_congr fun part => bind_congr fun outlives => ?_
  split <;> simp [d.lit]

theorem typeParam (d : F.Draws t f) (name : String) (body : Value)
    (hfuel : 4 * body.height ≤ fuel) :
    Maps f (F.typeParam fuel name body) (t.typeParam name body) := by
  have hpart {k : String} {v : Value} (h : body.field k = .ok v) : TypeText.fuelFor v ≤ fuel := by
    have := Value.height_field h
    unfold TypeText.fuelFor
    omega
  unfold Formatter.typeParam TypeText.typeParam
  refine maps_read fun bounds hbounds => ?_
  dsimp only
  split
  · refine (d.bounds 0 (hpart hbounds)).bind fun boundRow => ?_
    simp only [pure_bind]
    refine maps_read fun default hdefault => ?_
    split
    · exact maps_pure (by simp only [d.append, d.lit, d.nil])
    · refine (d.type 0 (hpart hdefault)).bind fun defaultRow => ?_
      exact maps_pure (by simp only [d.append, d.lit])
  · simp only [pure_bind]
    refine maps_read fun default hdefault => ?_
    split
    · exact maps_pure (by simp only [d.append, d.lit, d.nil])
    · refine (d.type 0 (hpart hdefault)).bind fun defaultRow => ?_
      exact maps_pure (by simp only [d.append, d.lit, d.nil])

theorem constParam (d : F.Draws t f) (name : String) (body : Value)
    (hfuel : 4 * body.height ≤ fuel) :
    Maps f (F.constParam fuel name body) (t.constParam name body) := by
  unfold Formatter.constParam TypeText.constParam
  refine maps_read fun type htype => ?_
  have := Value.height_field htype
  refine (d.type 0 (by unfold TypeText.fuelFor; omega)).bind fun typeRow => ?_
  refine maps_read fun default _ => ?_
  exact maps_pure (by simp only [d.append, d.lit, d.ite_lit])

/-- A parameter is written as nothing where it is not shown. -/
theorem genericParam (d : F.Draws t f) {p : Value} (hfuel : TypeText.fuelFor p ≤ fuel) :
    Maps (fun shown => (shown.map f).getD "") (F.genericParam fuel p) (t.genericParam p) := by
  unfold Formatter.genericParam TypeText.genericParam
  cases p with
  | object ms =>
    have hpart := Value.height_part ms "kind"
    have hkind := Value.height_orObject ((ms.lookup "kind").getD .null)
    unfold TypeText.fuelFor at hfuel
    dsimp only
    refine maps_read fun isLifetime _ => ?_
    split
    · split
      · exact maps_pure rfl
      · refine Maps.bind_pure (k := some) ?_
        exact maps_lift (d.lifetimeParam _ _)
    refine maps_read fun isType _ => ?_
    split
    · refine maps_read fun body hbody => maps_read fun isSynthetic _ => ?_
      have := Value.height_member hbody
      have := Value.height_orObject body
      split
      · exact maps_pure rfl
      · refine Maps.bind_pure (k := some) ?_
        exact d.typeParam _ body.orObject (by omega)
    refine maps_read fun isConst _ => ?_
    split
    · refine maps_read fun body hbody => ?_
      have := Value.height_member hbody
      have := Value.height_orObject body
      refine Maps.bind_pure (k := some) ?_
      exact d.constParam _ body.orObject (by omega)
    · exact maps_pure (d.lit _)
  | _ => exact maps_pure rfl

/-- Leaving out what is written as nothing leaves out what is not shown. -/
theorem filter_written (d : F.Draws t f) {params : List (Option (List Segment))}
    (h : ∀ shown ∈ params, ∀ row, shown = some row → Worded row) :
    (params.map fun shown => (shown.map f).getD "").filter (fun s => !s.isEmpty) =
      (params.filterMap id).map f := by
  induction params with
  | nil => rfl
  | cons shown params ih =>
    have hrest := ih fun s hs => h s (List.mem_cons_of_mem shown hs)
    cases shown with
    | none => simpa using hrest
    | some row =>
      have hne := d.ne_empty (h _ List.mem_cons_self row rfl)
      simpa [hne] using hrest

theorem genericParams (d : F.Draws t f) {params : List Value}
    (hfuel : 4 * Value.heights params + 4 ≤ fuel) :
    Maps f (F.genericParams fuel params) (t.genericParams params) := by
  have hwritten : Maps (List.map fun shown => (shown.map f).getD "")
      (params.mapM (F.genericParam fuel)) (params.mapM t.genericParam) := by
    refine maps_mapM fun p hp => d.genericParam ?_
    have := Value.height_le_heights hp
    unfold TypeText.fuelFor
    omega
  unfold Formatter.genericParams TypeText.genericParams
  refine hwritten.bind_gives (gives_mapM TypeText.worded_genericParam params) fun shown hshown => ?_
  rw [d.filter_written hshown]
  dsimp only
  cases shown.filterMap id with
  | nil => exact maps_pure d.nil
  | cons row rows => exact maps_pure (by simp only [d.append, d.lit, d.joined])

/-- With enough fuel for a piece, a formatter writes its row. -/
theorem write (d : F.Draws t f) {piece : Piece} (hfuel : piece.fuel ≤ fuel) :
    Maps f (F.write fuel piece) (t.row piece) := by
  cases piece with
  | type depth v => exact d.type depth hfuel
  | path depth v => exact d.path depth hfuel
  | bounds depth v => exact d.bounds depth hfuel
  | bound depth v => exact d.bound depth hfuel
  | params ps => exact d.genericParams hfuel
  | param p =>
    refine Maps.bind_pure (k := fun shown : Option (List Segment) => shown.getD []) ?_
    have hsame : (fun shown : Option (List Segment) => f (shown.getD [])) =
        fun shown => (shown.map f).getD "" := by
      funext shown
      cases shown with
      | none => exact d.nil
      | some row => rfl
    rw [hsame]
    exact d.genericParam hfuel

end Formatter.Draws

end CrateBook
