import CrateBook.Proofs.DirectText
import CrateBook.Proofs.Heights

/-!
# Formatters follow the rules for rows

Each rule for types makes a row out of the rows of its parts. Where rows have a written form
that goes along with putting rows together, a formatter that writes literal texts and names in
that form writes what the rule makes, and leaves its notes. The rules call each other, so one
bundle carries all of them, and both sides spend fuel: as much as the height of a value asks for
is enough, and more changes nothing.
-/
namespace CrateBook

namespace Noting

variable {α β γ δ : Type} {f : β → α} {g : δ → γ}

/-- A step that does as another one, with the result turned into something else: it leaves the
same notes, and it fails where the other one does. -/
def Maps (f : β → α) (x : Noting α) (y : Noting β) : Prop := x = f <$> y

/-- Both steps leave the same notes. -/
theorem Maps.notes {x : Noting α} {y : Noting β} (h : Maps f x y) : x.notes = y.notes := by
  subst h
  obtain ⟨_ | b, ns⟩ := y
  · rfl
  · exact List.append_nil ns

/-- The results of the steps differ by what turns the one into the other. -/
theorem Maps.result {x : Noting α} {y : Noting β} (h : Maps f x y) :
    x.result = y.result.map f := by
  subst h
  obtain ⟨_ | b, ns⟩ := y <;> rfl

theorem maps_pure {a : α} {b : β} (h : f b = a) : Maps f (pure a) (pure b) := by
  rw [Maps, map_pure, h]

/-- Steps that correspond one by one correspond as a sequence. -/
theorem Maps.bind {x : Noting α} {y : Noting β} {u : α → Noting γ} {w : β → Noting δ}
    (hxy : Maps f x y) (hu : ∀ b, Maps g (u (f b)) (w b)) : Maps g (x >>= u) (y >>= w) := by
  rw [Maps] at hxy ⊢
  rw [hxy, map_bind, bind_map_left]
  exact bind_congr hu

/-- Both steps read the same value. -/
theorem maps_read {c : Checked β} {u : β → Noting γ} {w : β → Noting δ}
    (h : ∀ b, c = .ok b → Maps g (u b) (w b)) :
    Maps g ((liftM c : Noting β) >>= u) ((liftM c : Noting β) >>= w) := by
  cases c with
  | error e => rfl
  | ok b => exact h b rfl

theorem Maps.bind_pure {x : Noting α} {y : Noting β} {k : β → δ} {g : δ → α}
    (h : Maps (fun b => g (k b)) x y) : Maps g x (y >>= fun b => pure (k b)) := by
  rw [Maps] at h ⊢
  rw [h, map_bind, map_eq_pure_bind]
  exact bind_congr fun b => (map_pure g (k b)).symm

theorem maps_id (x : Noting α) : Maps id x x := (id_map x).symm

theorem maps_lift {c : Checked α} {d : Checked β} (h : c = f <$> d) :
    Maps f (liftM c : Noting α) (liftM d : Noting β) := by
  subst h
  cases d <;> rfl

theorem maps_mapM {as : List γ} {u : γ → Noting α} {w : γ → Noting β}
    (h : ∀ a ∈ as, Maps f (u a) (w a)) : Maps (List.map f) (as.mapM u) (as.mapM w) := by
  induction as with
  | nil => exact maps_pure rfl
  | cons a as ih =>
    rw [List.mapM_cons, List.mapM_cons]
    refine (h a List.mem_cons_self).bind fun b => ?_
    exact (ih fun c hc => h c (List.mem_cons_of_mem a hc)).bind fun bs => maps_pure rfl

end Noting

open Noting (Maps maps_pure maps_read maps_lift maps_mapM)

open Segment (lit joined)

/-- Rows have a written form that is put together from those of their parts, and a formatter
writes literal texts and names in that form. -/
structure Formatter.Draws (F : Formatter) (t : TypeText) (f : List Segment → String) : Prop where
  nil : f [] = ""
  append : ∀ r s, f (r ++ s) = f r ++ f s
  lit : ∀ s, f (lit s) = F.text s
  text_ne : ∀ s, s ≠ "" → F.text s ≠ ""
  name : ∀ id s, Maps f (F.name id s) (t.name id s)
  maxDepth : F.maxDepth = t.maxDepth

namespace Formatter.Draws

variable {F : Formatter} {t : TypeText} {f : List Segment → String}

/-- Rows put together by a separator are their written forms put together. -/
theorem joined (d : F.Draws t f) (sep : String) (rows : List (List Segment)) :
    f (Segment.joined sep rows) = F.join sep (rows.map f) := by
  induction rows with
  | nil => exact d.nil
  | cons r rows ih =>
    cases rows with
    | nil => simp [Segment.joined, join]
    | cons s rows =>
      rw [Segment.joined, d.append, d.append, d.lit, ih]
      · simp [join, String.intercalate_cons_of_ne_nil]
      · simp

/-- The written form of a literal text that may be left out. -/
theorem ite_lit (d : F.Draws t f) (b : Bool) (s : String) :
    f (if b = true then Segment.lit s else []) = if b = true then F.text s else "" := by
  cases b with
  | false => exact d.nil
  | true => exact d.lit s

/-- The written form of a last part that may be left out. -/
theorem map_append_ite (d : F.Draws t f) (rows : List (List Segment)) (b : Bool) (s : String) :
    (rows ++ if b = true then [Segment.lit s] else []).map f =
      rows.map f ++ if b = true then [F.text s] else [] := by
  cases b <;> simp [d.lit]

theorem binder (d : F.Draws t f) (params : Value) :
    F.binder params = f <$> TypeText.binder params := by
  unfold Formatter.binder TypeText.binder
  simp only [map_bind]
  refine bind_congr fun ps => bind_congr fun lifetimes => bind_congr fun names => ?_
  split <;> simp [d.nil, d.lit]

theorem pointerAbi (d : F.Draws t f) (abi : Value) :
    F.pointerAbi abi = f <$> TypeText.pointerAbi abi := by
  unfold Formatter.pointerAbi TypeText.pointerAbi
  by_cases hset : abi.isSet
  · simp only [hset, Bool.not_true, Bool.false_eq_true, if_false]
    cases abi with
    | str s =>
      by_cases hrust : s = "Rust"
      · subst hrust
        exact congrArg Except.ok d.nil.symm
      · simp [d.lit]
    | _ => simp [d.lit]
  · simp [hset, d.nil]

/-- Where both sides have enough fuel, a formatter writes what the rules make. A rule asks for
four steps for each level of nesting, and for a few more to start with. -/
structure Agrees (F : Formatter) (t : TypeText) (f : List Segment → String) (fuel fuel' : Nat) :
    Prop where
  type : ∀ depth v, 4 * v.height + 4 ≤ min fuel fuel' →
    Maps f (F.typeAt fuel depth v) (t.typeAt fuel' depth v)
  types : ∀ depth vs, 4 * Value.heights vs + 5 ≤ min fuel fuel' →
    Maps (List.map f) (F.typesAt fuel depth vs) (t.typesAt fuel' depth vs)
  path : ∀ depth v, 4 * v.height + 3 ≤ min fuel fuel' →
    Maps f (F.pathAt fuel depth v) (t.pathAt fuel' depth v)
  args : ∀ depth v, 4 * v.height + 4 ≤ min fuel fuel' →
    Maps f (F.argsAt fuel depth v) (t.argsAt fuel' depth v)
  arg : ∀ depth v, 4 * v.height + 4 ≤ min fuel fuel' →
    Maps f (F.argAt fuel depth v) (t.argAt fuel' depth v)
  constraint : ∀ depth v, 4 * v.height + 4 ≤ min fuel fuel' →
    Maps f (F.constraintAt fuel depth v) (t.constraintAt fuel' depth v)
  bounds : ∀ depth v, 4 * v.height + 4 ≤ min fuel fuel' →
    Maps f (F.boundsAt fuel depth v) (t.boundsAt fuel' depth v)
  bound : ∀ depth v, 4 * v.height + 3 ≤ min fuel fuel' →
    Maps f (F.boundAt fuel depth v) (t.boundAt fuel' depth v)
  poly : ∀ depth v, 4 * v.height + 4 ≤ min fuel fuel' →
    Maps f (F.polyTrait fuel depth v) (t.polyTrait fuel' depth v)
  dyn : ∀ depth v, 4 * v.height + 3 ≤ min fuel fuel' →
    Maps f (F.dynTrait fuel depth v) (t.dynTrait fuel' depth v)
  pointer : ∀ depth v, 4 * v.height + 3 ≤ min fuel fuel' →
    Maps f (F.functionPointer fuel depth v) (t.functionPointer fuel' depth v)
  qualified : ∀ depth v, 4 * v.height + 3 ≤ min fuel fuel' →
    Maps f (F.qualifiedPath fuel depth v) (t.qualifiedPath fuel' depth v)

variable {fuel fuel' : Nat}

theorem path_succ (d : F.Draws t f) (h : Agrees F t f fuel fuel') {depth : Nat} {v : Value}
    (hv : 4 * v.height + 3 ≤ min (fuel + 1) (fuel' + 1)) :
    Maps f (F.pathAt (fuel + 1) depth v) (t.pathAt (fuel' + 1) depth v) := by
  rw [Formatter.pathAt.eq_def]
  dsimp only
  split
  · rename_i ms
    have hargs := Value.height_part ms "args"
    rw [TypeText.pathAt]
    dsimp only
    refine (d.name _ _).bind fun shown => ?_
    refine (h.args depth _ (by omega)).bind fun args => ?_
    exact maps_pure (d.append _ _)
  · rename_i hobject
    rw [TypeText.pathAt.eq_3 _ _ _ _ hobject]
    exact maps_pure (d.lit _)

theorem args_succ (d : F.Draws t f) (h : Agrees F t f fuel fuel') {depth : Nat} {v : Value}
    (hv : 4 * v.height + 4 ≤ min (fuel + 1) (fuel' + 1)) :
    Maps f (F.argsAt (fuel + 1) depth v) (t.argsAt (fuel' + 1) depth v) := by
  rw [Formatter.argsAt.eq_def]
  dsimp only
  split
  · rename_i body
    rw [TypeText.argsAt]
    rw [Value.height_single] at hv
    refine maps_read fun argsPart hargs => maps_read fun args hargs' => ?_
    refine (maps_mapM fun a ha => h.arg depth a ?_).bind fun argRows => ?_
    · have := Value.height_orObject_field hargs
      have := Value.height_of_mem_elementsOrNone hargs' ha
      omega
    refine maps_read fun boundsPart hbounds => maps_read fun bounds hbounds' => ?_
    refine (maps_mapM fun a ha => h.constraint depth a ?_).bind fun constraintRows => ?_
    · have := Value.height_orObject_field hbounds
      have := Value.height_of_mem_elementsOrNone hbounds' ha
      omega
    rw [← List.map_append]
    dsimp only
    cases argRows ++ constraintRows with
    | nil => exact maps_pure d.nil
    | cons r rows => exact maps_pure (by simp only [d.append, d.lit, d.joined])
  · rename_i body
    rw [TypeText.argsAt]
    rw [Value.height_single] at hv
    refine maps_read fun inputsPart hinputs => maps_read fun inputs hinputs' => ?_
    refine (h.types depth inputs ?_).bind fun inputRows => ?_
    · have := Value.height_orObject_field hinputs
      have := Value.heights_elementsOrNone hinputs'
      omega
    refine maps_read fun output houtput => ?_
    split
    · exact maps_pure (by simp only [d.append, d.lit, d.joined])
    · refine (h.type depth output ?_).bind fun outputRow => ?_
      · have := Value.height_orObject_field houtput
        omega
      exact maps_pure (by simp only [d.append, d.lit, d.joined])
  · rename_i hangle hparen
    rw [TypeText.argsAt.eq_4 _ _ _ _ hangle hparen]
    exact maps_pure d.nil

theorem arg_succ (d : F.Draws t f) (h : Agrees F t f fuel fuel') {depth : Nat} {v : Value}
    (hv : 4 * v.height + 4 ≤ min (fuel + 1) (fuel' + 1)) :
    Maps f (F.argAt (fuel + 1) depth v) (t.argAt (fuel' + 1) depth v) := by
  rw [Formatter.argAt.eq_def]
  dsimp only
  split
  · rw [TypeText.argAt]
    exact maps_pure (d.lit _)
  · rename_i body
    rw [TypeText.argAt]
    rw [Value.height_single] at hv
    exact h.type depth body (by omega)
  · rw [TypeText.argAt]
    exact maps_pure (d.lit _)
  · rw [TypeText.argAt]
    exact maps_pure (d.lit _)
  · rename_i hstr htype hlifetime hconst
    rw [TypeText.argAt.eq_6 _ _ _ _ hstr htype hlifetime hconst]
    exact maps_pure (d.lit _)

theorem constraint_succ (d : F.Draws t f) (h : Agrees F t f fuel fuel') {depth : Nat}
    {v : Value} (hv : 4 * v.height + 4 ≤ min (fuel + 1) (fuel' + 1)) :
    Maps f (F.constraintAt (fuel + 1) depth v) (t.constraintAt (fuel' + 1) depth v) := by
  rw [Formatter.constraintAt.eq_def]
  dsimp only
  split
  · rename_i ms
    have hargs := Value.height_part ms "args"
    have hpart := Value.height_part ms "binding"
    have hbinding := Value.height_orObject ((ms.lookup "binding").getD .null)
    rw [TypeText.constraintAt]
    dsimp only
    refine (h.args depth _ (by omega)).bind fun args => ?_
    refine maps_read fun isEquality _ => ?_
    split
    · refine maps_read fun equality hequality => ?_
      have := Value.height_member hequality
      have := Value.height_orObject equality
      refine maps_read fun isType _ => ?_
      split
      · refine maps_read fun type htype => ?_
        have := Value.height_member htype
        refine (h.type depth type (by omega)).bind fun typeRow => ?_
        exact maps_pure (by simp only [d.append, d.lit])
      · refine maps_read fun constant _ => ?_
        exact maps_pure (by simp only [d.append, d.lit])
    · refine maps_read fun isConstraint _ => ?_
      split
      · refine maps_read fun constraint hconstraint => ?_
        have := Value.height_member hconstraint
        refine (h.bounds depth constraint (by omega)).bind fun boundRow => ?_
        exact maps_pure (by simp only [d.append, d.lit])
      · exact maps_pure (by simp only [d.append, d.lit])
  · rename_i hobject
    rw [TypeText.constraintAt.eq_3 _ _ _ _ hobject]
    exact maps_pure (d.lit _)

theorem bounds_succ (d : F.Draws t f) (h : Agrees F t f fuel fuel') {depth : Nat} {v : Value}
    (hv : 4 * v.height + 4 ≤ min (fuel + 1) (fuel' + 1)) :
    Maps f (F.boundsAt (fuel + 1) depth v) (t.boundsAt (fuel' + 1) depth v) := by
  rw [Formatter.boundsAt, TypeText.boundsAt]
  refine maps_read fun bounds hbounds => ?_
  refine (maps_mapM fun b hb => h.bound depth b ?_).bind fun rows => ?_
  · have := Value.height_of_mem_elementsOrNone hbounds (List.mem_filter.1 hb).1
    omega
  exact maps_pure (d.joined _ _)

theorem bound_succ (d : F.Draws t f) (h : Agrees F t f fuel fuel') {depth : Nat} {v : Value}
    (hv : 4 * v.height + 3 ≤ min (fuel + 1) (fuel' + 1)) :
    Maps f (F.boundAt (fuel + 1) depth v) (t.boundAt (fuel' + 1) depth v) := by
  rw [Formatter.boundAt.eq_def]
  dsimp only
  split
  · rename_i body
    rw [TypeText.boundAt]
    rw [Value.height_single] at hv
    refine maps_read fun modifier _ => maps_read fun params _ => ?_
    refine (maps_lift (d.binder params)).bind fun forall_ => ?_
    refine maps_read fun path hpath => ?_
    have := Value.height_orObject_field hpath
    refine (h.path depth path (by omega)).bind fun pathRow => ?_
    exact maps_pure (by simp only [d.append, d.lit])
  · rw [TypeText.boundAt]
    exact maps_pure (d.lit _)
  · rw [TypeText.boundAt]
    exact maps_read fun args _ => maps_pure (d.lit _)
  · rename_i htrait houtlives huse
    rw [TypeText.boundAt.eq_5 _ _ _ _ htrait houtlives huse]
    exact maps_pure (d.lit _)

theorem poly_succ (d : F.Draws t f) (h : Agrees F t f fuel fuel') {depth : Nat} {v : Value}
    (hv : 4 * v.height + 4 ≤ min (fuel + 1) (fuel' + 1)) :
    Maps f (F.polyTrait (fuel + 1) depth v) (t.polyTrait (fuel' + 1) depth v) := by
  rw [Formatter.polyTrait, TypeText.polyTrait]
  refine maps_read fun params _ => ?_
  refine (maps_lift (d.binder params)).bind fun forall_ => ?_
  refine maps_read fun path hpath => ?_
  have := Value.height_orObject_field hpath
  refine (h.path depth path (by omega)).bind fun pathRow => ?_
  exact maps_pure (d.append _ _)

theorem dyn_succ (d : F.Draws t f) (h : Agrees F t f fuel fuel') {depth : Nat} {v : Value}
    (hv : 4 * v.height + 3 ≤ min (fuel + 1) (fuel' + 1)) :
    Maps f (F.dynTrait (fuel + 1) depth v) (t.dynTrait (fuel' + 1) depth v) := by
  rw [Formatter.dynTrait, TypeText.dynTrait]
  refine maps_read fun traitsPart hpart => maps_read fun traits htraits => ?_
  refine (maps_mapM fun p hp => h.poly depth p ?_).bind fun rows => ?_
  · have := Value.height_field hpart
    have := Value.height_of_mem_elementsOrNone htraits hp
    omega
  refine maps_read fun lifetime _ => ?_
  exact maps_pure (by simp only [d.append, d.lit, d.joined, d.map_append_ite])

theorem pointer_succ (d : F.Draws t f) (h : Agrees F t f fuel fuel') {depth : Nat} {v : Value}
    (hv : 4 * v.height + 3 ≤ min (fuel + 1) (fuel' + 1)) :
    Maps f (F.functionPointer (fuel + 1) depth v) (t.functionPointer (fuel' + 1) depth v) := by
  rw [Formatter.functionPointer, TypeText.functionPointer]
  refine maps_read fun sig hsig => ?_
  have := Value.height_field hsig
  have := Value.height_orObject sig
  refine maps_read fun header _ => maps_read fun params _ => ?_
  refine (maps_lift (d.binder params)).bind fun forall_ => ?_
  refine maps_read fun isUnsafe _ => maps_read fun abiPart _ => ?_
  refine (maps_lift (d.pointerAbi abiPart)).bind fun abi => ?_
  refine maps_read fun inputsPart hinputs => maps_read fun inputs hinputs' => ?_
  have := Value.height_field hinputs
  refine Noting.Maps.bind (f := List.map f) (maps_mapM fun pair hpair => ?_) fun inputRows => ?_
  · refine maps_read fun input hinput => h.type depth input ?_
    have := Value.height_of_mem_elementsOrNone hinputs' hpair
    have := Value.height_element hinput
    omega
  refine maps_read fun variadic _ => maps_read fun output houtput => ?_
  have := Value.height_field houtput
  split
  · exact maps_pure (by simp only [d.append, d.lit, d.joined, d.ite_lit, d.map_append_ite])
  · refine (h.type depth output (by omega)).bind fun outputRow => ?_
    exact maps_pure (by simp only [d.append, d.lit, d.joined, d.ite_lit, d.map_append_ite])

theorem qualified_succ (d : F.Draws t f) (h : Agrees F t f fuel fuel') {depth : Nat} {v : Value}
    (hv : 4 * v.height + 3 ≤ min (fuel + 1) (fuel' + 1)) :
    Maps f (F.qualifiedPath (fuel + 1) depth v) (t.qualifiedPath (fuel' + 1) depth v) := by
  rw [Formatter.qualifiedPath, TypeText.qualifiedPath]
  refine maps_read fun name _ => maps_read fun argsPart hargs => ?_
  have := Value.height_field hargs
  refine (h.args depth argsPart (by omega)).bind fun args => ?_
  refine maps_read fun selfType hself => maps_read fun trait_ htrait => ?_
  have := Value.height_field hself
  have := Value.height_field htrait
  refine (h.type depth selfType (by omega)).bind fun selfRow => ?_
  split
  · exact maps_pure (by simp only [d.append, d.lit])
  · refine (h.path depth trait_ (by omega)).bind fun traitRow => ?_
    exact maps_pure (by simp only [d.append, d.lit])

theorem types_succ (h : Agrees F t f fuel fuel') {depth : Nat} {vs : List Value}
    (hvs : 4 * Value.heights vs + 5 ≤ min (fuel + 1) (fuel' + 1)) :
    Maps (List.map f) (F.typesAt (fuel + 1) depth vs) (t.typesAt (fuel' + 1) depth vs) := by
  rw [Formatter.typesAt, TypeText.typesAt]
  refine maps_mapM fun v hv => h.type depth v ?_
  have := Value.height_le_heights hv
  omega

/-- A type that is read from a body, with what comes behind it. -/
theorem Agrees.typeOf (h : Agrees F t f fuel fuel') {depth : Nat} {body : Value}
    {u : String → Noting String} {w : List Segment → TypeText.Writing}
    (hbody : 4 * body.height + 4 ≤ min fuel fuel') (hu : ∀ row, Maps f (u (f row)) (w row)) :
    Maps f ((liftM (body.orObject.field "type") : Noting Value) >>= fun v =>
        F.typeAt fuel depth v >>= u)
      ((liftM (body.orObject.field "type") : Noting Value) >>= fun v =>
        t.typeAt fuel' depth v >>= w) := by
  refine maps_read fun v hv => ?_
  have := Value.height_orObject_field hv
  exact (h.type depth v (by omega)).bind hu

/-- A type with a tag. -/
theorem tagged_succ (d : F.Draws t f) (h : Agrees F t f fuel fuel') {depth : Nat} {tag : String}
    {body : Value} (hv : 4 * body.height + 8 ≤ min (fuel + 1) (fuel' + 1))
    (hdepth : ¬t.maxDepth < depth) :
    Maps f (F.typeAt (fuel + 1) depth (.object [(tag, body)]))
      (t.typeAt (fuel' + 1) depth (.object [(tag, body)])) := by
  have hobject := Value.height_orObject body
  rw [Formatter.typeAt, d.maxDepth, if_neg hdepth]
  dsimp only
  -- One case for each tag, in the order of the rules, and the last one for all other tags.
  split
  all_goals
    rw [TypeText.typeAt, if_neg hdepth]
    dsimp only
  · exact h.path _ body (by omega)
  · exact h.dyn _ body.orObject (by omega)
  · exact maps_pure (d.lit _)
  · exact maps_pure (d.lit _)
  · exact h.pointer _ body.orObject (by omega)
  · refine maps_read fun elems helems => ?_
    have := Value.heights_elementsOrNone helems
    refine (h.types _ elems (by omega)).bind fun rows => ?_
    rcases rows with _ | ⟨e, _ | ⟨e', es⟩⟩
    · exact maps_pure (by simp only [d.append, d.lit, d.joined])
    · exact maps_pure (by simp only [d.append, d.lit])
    · exact maps_pure (by simp only [d.append, d.lit, d.joined, List.map_cons])
  · refine (h.type _ body (by omega)).bind fun row => ?_
    exact maps_pure (by simp only [d.append, d.lit])
  · refine h.typeOf (by omega) fun row => maps_pure ?_
    cases body.orObject <;> simp only [d.append, d.lit]
  · refine maps_read fun inner hinner => ?_
    have := Value.height_orObject_field hinner
    exact h.type _ inner (by omega)
  · refine (h.bounds _ body (by omega)).bind fun row => ?_
    exact maps_pure (by simp only [d.append, d.lit])
  · refine maps_read fun isMutable _ => h.typeOf (by omega) fun row => ?_
    exact maps_pure (by simp only [d.append, d.lit])
  · refine maps_read fun ref _ => h.typeOf (by omega) fun row => ?_
    exact maps_pure (by simp only [d.append, d.lit])
  · exact h.qualified _ body.orObject (by omega)
  · split
    all_goals first
      | contradiction
      | exact maps_pure (d.lit _)

theorem type_succ (d : F.Draws t f) (h : Agrees F t f fuel fuel') {depth : Nat} {v : Value}
    (hv : 4 * v.height + 4 ≤ min (fuel + 1) (fuel' + 1)) :
    Maps f (F.typeAt (fuel + 1) depth v) (t.typeAt (fuel' + 1) depth v) := by
  by_cases hdepth : t.maxDepth < depth
  · rw [Formatter.typeAt.eq_def, TypeText.typeAt.eq_def]
    dsimp only
    rw [d.maxDepth, if_pos hdepth, if_pos hdepth]
    exact maps_pure (d.lit _)
  by_cases htagged : ∃ tag body, v = .object [(tag, body)]
  · obtain ⟨tag, body, rfl⟩ := htagged
    rw [Value.height_single] at hv
    exact d.tagged_succ h (by omega) hdepth
  by_cases hstr : ∃ s, v = .str s
  · obtain ⟨s, rfl⟩ := hstr
    rw [Formatter.typeAt, TypeText.typeAt, d.maxDepth, if_neg hdepth, if_neg hdepth]
    exact maps_pure (d.lit _)
  · have hnot : ∀ s, v = .str s → False := fun s hs => hstr ⟨s, hs⟩
    have hnot' : ∀ tag body, v = .object [(tag, body)] → False := fun tag body hobject =>
      htagged ⟨tag, body, hobject⟩
    rw [Formatter.typeAt.eq_4 _ _ _ _ hnot hnot', TypeText.typeAt.eq_4 _ _ _ _ hnot hnot',
      d.maxDepth, if_neg hdepth, if_neg hdepth]
    exact maps_pure (d.lit _)

theorem agrees_succ (d : F.Draws t f) (h : Agrees F t f fuel fuel') :
    Agrees F t f (fuel + 1) (fuel' + 1) where
  type _ _ hv := d.type_succ h hv
  types _ _ hvs := types_succ h hvs
  path _ _ hv := d.path_succ h hv
  args _ _ hv := d.args_succ h hv
  arg _ _ hv := d.arg_succ h hv
  constraint _ _ hv := d.constraint_succ h hv
  bounds _ _ hv := d.bounds_succ h hv
  bound _ _ hv := d.bound_succ h hv
  poly _ _ hv := d.poly_succ h hv
  dyn _ _ hv := d.dyn_succ h hv
  pointer _ _ hv := d.pointer_succ h hv
  qualified _ _ hv := d.qualified_succ h hv

/-- Without fuel on one side there is nothing to show: every rule needs some. -/
theorem agrees_of_min_eq_zero (h : min fuel fuel' = 0) : Agrees F t f fuel fuel' := by
  constructor <;> (intro depth v hv; omega)

theorem agrees (d : F.Draws t f) (fuel fuel' : Nat) : Agrees F t f fuel fuel' := by
  induction fuel generalizing fuel' with
  | zero => exact agrees_of_min_eq_zero (Nat.zero_min fuel')
  | succ fuel ih =>
    cases fuel' with
    | zero => exact agrees_of_min_eq_zero (Nat.min_zero (fuel + 1))
    | succ fuel' => exact d.agrees_succ (ih fuel')

end Formatter.Draws
end CrateBook
