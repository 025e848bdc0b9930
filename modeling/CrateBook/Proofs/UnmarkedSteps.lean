import CrateBook.Proofs.Marks

/-!
# Steps that leave no mark

Types, declarations and docs leave notes about references and links only. For types this is
an induction on the fuel: the rules call each other, so one bundle carries all of them.
-/
namespace CrateBook

open Noting

namespace TypeText

variable {t : TypeText}

theorem quiet_name (id : Option Id) (s : String) : Quiet (t.name id s) := by
  have hasked : Quiet (noteAll (id.toList.map fun i => Note.asked i s)) := by
    intro n hn
    obtain ⟨i, -, rfl⟩ := List.mem_map.1 hn
    rfl
  unfold name
  split
  · exact quiet_pure _
  · refine hasked.bind fun _ => ?_
    split
    · exact Quiet.bind (quiet_note rfl) fun _ => quiet_pure _
    · exact quiet_pure _

/-- All rules for types leave no mark with some fuel. -/
structure QuietAt (t : TypeText) (fuel : Nat) : Prop where
  type : ∀ depth v, Quiet (t.typeAt fuel depth v)
  types : ∀ depth vs, Quiet (t.typesAt fuel depth vs)
  path : ∀ depth v, Quiet (t.pathAt fuel depth v)
  args : ∀ depth v, Quiet (t.argsAt fuel depth v)
  arg : ∀ depth v, Quiet (t.argAt fuel depth v)
  constraint : ∀ depth v, Quiet (t.constraintAt fuel depth v)
  bounds : ∀ depth v, Quiet (t.boundsAt fuel depth v)
  bound : ∀ depth v, Quiet (t.boundAt fuel depth v)
  poly : ∀ depth v, Quiet (t.polyTrait fuel depth v)
  dyn : ∀ depth v, Quiet (t.dynTrait fuel depth v)
  pointer : ∀ depth v, Quiet (t.functionPointer fuel depth v)
  qualified : ∀ depth v, Quiet (t.qualifiedPath fuel depth v)

theorem quietAt_zero : QuietAt t 0 := by
  constructor <;> intro depth v
  all_goals first
    | unfold typeAt | unfold typesAt | unfold pathAt | unfold argsAt | unfold argAt
    | unfold constraintAt | unfold boundsAt | unfold boundAt | unfold polyTrait
    | unfold dynTrait | unfold functionPointer | unfold qualifiedPath
  all_goals exact quiet_pure _

/-- Each rule is made of steps without marks and of rules with less fuel. -/
theorem QuietAt.succ {fuel : Nat} (h : QuietAt t fuel) : QuietAt t (fuel + 1) := by
  constructor <;> intro depth v
  all_goals first
    | unfold typeAt | unfold typesAt | unfold pathAt | unfold argsAt | unfold argAt
    | unfold constraintAt | unfold boundsAt | unfold boundAt | unfold polyTrait
    | unfold dynTrait | unfold functionPointer | unfold qualifiedPath
  all_goals repeat' with_reducible first
    | exact quiet_pure _
    | exact quiet_lift _
    | exact quiet_name _ _
    | exact h.type _ _
    | exact h.types _ _
    | exact h.path _ _
    | exact h.args _ _
    | exact h.bounds _ _
    | exact h.dyn _ _
    | exact h.pointer _ _
    | exact h.qualified _ _
    | exact quiet_mapM (h.type _) _
    | exact quiet_mapM (h.arg _) _
    | exact quiet_mapM (h.constraint _) _
    | exact quiet_mapM (h.bound _) _
    | exact quiet_mapM (h.poly _) _
    | refine quiet_mapM (fun _ => ?_) _
    | refine Quiet.bind ?_ fun _ => ?_
    | split
    | dsimp only

theorem quietAt (fuel : Nat) : QuietAt t fuel := by
  induction fuel with
  | zero => exact quietAt_zero
  | succ fuel ih => exact ih.succ

theorem quiet_type (v : Value) : Quiet (t.type v) := (quietAt _).type _ _

theorem quiet_path (v : Value) : Quiet (t.path v) := (quietAt _).path _ _

theorem quiet_bounds (v : Value) : Quiet (t.bounds v) := (quietAt _).bounds _ _

theorem quiet_genericParam (p : Value) : Quiet (t.genericParam p) := by
  unfold genericParam typeParam constParam
  repeat' with_reducible first
    | exact quiet_pure _
    | exact quiet_lift _
    | exact quiet_type _
    | exact quiet_bounds _
    | refine Quiet.bind ?_ fun _ => ?_
    | split

theorem quiet_genericParams (ps : List Value) : Quiet (t.genericParams ps) := by
  unfold genericParams
  refine (quiet_mapM quiet_genericParam ps).bind fun shown => ?_
  dsimp only
  split <;> exact quiet_pure _

theorem quiet_wherePredicate (m : Markup) (p : Value) : Quiet (t.wherePredicate m p) := by
  unfold wherePredicate
  repeat' with_reducible first
    | exact quiet_pure _
    | exact quiet_lift _
    | exact quiet_type _
    | exact quiet_bounds _
    | refine Quiet.bind ?_ fun _ => ?_
    | split

theorem quiet_wherePredicates (m : Markup) (ps : List Value) :
    Quiet (t.wherePredicates m ps) :=
  (quiet_mapM (quiet_wherePredicate m) ps).bind fun _ => quiet_pure _

end TypeText

namespace Declaration

variable (d : Declaration)

theorem quiet_type (v : Value) : Quiet (d.type v) :=
  (TypeText.quiet_type v).bind fun _ => quiet_pure _

theorem quiet_params (g : Generics) : Quiet (d.params g) :=
  (TypeText.quiet_genericParams _).bind fun _ => quiet_pure _

theorem quiet_whereClause (g : Generics) : Quiet (d.whereClause g) := by
  unfold whereClause
  refine (TypeText.quiet_wherePredicates _ _).bind fun preds => ?_
  split <;> exact quiet_pure _

theorem quiet_fieldText (x : Item) : Quiet (d.fieldText x) :=
  (d.quiet_type _).bind fun _ => quiet_pure _

theorem quiet_structText (x : Item) (b : StructBody) : Quiet (d.structText x b) := by
  have htuple (f : Item × Value) : Quiet (d.tupleFieldText f) :=
    (d.quiet_type _).bind fun _ => quiet_pure _
  have hline (x : Item) : Quiet (d.fieldLine x) :=
    (d.quiet_fieldText x).bind fun _ => quiet_pure _
  unfold structText
  refine (d.quiet_params _).bind fun params => (d.quiet_whereClause _).bind fun clause => ?_
  split
  · exact (quiet_mapM htuple _).bind fun _ => quiet_pure _
  · split
    · exact (quiet_mapM hline _).bind fun _ => quiet_pure _
    · exact quiet_pure _

theorem quiet_variantText (x : Item) (b : VariantBody) : Quiet (d.variantText x b) := by
  have hpositional (y : Option Item) : Quiet (d.positionalField y) := by
    unfold positionalField
    repeat' with_reducible first
      | exact quiet_pure _
      | exact d.quiet_type _
      | split
  have hnamed (y : Option Item) : Quiet (d.variantField y) := by
    unfold variantField
    repeat' with_reducible first
      | exact quiet_pure _
      | exact (d.quiet_type _).bind fun _ => quiet_pure _
      | split
  unfold variantText
  repeat' with_reducible first
    | exact quiet_pure _
    | exact quiet_mapM hpositional _
    | exact quiet_mapM hnamed _
    | refine Quiet.bind ?_ fun _ => ?_
    | split
    | dsimp only

theorem quiet_enumText (x : Item) (b : EnumBody) : Quiet (d.enumText x b) := by
  have hline (v : Item × VariantBody) : Quiet (d.variantLine v) :=
    (d.quiet_variantText _ _).bind fun _ => quiet_pure _
  exact (d.quiet_params _).bind fun _ => (d.quiet_whereClause _).bind fun _ =>
    (quiet_mapM hline _).bind fun _ => quiet_pure _

theorem quiet_functionText (x : Item) (b : FunctionBody) : Quiet (d.functionText x b) := by
  have hargument (i : String × Value) : Quiet (d.argument i) := by
    unfold argument
    repeat' with_reducible first
      | exact quiet_pure _
      | exact quiet_lift _
      | exact d.quiet_type _
      | refine Quiet.bind ?_ fun _ => ?_
      | split
  unfold functionText
  repeat' with_reducible first
    | exact quiet_pure _
    | exact d.quiet_type _
    | exact d.quiet_params _
    | exact d.quiet_whereClause _
    | exact quiet_mapM hargument _
    | refine Quiet.bind ?_ fun _ => ?_
    | split

theorem quiet_boundsText (bs : List Value) : Quiet (d.boundsText bs) := by
  unfold boundsText
  split
  · exact quiet_pure _
  · exact ((TypeText.quiet_bounds _).bind fun _ => quiet_pure _).bind fun _ => quiet_pure _

theorem quiet_assocConstText (x : Item) (b : AssocConstBody) :
    Quiet (d.assocConstText x b) := (d.quiet_type _).bind fun _ => quiet_pure _

theorem quiet_assocTypeText (x : Item) (b : AssocTypeBody) : Quiet (d.assocTypeText x b) := by
  unfold assocTypeText
  refine (d.quiet_params _).bind fun params => (d.quiet_boundsText _).bind fun bounded => ?_
  repeat' with_reducible first
    | exact quiet_pure _
    | exact d.quiet_type _
    | refine Quiet.bind ?_ fun _ => ?_
    | split

theorem quiet_traitText (x : Item) (b : TraitBody) : Quiet (d.traitText x b) := by
  have hmember (m : Item × TraitMember) : Quiet (d.traitMemberText m) := by
    unfold traitMemberText
    split
    · exact d.quiet_assocTypeText _ _
    · exact d.quiet_assocConstText _ _
    · exact (d.quiet_functionText _ _).bind fun _ => quiet_pure _
  have hranked (m : Item × TraitMember) : Quiet (d.rankedText m) :=
    (hmember m).bind fun _ => quiet_pure _
  exact (d.quiet_params _).bind fun _ => (d.quiet_boundsText _).bind fun _ =>
    (d.quiet_whereClause _).bind fun _ => (quiet_mapM hranked _).bind fun _ => quiet_pure _

theorem quiet_implText (b : ImplBody) : Quiet (d.implText b) := by
  have hpath (v : Value) : Quiet (plain (d.types.path v)) :=
    (TypeText.quiet_path v).bind fun _ => quiet_pure _
  unfold implText
  repeat' with_reducible first
    | exact quiet_pure _
    | exact hpath _
    | exact d.quiet_type _
    | exact d.quiet_params _
    | exact d.quiet_whereClause _
    | refine Quiet.bind ?_ fun _ => ?_
    | split

/-- Declarations leave no mark, of whatever kind the item is. -/
theorem quiet_text (x : Item) : Quiet (d.text x) := by
  unfold text
  split
  case h_2 => exact d.quiet_structText _ _
  case h_3 => exact d.quiet_fieldText _
  case h_4 => exact d.quiet_enumText _ _
  case h_5 => exact d.quiet_variantText _ _
  case h_6 => exact d.quiet_functionText _ _
  case h_7 => exact d.quiet_traitText _ _
  case h_8 =>
    exact (d.quiet_params _).bind fun _ => (d.quiet_whereClause _).bind fun _ =>
      (d.quiet_type _).bind fun _ => quiet_pure _
  case h_9 => exact (d.quiet_type _).bind fun _ => quiet_pure _
  case h_10 => exact (d.quiet_type _).bind fun _ => quiet_pure _
  case h_11 => exact d.quiet_implText _
  case h_16 => exact d.quiet_assocConstText _ _
  case h_17 => exact d.quiet_assocTypeText _ _
  case h_18 => exact (quiet_note rfl).bind fun _ => quiet_pure _
  all_goals exact quiet_pure _

theorem quiet_render (x : Item) : Quiet (d.render x) :=
  (d.quiet_text x).withLinks.bind fun _ => quiet_pure _

end Declaration

namespace Docs

variable {d : Destinations}

theorem unmarked_resolve (key label : List Char) :
    ∀ n ∈ (d.resolve key label).2, n.isMark = false := by
  unfold Destinations.resolve
  split
  · simp
  · dsimp only
    split <;> simp [Note.isMark]

theorem unmarked_relinked (dropped : List String) (label : List Char) (tail : LinkTail) :
    ∀ n ∈ (relinked d dropped label tail).2, n.isMark = false := by
  unfold relinked
  cases tail with
  | dest dest =>
    dsimp only
    split <;> exact unmarked_resolve _ _
  | label l =>
    dsimp only
    generalize (if l.isEmpty = true then label else l) = key
    split
    · simp
    · split <;> exact unmarked_resolve _ _
  | bare =>
    dsimp only
    split
    · simp
    · split <;> exact unmarked_resolve _ _

theorem unmarked_relinkLine (dropped : List String) (before : Char) (line : List Char) :
    ∀ n ∈ (relinkLine d dropped before line).2, n.isMark = false := by
  fun_induction relinkLine d dropped before line with
  | case1 => simp
  | case2 before c rest _ label tail after _ out more ih =>
    intro n hn
    rcases List.mem_append.1 hn with hn | hn
    · exact unmarked_relinked _ _ _ n hn
    · exact ih n hn
  | case3 => assumption
  | case4 => assumption

theorem unmarked_defineLine (line : List Char) :
    ∀ n ∈ (defineLine d line).2.2, n.isMark = false := by
  unfold defineLine
  split
  · simp
  · next def_ _ =>
    have hresolve := unmarked_resolve (d := d) def_.dest def_.label
    split
    all_goals
      next heq =>
        rw [heq] at hresolve
        exact hresolve

theorem unmarked_defineLines (fence : Option (List Char)) (lines : List (List Char)) :
    ∀ n ∈ (defineLines d fence lines).notes, n.isMark = false := by
  induction lines generalizing fence with
  | nil => simp [defineLines]
  | cons l ls ih =>
    unfold defineLines
    dsimp only
    split
    · intro n hn
      rcases List.mem_append.1 hn with hn | hn
      · exact unmarked_defineLine l n hn
      · exact ih _ n hn
    · exact ih _

theorem unmarked_linkLines (dropped : List String) (fence : Option (List Char))
    (lines : List (List Char)) : ∀ n ∈ (linkLines d dropped fence lines).2, n.isMark = false := by
  have hline (l : List Char) : ∀ n ∈ (linkLine d dropped l).2, n.isMark = false := by
    unfold linkLine
    split
    · simp
    · exact unmarked_relinkLine _ _ _
  induction lines generalizing fence with
  | nil => simp [linkLines]
  | cons l ls ih =>
    unfold linkLines
    dsimp only
    split
    · intro n hn
      rcases List.mem_append.1 hn with hn | hn
      · exact hline l n hn
      · exact ih _ n hn
    · exact ih _

theorem unmarked_relink (links : List (String × Id)) (hrefOf : Id → Option String)
    (text : String) : ∀ n ∈ (relink links hrefOf text).2, n.isMark = false := by
  unfold relink relinkBy
  split
  · simp
  · intro n hn
    rcases List.mem_append.1 hn with hn | hn
    · exact unmarked_defineLines _ _ n hn
    · exact unmarked_linkLines _ _ _ n hn

end Docs

end CrateBook
