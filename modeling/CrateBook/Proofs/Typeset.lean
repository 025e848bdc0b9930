import CrateBook.Proofs.Marks
import CrateBook.Proofs.TypeSchema

/-!
# Types that can be written

A type that has the form of one is written to its end, however deep it is nested. The rules
for types call each other, so this is an induction on the fuel with one bundle for all rules.
Each rule only asks for members that its form gives, in the kinds that the form allows.
-/
namespace CrateBook

namespace Noting

variable {α β : Type}

/-- A step that runs to its end. -/
def Succeeds (x : Noting α) : Prop := ∃ a, x.result = .ok a

theorem succeeds_pure (a : α) : Succeeds (pure a : Noting α) := ⟨a, rfl⟩

/-- A step that ends, followed by steps that do, ends. -/
theorem Succeeds.bind {x : Noting α} {f : α → Noting β} (hx : Succeeds x)
    (hf : ∀ a, Succeeds (f a)) : Succeeds (x >>= f) := by
  obtain ⟨a, ha⟩ := hx
  obtain ⟨b, hb⟩ := hf a
  exact ⟨b, bind_eq_ok.2 ⟨a, ha, hb⟩⟩

theorem Succeeds.map {x : Noting α} (hx : Succeeds x) (f : α → β) :
    Succeeds (x >>= fun a => pure (f a)) :=
  hx.bind fun _ => succeeds_pure _

/-- A step behind a value that was read. -/
theorem succeeds_read {x : Checked α} {a : α} {f : α → Noting β} (hx : x = .ok a)
    (hf : Succeeds (f a)) : Succeeds ((liftM x : Noting α) >>= f) := by
  obtain ⟨b, hb⟩ := hf
  exact ⟨b, bind_eq_ok.2 ⟨a, hx, hb⟩⟩

theorem succeeds_mapM {f : α → Noting β} {as : List α} (h : ∀ a ∈ as, Succeeds (f a)) :
    Succeeds (as.mapM f) := by
  induction as with
  | nil => exact succeeds_pure _
  | cons a as ih =>
    rw [List.mapM_cons]
    exact (h a List.mem_cons_self).bind fun _ =>
      (ih fun b hb => h b (List.mem_cons_of_mem a hb)).map _

/-- Two ways on, for an object with a key and for one without it. -/
theorem succeeds_mentions {ms : List (String × Value)} {k : String} {x y : Noting β}
    (hwith : ∀ w, ms.lookup k = some w → Succeeds x) (hwithout : Succeeds y) :
    Succeeds ((liftM ((Value.object ms).mentions k) : Noting Bool) >>= fun b =>
      if b = true then x else y) := by
  refine succeeds_read rfl ?_
  cases hw : ms.lookup k with
  | none => exact hwithout
  | some w => exact hwith w hw

/-- A step behind a member that was found. -/
theorem succeeds_member {ms : List (String × Value)} {k : String} {w : Value}
    {f : Value → Noting β} (hw : ms.lookup k = some w) (hf : Succeeds (f w)) :
    Succeeds ((liftM ((Value.object ms).member k) : Noting Value) >>= f) :=
  succeeds_read (by rw [Value.member, hw]) hf

end Noting

open Noting (Succeeds succeeds_pure succeeds_read succeeds_mapM succeeds_mentions
  succeeds_member)

namespace Checked

/-- A step behind one that succeeds. -/
theorem exists_bind {α β : Type} {x : Checked α} {a : α} {f : α → Checked β} (hx : x = .ok a)
    (hf : ∃ b, f a = .ok b) : ∃ b, x >>= f = .ok b := by
  obtain ⟨b, hb⟩ := hf
  exact ⟨b, Except.bind_eq_ok.2 ⟨a, hx, hb⟩⟩

theorem exists_mapM {α β : Type} {f : α → Checked β} {as : List α}
    (h : ∀ a ∈ as, ∃ b, f a = .ok b) : ∃ bs, as.mapM f = .ok bs := by
  induction as with
  | nil => exact ⟨[], rfl⟩
  | cons a as ih =>
    obtain ⟨b, hb⟩ := h a List.mem_cons_self
    obtain ⟨bs, hbs⟩ := ih fun c hc => h c (List.mem_cons_of_mem a hc)
    rw [List.mapM_cons]
    exact exists_bind hb (exists_bind hbs ⟨_, rfl⟩)

theorem exists_mapM_bind {α β γ : Type} {f : α → Checked β} {g : List β → Checked γ} {as : List α}
    (h : ∀ a ∈ as, ∃ b, f a = .ok b) (hg : ∀ bs, ∃ c, g bs = .ok c) :
    ∃ c, as.mapM f >>= g = .ok c := by
  obtain ⟨bs, hbs⟩ := exists_mapM h
  exact exists_bind hbs (hg bs)

theorem exists_filterM {α : Type} {f : α → Checked Bool} {as : List α}
    (h : ∀ a ∈ as, ∃ b, f a = .ok b) :
    ∃ bs, as.filterM f = .ok bs ∧ ∀ b ∈ bs, f b = .ok true := by
  have hall : ∀ acc : List α, (∀ a ∈ acc, f a = .ok true) →
      ∃ bs, as.filterAuxM f acc = .ok bs ∧ ∀ b ∈ bs, f b = .ok true := by
    induction as with
    | nil => exact fun acc hacc => ⟨acc, rfl, hacc⟩
    | cons a as ih =>
      intro acc hacc
      obtain ⟨b, hb⟩ := h a List.mem_cons_self
      have hkept : ∀ c ∈ (bif b then a :: acc else acc), f c = .ok true := by
        cases b with
        | false => exact hacc
        | true => exact List.forall_mem_cons.2 ⟨hb, hacc⟩
      obtain ⟨bs, hbs, htrue⟩ := ih (fun c hc => h c (List.mem_cons_of_mem a hc)) _ hkept
      exact ⟨bs, Except.bind_eq_ok.2 ⟨b, hb, hbs⟩, htrue⟩
  obtain ⟨bs, hbs, htrue⟩ := hall [] fun _ hc => absurd hc List.not_mem_nil
  exact ⟨bs.reverse, Except.bind_eq_ok.2 ⟨bs, hbs, rfl⟩, fun b hb =>
    htrue b (List.mem_reverse.1 hb)⟩

end Checked

namespace Form

variable {v : Value}

/-- Texts can be joined. -/
theorem exists_joinTexts (sep : String) {vs : List Value} (h : ∀ v ∈ vs, word.fits v = true) :
    ∃ s, Value.joinTexts sep vs = .ok s := by
  have htext : ∀ v ∈ vs, ∃ s, v = .str s := by
    intro v hv
    have hallows := allows_of_fits (h v hv)
    cases v with
    | str s => exact ⟨s, rfl⟩
    | _ => simp [rule, Rule.text] at hallows
  unfold Value.joinTexts
  refine Checked.exists_mapM_bind (fun v hv => ?_) fun ss => ⟨_, rfl⟩
  obtain ⟨s, rfl⟩ := htext v hv
  exact ⟨s, rfl⟩

/-- The kind of a parameter is an object, or left out. -/
theorem exists_isLifetimeParam (h : param.fits v = true) :
    ∃ b, TypeText.isLifetimeParam v = .ok b := by
  cases v with
  | object ms =>
    have hkind : paramKind.fits ((ms.lookup "kind").getD .null) = true := fits_part "kind" h rfl
    obtain ⟨ks, hks, -⟩ := exists_record rfl hkind
    exact ⟨_, by rw [TypeText.isLifetimeParam, hks]; rfl⟩
  | _ => exact ⟨false, rfl⟩

theorem exists_binder (h : params.fits v = true) : ∃ ss, TypeText.binder v = .ok ss := by
  obtain ⟨ps, hps, hparams⟩ := exists_elements rfl h
  obtain ⟨ls, hls, hlifetimes⟩ :=
    Checked.exists_filterM fun p hp => exists_isLifetimeParam (hparams p hp)
  have hnames : ∀ p ∈ ls, ∃ s, (do return (← p.field "name").text : Checked String) = .ok s := by
    intro p hp
    -- only an object counts as a lifetime
    cases p with
    | object ms => exact ⟨_, rfl⟩
    | _ => exact absurd (hlifetimes _ hp) (by simp [TypeText.isLifetimeParam])
  refine Checked.exists_bind hps (Checked.exists_bind hls
    (Checked.exists_mapM_bind hnames fun ns => ?_))
  split <;> exact ⟨_, rfl⟩

/-- A lifetime is a text, or left out. -/
theorem exists_referenceText (h : reference.fits v = true) :
    ∃ s, TypeText.referenceText v.orObject = .ok s := by
  obtain ⟨l, hl, hlifetime⟩ := exists_field "lifetime" rfl h rfl
  obtain ⟨m, hm, -⟩ := exists_field "is_mutable" rfl h rfl
  refine Checked.exists_bind hl ?_
  have hallows : lifetime.rule.allows l = true := allows_of_fits hlifetime
  dsimp only
  split
  · exact Checked.exists_bind rfl (Checked.exists_bind hm ⟨_, rfl⟩)
  · next hset =>
    cases l with
    | str s => exact Checked.exists_bind rfl (Checked.exists_bind hm ⟨_, rfl⟩)
    | _ => simp_all [rule, Rule.textOrNone]

/-- An input has a name and a type. -/
theorem exists_second (h : input.fits v = true) :
    ∃ w, v.element 1 = .ok w ∧ type.fits w = true := by
  have hallows : input.rule.allows v = true := allows_of_fits h
  have htypes : ∀ vs, v = .list vs → ∀ w ∈ vs, type.fits w = true := by
    rintro vs rfl
    exact fits_of_mem h
  cases v with
  | list vs =>
    match vs with
    | [] => cases hallows
    | [_] => cases hallows
    | _ :: w :: _ => exact ⟨w, rfl, htypes _ rfl w (by simp)⟩
  | _ => cases hallows

theorem exists_pointerAbi (h : abi.fits v = true) : ∃ ss, TypeText.pointerAbi v = .ok ss := by
  have hallows : abi.rule.allows v = true := allows_of_fits h
  unfold TypeText.pointerAbi
  split
  · exact ⟨_, rfl⟩
  · next hset =>
    cases v with
    | str s => split <;> exact ⟨_, rfl⟩
    | object ms => exact ⟨_, rfl⟩
    | _ => simp_all [rule, Rule.tag]

end Form

namespace TypeText

variable {t : TypeText}

theorem succeeds_name (id : Option Id) (s : String) : Succeeds (t.name id s) := by
  unfold name
  split
  · exact succeeds_pure _
  · refine Succeeds.bind ⟨(), rfl⟩ fun _ => ?_
    split
    · exact Succeeds.bind ⟨(), rfl⟩ fun _ => succeeds_pure _
    · exact succeeds_pure _

/-- All rules for types run to their end with some fuel, on values of their forms. -/
structure WritesAt (t : TypeText) (fuel : Nat) : Prop where
  type : ∀ depth v, Form.type.fits v = true → Succeeds (t.typeAt fuel depth v)
  path : ∀ depth v, Form.path.fits v = true → Succeeds (t.pathAt fuel depth v)
  args : ∀ depth v, Form.args.fits v = true → Succeeds (t.argsAt fuel depth v)
  arg : ∀ depth v, Form.arg.fits v = true → Succeeds (t.argAt fuel depth v)
  constraint : ∀ depth v, Form.constraint.fits v = true → Succeeds (t.constraintAt fuel depth v)
  bounds : ∀ depth v, Form.bounds.fits v = true → Succeeds (t.boundsAt fuel depth v)
  bound : ∀ depth v, Form.bound.fits v = true → Succeeds (t.boundAt fuel depth v)
  poly : ∀ depth v, Form.traitBound.fits v = true → Succeeds (t.polyTrait fuel depth v)
  dyn : ∀ depth v, Form.dynTrait.fits v = true → Succeeds (t.dynTrait fuel depth v.orObject)
  pointer : ∀ depth v, Form.pointer.fits v = true →
    Succeeds (t.functionPointer fuel depth v.orObject)
  qualified : ∀ depth v, Form.qualified.fits v = true →
    Succeeds (t.qualifiedPath fuel depth v.orObject)
  types : ∀ depth vs, (∀ v ∈ vs, Form.type.fits v = true) → Succeeds (t.typesAt fuel depth vs)

theorem writesAt_zero : WritesAt t 0 := by
  constructor <;> intro depth v _
  all_goals first
    | unfold typeAt | unfold typesAt | unfold pathAt | unfold argsAt | unfold argAt
    | unfold constraintAt | unfold boundsAt | unfold boundAt | unfold polyTrait
    | unfold dynTrait | unfold functionPointer | unfold qualifiedPath
  all_goals exact succeeds_pure _

namespace WritesAt

variable {fuel : Nat} (h : WritesAt t fuel)

include h

theorem typeAt_succ (depth : Nat) (v : Value) (hv : Form.type.fits v = true) :
    Succeeds (t.typeAt (fuel + 1) depth v) := by
  unfold typeAt
  split
  · exact succeeds_pure _
  split
  · exact succeeds_pure _
  · next tag body =>
    have hbody : (Form.type.member tag).fits body = true := Form.fits_body hv
    dsimp only
    split
    · exact h.path _ _ hbody
    · exact h.dyn _ _ hbody
    · exact succeeds_pure _
    · exact succeeds_pure _
    · exact h.pointer _ _ hbody
    · obtain ⟨vs, hvs, htypes⟩ := Form.exists_elements rfl hbody
      refine succeeds_read hvs ((h.types _ _ htypes).bind fun elems => ?_)
      split <;> exact succeeds_pure _
    · exact (h.type _ _ hbody).map _
    · obtain ⟨w, hw, hfits⟩ := Form.exists_field "type" rfl hbody rfl
      exact succeeds_read hw ((h.type _ _ hfits).bind fun _ => succeeds_pure _)
    · obtain ⟨w, hw, hfits⟩ := Form.exists_field "type" rfl hbody rfl
      exact succeeds_read hw (h.type _ _ hfits)
    · exact (h.bounds _ _ hbody).map _
    · obtain ⟨m, hm, -⟩ := Form.exists_field "is_mutable" rfl hbody rfl
      obtain ⟨w, hw, hfits⟩ := Form.exists_field "type" rfl hbody rfl
      exact succeeds_read hm (succeeds_read hw ((h.type _ _ hfits).map _))
    · obtain ⟨s, hs⟩ := Form.exists_referenceText hbody
      obtain ⟨w, hw, hfits⟩ := Form.exists_field "type" rfl hbody rfl
      exact succeeds_read hs (succeeds_read hw ((h.type _ _ hfits).map _))
    · exact h.qualified _ _ hbody
    · exact succeeds_pure _
  · exact succeeds_pure _

theorem pathAt_succ (depth : Nat) (v : Value) (hv : Form.path.fits v = true) :
    Succeeds (t.pathAt (fuel + 1) depth v) := by
  unfold pathAt
  split
  · exact (succeeds_name _ _).bind fun _ =>
      (h.args _ _ (Form.fits_part "args" hv rfl)).map _
  · exact succeeds_pure _

theorem argsAt_succ (depth : Nat) (v : Value) (hv : Form.args.fits v = true) :
    Succeeds (t.argsAt (fuel + 1) depth v) := by
  unfold argsAt
  split
  · next body =>
    have hbody : Form.angled.fits body = true := Form.fits_body hv
    obtain ⟨a, ha, hargs⟩ := Form.exists_field "args" rfl hbody rfl
    obtain ⟨as, has, hall⟩ := Form.exists_elements rfl hargs
    obtain ⟨c, hc, hconstraints⟩ := Form.exists_field "constraints" rfl hbody rfl
    obtain ⟨cs, hcs, hall'⟩ := Form.exists_elements rfl hconstraints
    refine succeeds_read ha (succeeds_read has ?_)
    refine (succeeds_mapM fun a ha => h.arg _ _ (hall a ha)).bind fun args => ?_
    refine succeeds_read hc (succeeds_read hcs ?_)
    refine (succeeds_mapM fun c hc => h.constraint _ _ (hall' c hc)).bind fun bounds => ?_
    dsimp only
    split <;> exact succeeds_pure _
  · next body =>
    have hbody : Form.parens.fits body = true := Form.fits_body hv
    obtain ⟨i, hi, hinputs⟩ := Form.exists_field "inputs" rfl hbody rfl
    obtain ⟨is, his, hall⟩ := Form.exists_elements rfl hinputs
    obtain ⟨o, ho, hout⟩ := Form.exists_field "output" rfl hbody rfl
    refine succeeds_read hi (succeeds_read his ((h.types _ _ hall).bind fun inputs => ?_))
    refine succeeds_read ho ?_
    split
    · exact succeeds_pure _
    · exact (h.type _ _ hout).map _
  · exact succeeds_pure _

theorem argAt_succ (depth : Nat) (v : Value) (hv : Form.arg.fits v = true) :
    Succeeds (t.argAt (fuel + 1) depth v) := by
  unfold argAt
  split
  · exact succeeds_pure _
  · exact h.type _ _ (Form.fits_body hv)
  · exact succeeds_pure _
  · exact succeeds_pure _
  · exact succeeds_pure _

theorem constraintAt_succ (depth : Nat) (v : Value) (hv : Form.constraint.fits v = true) :
    Succeeds (t.constraintAt (fuel + 1) depth v) := by
  unfold constraintAt
  split
  · next ms =>
    have hbinding : Form.binding.fits ((ms.lookup "binding").getD .null) = true :=
      Form.fits_part "binding" hv rfl
    obtain ⟨bs, hbs, hfits⟩ := Form.exists_record rfl hbinding
    refine (h.args _ _ (Form.fits_part "args" hv rfl)).bind fun args => ?_
    dsimp only
    rw [hbs]
    refine succeeds_mentions (fun e he => ?_) (succeeds_mentions (fun b hb => ?_) ?_)
    · have hterm : Form.term.fits e = true := Form.fits_of_lookup hfits he
      obtain ⟨es, hes, hterms⟩ := Form.exists_record rfl hterm
      refine succeeds_member he ?_
      rw [hes]
      refine succeeds_mentions (fun w hw => ?_) (succeeds_read rfl (succeeds_pure _))
      exact succeeds_member hw ((h.type _ _ (Form.fits_of_lookup hterms hw)).map _)
    · exact succeeds_member hb ((h.bounds _ _ (Form.fits_of_lookup hfits hb)).map _)
    · exact succeeds_pure _
  · exact succeeds_pure _

theorem boundsAt_succ (depth : Nat) (v : Value) (hv : Form.bounds.fits v = true) :
    Succeeds (t.boundsAt (fuel + 1) depth v) := by
  unfold boundsAt
  obtain ⟨bs, hbs, hall⟩ := Form.exists_elements rfl hv
  refine succeeds_read hbs ?_
  exact (succeeds_mapM fun b hb => h.bound _ _ (hall b (List.mem_of_mem_filter hb))).map _

theorem boundAt_succ (depth : Nat) (v : Value) (hv : Form.bound.fits v = true) :
    Succeeds (t.boundAt (fuel + 1) depth v) := by
  unfold boundAt
  split
  · next body =>
    have hbody : Form.traitBound.fits body = true := Form.fits_body hv
    obtain ⟨m, hm, -⟩ := Form.exists_field "modifier" rfl hbody rfl
    obtain ⟨p, hp, hparams⟩ := Form.exists_field "generic_params" rfl hbody rfl
    obtain ⟨b, hb⟩ := Form.exists_binder hparams
    obtain ⟨w, hw, hpath⟩ := Form.exists_field "trait" rfl hbody rfl
    exact succeeds_read hm (succeeds_read hp (succeeds_read hb
      (succeeds_read hw ((h.path _ _ hpath).map _))))
  · exact succeeds_pure _
  · next body =>
    have hbody : Form.anys.fits body = true := Form.fits_body hv
    obtain ⟨vs, hvs, -⟩ := Form.exists_elements rfl hbody
    exact succeeds_read hvs (succeeds_pure _)
  · exact succeeds_pure _

theorem polyTrait_succ (depth : Nat) (v : Value) (hv : Form.traitBound.fits v = true) :
    Succeeds (t.polyTrait (fuel + 1) depth v) := by
  unfold polyTrait
  obtain ⟨p, hp, hparams⟩ := Form.exists_field "generic_params" rfl hv rfl
  obtain ⟨b, hb⟩ := Form.exists_binder hparams
  obtain ⟨w, hw, hpath⟩ := Form.exists_field "trait" rfl hv rfl
  exact succeeds_read hp (succeeds_read hb (succeeds_read hw ((h.path _ _ hpath).map _)))

theorem dynTrait_succ (depth : Nat) (v : Value) (hv : Form.dynTrait.fits v = true) :
    Succeeds (t.dynTrait (fuel + 1) depth v.orObject) := by
  unfold dynTrait
  obtain ⟨w, hw, htraits⟩ := Form.exists_field "traits" rfl hv rfl
  obtain ⟨ps, hps, hall⟩ := Form.exists_elements rfl htraits
  obtain ⟨l, hl, -⟩ := Form.exists_field "lifetime" rfl hv rfl
  refine succeeds_read hw (succeeds_read hps ?_)
  exact (succeeds_mapM fun p hp => h.poly _ _ (hall p hp)).bind fun traits =>
    succeeds_read hl (succeeds_pure _)

theorem functionPointer_succ (depth : Nat) (v : Value) (hv : Form.pointer.fits v = true) :
    Succeeds (t.functionPointer (fuel + 1) depth v.orObject) := by
  unfold functionPointer
  obtain ⟨sig, hsig, hsignature⟩ := Form.exists_field "sig" rfl hv rfl
  obtain ⟨head, hhead, hheader⟩ := Form.exists_field "header" rfl hv rfl
  obtain ⟨p, hp, hparams⟩ := Form.exists_field "generic_params" rfl hv rfl
  obtain ⟨b, hb⟩ := Form.exists_binder hparams
  obtain ⟨u, hu, -⟩ := Form.exists_field "is_unsafe" rfl hheader rfl
  obtain ⟨a, ha, habi⟩ := Form.exists_field "abi" rfl hheader rfl
  obtain ⟨c, hc⟩ := Form.exists_pointerAbi habi
  obtain ⟨i, hi, hinputs⟩ := Form.exists_field "inputs" rfl hsignature rfl
  obtain ⟨is, his, hall⟩ := Form.exists_elements rfl hinputs
  obtain ⟨d, hd, -⟩ := Form.exists_field "is_c_variadic" rfl hsignature rfl
  obtain ⟨o, ho, hout⟩ := Form.exists_field "output" rfl hsignature rfl
  refine succeeds_read hsig (succeeds_read hhead (succeeds_read hp (succeeds_read hb ?_)))
  refine succeeds_read hu (succeeds_read ha (succeeds_read hc ?_))
  refine succeeds_read hi (succeeds_read his ?_)
  refine Succeeds.bind (succeeds_mapM fun pair hpair => ?_) fun inputs => ?_
  · obtain ⟨w, hw, hfits⟩ := Form.exists_second (hall pair hpair)
    exact succeeds_read hw (h.type _ _ hfits)
  · refine succeeds_read hd (succeeds_read ho ?_)
    split
    · exact succeeds_pure _
    · exact (h.type _ _ hout).map _

theorem qualifiedPath_succ (depth : Nat) (v : Value) (hv : Form.qualified.fits v = true) :
    Succeeds (t.qualifiedPath (fuel + 1) depth v.orObject) := by
  unfold qualifiedPath
  obtain ⟨n, hn, -⟩ := Form.exists_field "name" rfl hv rfl
  obtain ⟨a, ha, hargs⟩ := Form.exists_field "args" rfl hv rfl
  obtain ⟨w, hw, hself⟩ := Form.exists_field "self_type" rfl hv rfl
  obtain ⟨p, hp, hpath⟩ := Form.exists_field "trait" rfl hv rfl
  refine succeeds_read hn (succeeds_read ha ((h.args _ _ hargs).bind fun args => ?_))
  refine succeeds_read hw (succeeds_read hp ((h.type _ _ hself).bind fun self => ?_))
  split
  · exact succeeds_pure _
  · exact (h.path _ _ hpath).map _

/-- Each rule is made of rules with less fuel, on the parts of its value. -/
theorem succ : WritesAt t (fuel + 1) where
  type := h.typeAt_succ
  path := h.pathAt_succ
  args := h.argsAt_succ
  arg := h.argAt_succ
  constraint := h.constraintAt_succ
  bounds := h.boundsAt_succ
  bound := h.boundAt_succ
  poly := h.polyTrait_succ
  dyn := h.dynTrait_succ
  pointer := h.functionPointer_succ
  qualified := h.qualifiedPath_succ
  types := by
    intro depth vs hvs
    unfold typesAt
    exact succeeds_mapM fun v hv => h.type _ _ (hvs v hv)

end WritesAt

theorem writesAt (fuel : Nat) : WritesAt t fuel := by
  induction fuel with
  | zero => exact writesAt_zero
  | succ fuel ih => exact ih.succ

theorem succeeds_type {v : Value} (h : Form.type.fits v = true) : Succeeds (t.type v) :=
  (writesAt _).type _ _ h

theorem succeeds_path {v : Value} (h : Form.path.fits v = true) : Succeeds (t.path v) :=
  (writesAt _).path _ _ h

theorem succeeds_bounds {v : Value} (h : Form.bounds.fits v = true) : Succeeds (t.bounds v) :=
  (writesAt _).bounds _ _ h

theorem exists_lifetimeParam {ks : List (String × Value)} (name : String)
    (h : Form.paramKind.fits (.object ks) = true) {w : Value}
    (hw : ks.lookup "lifetime" = some w) :
    ∃ ss, lifetimeParam name (.object ks) = .ok ss := by
  obtain ⟨o, ho, hwords⟩ := Form.exists_field "outlives" rfl (Form.fits_of_lookup h hw) rfl
  obtain ⟨vs, hvs, hall⟩ := Form.exists_elements rfl hwords
  obtain ⟨s, hs⟩ := Form.exists_joinTexts " + " hall
  have hmember : (Value.object ks).member "lifetime" = .ok w := by rw [Value.member, hw]
  refine Checked.exists_bind hmember (Checked.exists_bind ho (Checked.exists_bind hvs ?_))
  split
  · exact ⟨_, rfl⟩
  · exact Checked.exists_bind hs ⟨_, rfl⟩

theorem succeeds_typeParam (name : String) {v : Value} (h : Form.typeParam.fits v = true) :
    Succeeds (t.typeParam name v.orObject) := by
  obtain ⟨b, hb, hbounds⟩ := Form.exists_field "bounds" rfl h rfl
  obtain ⟨d, hd, hdefault⟩ := Form.exists_field "default" rfl h rfl
  unfold typeParam
  refine succeeds_read hb ?_
  have hlast (bounded : List Segment) : Succeeds (do
      let default ← v.orObject.field "default"
      let defaulted ←
        if default.isNull then pure [] else do pure (Segment.lit " = " ++ (← t.type default))
      return Segment.lit name ++ bounded ++ defaulted : Writing) := by
    refine succeeds_read hd ?_
    split
    · exact succeeds_pure _
    · exact (succeeds_type hdefault).bind fun _ => succeeds_pure _
  dsimp only
  split
  · exact (succeeds_bounds hbounds).bind fun _ => hlast _
  · exact hlast []

theorem succeeds_constParam (name : String) {v : Value} (h : Form.typed.fits v = true) :
    Succeeds (t.constParam name v.orObject) := by
  obtain ⟨w, hw, htype⟩ := Form.exists_field "type" rfl h rfl
  obtain ⟨d, hd, -⟩ := Form.exists_field "default" rfl h rfl
  exact succeeds_read hw ((succeeds_type htype).bind fun _ => succeeds_read hd (succeeds_pure _))

theorem succeeds_genericParam {p : Value} (h : Form.param.fits p = true) :
    Succeeds (t.genericParam p) := by
  unfold genericParam
  split
  · next ms =>
    have hkind : Form.paramKind.fits ((ms.lookup "kind").getD .null) = true :=
      Form.fits_part "kind" h rfl
    obtain ⟨ks, hks, hfits⟩ := Form.exists_record rfl hkind
    dsimp only
    rw [hks]
    refine succeeds_mentions (fun w hw => ?_) (succeeds_mentions (fun w hw => ?_)
      (succeeds_mentions (fun w hw => ?_) (succeeds_pure _)))
    · split
      · exact succeeds_pure _
      · obtain ⟨ss, hss⟩ := exists_lifetimeParam _ hfits hw
        exact succeeds_read hss (succeeds_pure _)
    · have hbody : Form.typeParam.fits w = true := Form.fits_of_lookup hfits hw
      obtain ⟨s, hs, -⟩ := Form.exists_field "is_synthetic" rfl hbody rfl
      refine succeeds_member hw (succeeds_read hs ?_)
      split
      · exact succeeds_pure _
      · exact (succeeds_typeParam _ hbody).map _
    · exact succeeds_member hw
        ((succeeds_constParam _ (Form.fits_of_lookup hfits hw)).map _)
  · exact succeeds_pure _

theorem succeeds_genericParams {ps : List Value} (h : ∀ p ∈ ps, Form.param.fits p = true) :
    Succeeds (t.genericParams ps) := by
  unfold genericParams
  refine (succeeds_mapM fun p hp => succeeds_genericParam (h p hp)).bind fun shown => ?_
  dsimp only
  split <;> exact succeeds_pure _

theorem succeeds_wherePredicate (m : Markup) {p : Value} (h : Form.predicate.fits p = true) :
    Succeeds (t.wherePredicate m p) := by
  unfold wherePredicate
  split
  · next body =>
    have hbody : Form.boundPredicate.fits body = true := Form.fits_body h
    obtain ⟨b, hb, hbounds⟩ := Form.exists_field "bounds" rfl hbody rfl
    obtain ⟨g, hg, hparams⟩ := Form.exists_field "generic_params" rfl hbody rfl
    obtain ⟨f, hf⟩ := Form.exists_binder hparams
    obtain ⟨w, hw, htype⟩ := Form.exists_field "type" rfl hbody rfl
    refine succeeds_read hb ((succeeds_bounds hbounds).bind fun bounds => ?_)
    split
    · exact succeeds_pure _
    · exact succeeds_read hg (succeeds_read hf (succeeds_read hw ((succeeds_type htype).map _)))
  · next body =>
    have hbody : Form.outlives.fits body = true := Form.fits_body h
    obtain ⟨o, ho, hwords⟩ := Form.exists_field "outlives" rfl hbody rfl
    obtain ⟨vs, hvs, hall⟩ := Form.exists_elements rfl hwords
    obtain ⟨s, hs⟩ := Form.exists_joinTexts " + " hall
    obtain ⟨l, hl, -⟩ := Form.exists_field "lifetime" rfl hbody rfl
    exact succeeds_read ho (succeeds_read hvs (succeeds_read hs
      (succeeds_read hl (succeeds_pure _))))
  · next body =>
    have hbody : Form.equation.fits body = true := Form.fits_body h
    obtain ⟨r, hr, hterm⟩ := Form.exists_field "rhs" rfl hbody rfl
    obtain ⟨rs, hrs, hfits⟩ := Form.exists_record rfl hterm
    obtain ⟨l, hl, htype⟩ := Form.exists_field "lhs" rfl hbody rfl
    have hlast (right : List Segment) : Succeeds (do
        let left ← t.type (← body.orObject.field "lhs")
        return some (left ++ Segment.lit " = " ++ right) : Noting (Option (List Segment))) :=
      succeeds_read hl ((succeeds_type htype).map _)
    refine succeeds_read hr ?_
    dsimp only
    rw [hrs]
    refine succeeds_mentions (fun w hw => ?_) ?_
    · exact succeeds_member hw
        ((succeeds_type (Form.fits_of_lookup hfits hw)).bind hlast)
    · exact succeeds_read rfl (hlast _)
  · exact succeeds_pure _

theorem succeeds_wherePredicates (m : Markup) {ps : List Value}
    (h : ∀ p ∈ ps, Form.predicate.fits p = true) : Succeeds (t.wherePredicates m ps) :=
  (succeeds_mapM fun p hp => succeeds_wherePredicate m (h p hp)).map _

end TypeText

end CrateBook
