import CrateBook.Proofs.Marks
import CrateBook.Proofs.Modes
import CrateBook.Proofs.Shapes

/-!
# Types and their shapes

A value of an export is a type of some shape; it may tell more, such as ids and names of
parameters, that no text of a type shows. What the rules write for it is the text of its shape, cut
off below the greatest depth. The rules spend fuel, and that text comes out as soon as there is
enough of it.
-/
namespace CrateBook

/-! ## Values -/

/-- A member of an object, null where it is missing. -/
def Value.part (ms : List (String × Value)) (k : String) : Value := (ms.lookup k).getD .null

open Value (part)

/-- There are no generic arguments. -/
def Value.NoArgs (v : Value) : Prop :=
  v.isSet = false ∨ ∃ ms, v = .object [("angle_bracketed", .object ms)] ∧
    (part ms "args").isSet = false ∧ (part ms "constraints").isSet = false

/-- The header of a pointer says this about its callee. -/
def PointerHead.Denotes (h : PointerHead) (ms : List (String × Value)) : Prop :=
  (part ms "is_unsafe").isSet = h.isUnsafe ∧
    match h.abi with
    | none => (part ms "abi").isSet = false ∨ part ms "abi" = .str "Rust"
    | some s => (part ms "abi" = .str s.val ∧ s.val ≠ "" ∧ s.val ≠ "Rust") ∨
      ∃ w more, part ms "abi" = .object ((s.val, w) :: more)

mutual

/-- The value is a type of this shape. -/
def Shape.Denotes : Shape → Value → Prop
  | .dots, _ => False
  | .name n, v => v = .object [("generic", .str n.text)]
  | .ref isMutable t, v => ∃ ms, v = .object [("borrowed_ref", .object ms)] ∧
      (part ms "lifetime").isSet = false ∧ (part ms "is_mutable").isSet = isMutable ∧
      t.Denotes (part ms "type")
  | .dyn b bs, v => ∃ ms w ws, v = .object [("dyn_trait", .object ms)] ∧
      (part ms "lifetime").isSet = false ∧ part ms "traits" = .list (w :: ws) ∧
      b.Denotes w ∧ Bound.DenoteAll bs ws
  | .tuple ts, v => ∃ vs, v = .object [("tuple", .list vs)] ∧ Shape.DenoteAll false ts vs
  | .slice t, v => ∃ w, v = .object [("slice", w)] ∧ t.Denotes w
  | .pointer head ts out, v => ∃ ms sig header ps vs,
      v = .object [("function_pointer", .object ms)] ∧
      (part ms "generic_params").isSet = false ∧ (part ms "sig").orObject = .object sig ∧
      (part ms "header").orObject = .object header ∧ head.Denotes header ∧
      (part sig "inputs").elementsOrNone = .ok ps ∧
      List.Forall₂ (fun p v => ∃ n, p = .list [n, v]) ps vs ∧
      Shape.DenoteAll (part sig "is_c_variadic").isSet ts vs ∧
      Shape.OutputDenotes out (part sig "output")

/-- The value is this trait of a trait object. -/
def Bound.Denotes : Bound → Value → Prop
  | .plain n, v => ∃ ms path, v = .object ms ∧ (part ms "generic_params").isSet = false ∧
      part ms "trait" = .object path ∧ part path "path" = .str n.text ∧
      (part path "args").NoArgs
  | .called n ts out, v => ∃ ms path args vs, v = .object ms ∧
      (part ms "generic_params").isSet = false ∧ part ms "trait" = .object path ∧
      part path "path" = .str n.text ∧
      part path "args" = .object [("parenthesized", .object args)] ∧
      (part args "inputs").elementsOrNone = .ok vs ∧ Shape.DenoteAll false ts vs ∧
      Shape.OutputDenotes out (part args "output")

/-- The values are types of these shapes. Dots at the end stand for no value, but for more
arguments that a variadic pointer takes. -/
def Shape.DenoteAll : Bool → List Shape → List Value → Prop
  | isVariadic, [], vs => isVariadic = false ∧ vs = []
  | isVariadic, t :: ts, [] => isVariadic = true ∧ t = .dots ∧ ts = []
  | isVariadic, t :: ts, v :: vs => t.Denotes v ∧ Shape.DenoteAll isVariadic ts vs

def Bound.DenoteAll : List Bound → List Value → Prop
  | [], vs => vs = []
  | _ :: _, [] => False
  | b :: bs, v :: vs => b.Denotes v ∧ Bound.DenoteAll bs vs

/-- The value is an output of this shape, or null where there is none. -/
def Shape.OutputDenotes : Option Shape → Value → Prop
  | none, v => v.isNull = true
  | some t, v => t.Denotes v

end

/-- No shape denotes null. -/
theorem Shape.Denotes.isNull {t : Shape} {v : Value} (h : t.Denotes v) : v.isNull = false := by
  cases t with
  | dots => exact absurd h (by simp [Shape.Denotes])
  | name n =>
    rw [Shape.Denotes] at h
    subst h
    rfl
  | ref isMutable t =>
    obtain ⟨ms, rfl, -⟩ := h
    rfl
  | dyn b bs =>
    obtain ⟨ms, w, ws, rfl, -⟩ := h
    rfl
  | tuple ts =>
    obtain ⟨vs, rfl, -⟩ := h
    rfl
  | slice t =>
    obtain ⟨w, rfl, -⟩ := h
    rfl
  | pointer head ts out =>
    obtain ⟨ms, sig, header, ps, vs, rfl, -⟩ := h
    rfl

namespace Value

theorem field_object (ms : List (String × Value)) (k : String) :
    (Value.object ms).field k = .ok (part ms k) := rfl

theorem orObject_object (ms : List (String × Value)) : (Value.object ms).orObject = .object ms := by
  cases ms <;> rfl

theorem elementsOrNone_list (vs : List Value) : (Value.list vs).elementsOrNone = .ok vs := by
  cases vs <;> rfl

theorem elementsOrNone_of_not_isSet {v : Value} (h : v.isSet = false) :
    v.elementsOrNone = .ok [] := by
  rw [elementsOrNone, h]
  rfl

end Value

/-! ## What the rules write -/

namespace Noting

variable {α β : Type}

theorem result_bind {x : Noting α} {a : α} (h : x.result = .ok a) (f : α → Noting β) :
    (x >>= f).result = (f a).result := by
  rw [bind_ok h]

theorem result_lift_bind {c : Checked α} {a : α} (h : c = .ok a) (f : α → Noting β) :
    ((liftM c : Noting α) >>= f).result = (f a).result := by
  subst h
  rfl

end Noting

open Noting (result_bind result_lift_bind)

theorem Text.afterLastColons?_of_notMem {cs : List Char} (h : ':' ∉ cs) :
    afterLastColons? cs = none := by
  induction cs with
  | nil => rfl
  | cons c cs ih =>
    obtain ⟨hc, hcs⟩ := not_or.1 (List.mem_cons.not.1 h)
    rw [afterLastColons?, ih hcs]
    exact fun _ hfirst _ => hc hfirst.symm

theorem TypeName.shownName_text (n : TypeName) : TypeText.shownName n.text = n.text := by
  have hcolon : ':' ∉ n.text.toList := fun hmem => absurd (n.unbroken _ hmem) (by decide)
  have hlast : Text.lastSegment n.text = n.text := by
    rw [Text.lastSegment, Text.afterLastColons?_of_notMem hcolon]
  rw [TypeText.shownName, hlast]
  exact ite_self _

namespace Formatter

/-- A formatter that writes texts and names as they are. -/
structure Plain (F : Formatter) : Prop where
  text : ∀ s, F.text s = s
  name : ∀ id s, (F.name id s).result = .ok s

/-- How many types are written in each other from a depth on. -/
def levels (F : Formatter) (depth : Nat) : Nat := (F.maxDepth + 1 - depth).toNat

variable {F : Formatter} {fuel depth : Nat}

theorem levels_eq_zero (h : F.maxDepth < depth) : F.levels depth = 0 := by
  unfold levels
  omega

theorem levels_eq_succ (h : ¬F.maxDepth < depth) : F.levels depth = F.levels (depth + 1) + 1 := by
  unfold levels
  omega

theorem binder_of_not_isSet {v : Value} (h : v.isSet = false) : F.binder v = .ok "" := by
  rw [binder, Value.elementsOrNone_of_not_isSet h]
  rfl

theorem argsAt_of_noArgs {v : Value} (h : v.NoArgs) :
    (F.argsAt (fuel + 1) depth v).result = .ok "" := by
  rcases h with h | ⟨ms, rfl, hargs, hconstraints⟩
  · rw [argsAt.eq_def]
    dsimp only
    split
    · cases h
    · cases h
    · rfl
  · rw [argsAt, Value.orObject_object, result_lift_bind (Value.field_object ms "args"),
      result_lift_bind (Value.elementsOrNone_of_not_isSet hargs), List.mapM_nil, pure_bind,
      result_lift_bind (Value.field_object ms "constraints"),
      result_lift_bind (Value.elementsOrNone_of_not_isSet hconstraints), List.mapM_nil, pure_bind]
    rfl

/-- A trait is written as its name and what its arguments come to. -/
theorem polyTrait_named (hF : F.Plain) {ms path : List (String × Value)} {n : TypeName}
    {args : String} (hparams : (part ms "generic_params").isSet = false)
    (htrait : part ms "trait" = .object path) (hpath : part path "path" = .str n.text)
    (hargs : (F.argsAt fuel depth (part path "args")).result = .ok args) :
    (F.polyTrait (fuel + 2) depth (.object ms)).result = .ok (n.text ++ args) := by
  have hshown : ((path.lookup "path").getD .null).textOr "" = n.text := by
    change (part path "path").textOr "" = n.text
    rw [hpath, Value.textOr]
    exact if_pos (by simpa [Value.isSet] using n.nonempty)
  have hnamed : (F.pathAt (fuel + 1) depth (.object path)).result = .ok (n.text ++ args) := by
    rw [pathAt]
    dsimp only
    rw [hshown, n.shownName_text, result_bind (hF.name _ _)]
    exact (result_bind hargs _).trans rfl
  rw [polyTrait, Value.orObject_object,
    result_lift_bind (Value.field_object ms "generic_params"),
    result_lift_bind (binder_of_not_isSet hparams),
    result_lift_bind (Value.field_object ms "trait"), htrait, result_bind hnamed]
  exact congrArg Except.ok String.empty_append

/-- What is written in parentheses behind a front, and what comes out of them. -/
theorem result_call (hF : F.Plain) {front start : String} (inputs : List String)
    {out : Option Shape} {v : Value} {x : Noting String} {n : Nat} (hstart : start = front ++ "(")
    (hv : Shape.OutputDenotes out v) (hout : ∀ t, out = some t → x.result = .ok (t.cut n).text) :
    (if v.isNull then pure (start ++ F.join ", " inputs ++ F.text ")")
      else do
        return start ++ F.join ", " inputs ++ F.text ")" ++ F.text " -> " ++ (← x) :
      Noting String).result =
      .ok (front ++ callText inputs (Shape.outputText (Shape.cutOutput n out))) := by
  simp only [hF.text, join, hstart]
  cases out with
  | none =>
    rw [Shape.OutputDenotes] at hv
    rw [hv, if_pos rfl, Shape.cutOutput, Shape.outputText, callText, Option.map_none,
      Option.getD_none, String.append_empty, ← String.append_assoc, ← String.append_assoc]
    rfl
  | some t =>
    rw [Shape.OutputDenotes] at hv
    rw [hv.isNull, if_neg (by decide), result_bind (hout t rfl), Shape.cutOutput, Shape.outputText,
      callText, Option.map_some, Option.getD_some]
    exact congrArg Except.ok (by simp only [String.append_assoc])

theorem argsAt_called (hF : F.Plain) {args : List (String × Value)} {vs : List Value}
    {es : List String} {out : Option Shape} {n : Nat}
    (hinputs : (part args "inputs").elementsOrNone = .ok vs)
    (hes : (vs.mapM (F.typeAt fuel depth)).result = .ok es)
    (hv : Shape.OutputDenotes out (part args "output"))
    (hout : ∀ t, out = some t →
      (F.typeAt (fuel + 1) depth (part args "output")).result = .ok (t.cut n).text) :
    (F.argsAt (fuel + 2) depth (.object [("parenthesized", .object args)])).result =
      .ok (callText es (Shape.outputText (Shape.cutOutput n out))) := by
  have hcall := result_call hF es ((hF.text "(").trans String.empty_append.symm) hv hout
  rw [String.empty_append] at hcall
  rw [argsAt, Value.orObject_object, result_lift_bind (Value.field_object args "inputs"),
    result_lift_bind hinputs, typesAt, result_bind hes,
    result_lift_bind (Value.field_object args "output")]
  exact hcall

/-- The calling convention is written as the head of the pointer says. -/
theorem pointerAbi_head (hF : F.Plain) {head : PointerHead} {header : List (String × Value)}
    (h : head.Denotes header) : F.pointerAbi (part header "abi") =
      .ok ((head.abi.map fun s => "extern \"" ++ s.val ++ "\" ").getD "") := by
  obtain ⟨-, h⟩ := h
  unfold pointerAbi
  cases habi : head.abi with
  | none =>
    rw [habi] at h
    rcases h with h | h
    · rw [h]
      rfl
    · rw [h]
      rfl
  | some s =>
    rw [habi] at h
    rw [Option.map_some, Option.getD_some]
    rcases h with ⟨h, hset, hrust⟩ | ⟨w, more, h⟩
    · have hisSet : (Value.str s.val).isSet = true := by simpa [Value.isSet] using hset
      rw [h, hisSet]
      rw [if_neg (by decide)]
      split
      · next heq => exact absurd (Value.str.inj heq) hrust
      · next heq =>
        rw [hF.text, ← Value.str.inj heq]
        rfl
      · next hno => exact absurd rfl (hno s.val)
    · rw [h, ← hF.text ("extern \"" ++ s.val ++ "\" ")]
      rfl

theorem mapM_pairs {ps vs : List Value} (h : List.Forall₂ (fun p v => ∃ n, p = .list [n, v]) ps vs)
    (rule : Value → Noting String) :
    (ps.mapM fun pair => do rule (← pair.element 1)) = vs.mapM rule := by
  induction h with
  | nil => rfl
  | cons hp _ ih =>
    obtain ⟨n, rfl⟩ := hp
    rw [List.mapM_cons, List.mapM_cons, ih]
    rfl

theorem functionPointer_head (hF : F.Plain) {ms sig header : List (String × Value)}
    {head : PointerHead} {ps vs : List Value} {es : List String} {out : Option Shape} {n : Nat}
    (hparams : (part ms "generic_params").isSet = false)
    (hsig : (part ms "sig").orObject = .object sig)
    (hheader : (part ms "header").orObject = .object header) (hhead : head.Denotes header)
    (hinputs : (part sig "inputs").elementsOrNone = .ok ps)
    (hpairs : List.Forall₂ (fun p v => ∃ n, p = .list [n, v]) ps vs)
    (hes : (vs.mapM (F.typeAt fuel depth)).result = .ok es)
    (hv : Shape.OutputDenotes out (part sig "output"))
    (hout : ∀ t, out = some t →
      (F.typeAt fuel depth (part sig "output")).result = .ok (t.cut n).text) :
    (F.functionPointer (fuel + 1) depth (.object ms)).result =
      .ok (head.text ++ callText
        (es ++ if (part sig "is_c_variadic").isSet then ["..."] else [])
        (Shape.outputText (Shape.cutOutput n out))) := by
  have hstart : "" ++ (if (part header "is_unsafe").isSet then F.text "unsafe " else "") ++
      (head.abi.map fun s => "extern \"" ++ s.val ++ "\" ").getD "" ++ F.text "fn(" =
        head.text ++ "(" := by
    have hfn : "fn(" = "fn" ++ "(" := by decide
    simp only [hF.text, hhead.1, String.empty_append, PointerHead.text, hfn, String.append_assoc]
  rw [functionPointer, result_lift_bind (Value.field_object ms "sig"), hsig,
    result_lift_bind (Value.field_object ms "header"), hheader,
    result_lift_bind (Value.field_object ms "generic_params"),
    result_lift_bind (binder_of_not_isSet hparams),
    result_lift_bind (Value.field_object header "is_unsafe"),
    result_lift_bind (Value.field_object header "abi"), result_lift_bind (pointerAbi_head hF hhead),
    result_lift_bind (Value.field_object sig "inputs"), result_lift_bind hinputs,
    mapM_pairs hpairs, result_bind hes, result_lift_bind (Value.field_object sig "is_c_variadic"),
    result_lift_bind (Value.field_object sig "output"), hF.text "..."]
  exact result_call hF _ hstart hv hout

section

variable {body : Value} (hdepth : ¬F.maxDepth < depth)

include hdepth

theorem typeAt_generic : F.typeAt (fuel + 1) depth (.object [("generic", body)]) =
    pure (F.text body.text) := by
  rw [typeAt, if_neg hdepth]
  rfl

theorem typeAt_ref : F.typeAt (fuel + 1) depth (.object [("borrowed_ref", body)]) = do
    let ref ← TypeText.referenceText body.orObject
    return F.text ref ++ (← F.typeAt fuel (depth + 1) (← body.orObject.field "type")) := by
  rw [typeAt, if_neg hdepth]
  rfl

theorem typeAt_dyn : F.typeAt (fuel + 1) depth (.object [("dyn_trait", body)]) =
    F.dynTrait fuel (depth + 1) body.orObject := by
  rw [typeAt, if_neg hdepth]
  rfl

theorem typeAt_tuple : F.typeAt (fuel + 1) depth (.object [("tuple", body)]) = do
    let elems ← F.typesAt fuel (depth + 1) (← body.elementsOrNone)
    match elems with
    | [e] => return F.text "(" ++ e ++ F.text ",)"
    | es => return F.text "(" ++ F.join ", " es ++ F.text ")" := by
  rw [typeAt, if_neg hdepth]
  rfl

theorem typeAt_slice : F.typeAt (fuel + 1) depth (.object [("slice", body)]) = do
    return F.text "[" ++ (← F.typeAt fuel (depth + 1) body) ++ F.text "]" := by
  rw [typeAt, if_neg hdepth]
  rfl

theorem typeAt_pointer : F.typeAt (fuel + 1) depth (.object [("function_pointer", body)]) =
    F.functionPointer fuel (depth + 1) body.orObject := by
  rw [typeAt, if_neg hdepth]
  rfl

end

/-- Below the greatest depth dots are written, whatever stands there. -/
theorem finally_typeAt (hF : F.Plain) {s : Shape} {v : Value} {rule : Nat → Noting String}
    (hrule : ∀ fuel, ¬F.maxDepth < depth → F.typeAt (fuel + 1) depth v = rule fuel)
    (h : Finally fun fuel => (rule fuel).result = .ok (s.cut (F.levels (depth + 1) + 1)).text) :
    Finally fun fuel => (F.typeAt fuel depth v).result = .ok (s.cut (F.levels depth)).text := by
  refine h.spend fun fuel hfuel => ?_
  by_cases hdepth : F.maxDepth < depth
  · rw [levels_eq_zero hdepth, typeAt.eq_def]
    dsimp only
    rw [if_pos hdepth, hF.text, Shape.cut, Shape.text]
    rfl
  · rw [levels_eq_succ hdepth, hrule fuel hdepth, hfuel]

theorem referenceText_object {ms : List (String × Value)} {isMutable : Bool}
    (hlifetime : (part ms "lifetime").isSet = false)
    (hmutable : (part ms "is_mutable").isSet = isMutable) :
    TypeText.referenceText (.object ms) = .ok ("&" ++ if isMutable then "mut " else "") := by
  rw [TypeText.referenceText]
  change (if (!(part ms "lifetime").isSet) = true then _ else _) = _
  rw [hlifetime, ← hmutable]
  rfl

theorem dynTrait_bounds (hF : F.Plain) {ms : List (String × Value)} {ws : List Value}
    {es : List String} (hlifetime : (part ms "lifetime").isSet = false)
    (htraits : part ms "traits" = .list ws)
    (hes : (ws.mapM (F.polyTrait fuel depth)).result = .ok es) :
    (F.dynTrait (fuel + 1) depth (.object ms)).result = .ok ("dyn " ++ " + ".intercalate es) := by
  rw [dynTrait, result_lift_bind (Value.field_object ms "traits"), htraits,
    result_lift_bind (Value.elementsOrNone_list ws), result_bind hes,
    result_lift_bind (Value.field_object ms "lifetime"), hlifetime, if_neg (by decide),
    List.append_nil]
  simp only [join, hF.text]
  rfl

theorem result_tuple (hF : F.Plain) {vs : List Value} {es : List String}
    (hes : (vs.mapM (F.typeAt fuel depth)).result = .ok es) :
    (do
      let elems ← F.typesAt (fuel + 1) depth (← (Value.list vs).elementsOrNone)
      match elems with
      | [e] => return F.text "(" ++ e ++ F.text ",)"
      | es => return F.text "(" ++ F.join ", " es ++ F.text ")" : Noting String).result =
      .ok ("(" ++ tupleText es ++ ")") := by
  rw [result_lift_bind (Value.elementsOrNone_list vs), typesAt, result_bind hes]
  have hcomma : ",)" = "," ++ ")" := by decide
  rcases es with _ | ⟨e, _ | ⟨e', es⟩⟩
  · simp only [hF.text, join]
    rfl
  · simp only [hF.text, hcomma, tupleText, String.append_assoc]
    rfl
  · simp only [hF.text, join]
    rfl

mutual

/-- The text of a shape is what the rules write for each of its values. -/
theorem written_shape (hF : F.Plain) : ∀ (s : Shape) (v : Value), s.Denotes v → ∀ depth : Nat,
    Finally fun fuel => (F.typeAt fuel depth v).result = .ok (s.cut (F.levels depth)).text
  | .dots, v, h, depth => absurd h (by simp [Shape.Denotes])
  | .name n, v, h, depth => by
    rw [Shape.Denotes] at h
    subst h
    refine finally_typeAt hF (fun fuel hdepth => typeAt_generic hdepth) (.always fun _ => ?_)
    rw [hF.text, Shape.cut, Shape.text]
    rfl
  | .ref isMutable t, v, h, depth => by
    obtain ⟨ms, rfl, hlifetime, hmutable, ht⟩ := h
    refine finally_typeAt hF (fun fuel hdepth => typeAt_ref hdepth) ?_
    refine (written_shape hF t _ ht (depth + 1)).imp fun fuel hinner => ?_
    rw [Value.orObject_object, result_lift_bind (referenceText_object hlifetime hmutable),
      result_lift_bind (Value.field_object ms "type"), result_bind hinner, hF.text, Shape.cut,
      Shape.text]
    rfl
  | .dyn b bs, v, h, depth => by
    obtain ⟨ms, w, ws, rfl, hlifetime, htraits, hb, hbs⟩ := h
    refine finally_typeAt hF (fun fuel hdepth => typeAt_dyn hdepth) ?_
    have hbounds := written_bounds hF (b :: bs) (w :: ws) ⟨hb, hbs⟩ (depth + 1)
    refine hbounds.spend fun fuel hes => ?_
    rw [Value.orObject_object, dynTrait_bounds hF hlifetime htraits hes, Shape.cut, Shape.text,
      Bound.cutAll, Bound.texts]
  | .tuple ts, v, h, depth => by
    obtain ⟨vs, rfl, hts⟩ := h
    refine finally_typeAt hF (fun fuel hdepth => typeAt_tuple hdepth) ?_
    obtain ⟨es, htexts, hes⟩ := written_shapes hF false ts vs hts (depth + 1)
    refine hes.spend fun fuel hes => ?_
    rw [result_tuple hF hes, Shape.cut, Shape.text, htexts, if_neg (by decide), List.append_nil]
  | .slice t, v, h, depth => by
    obtain ⟨w, rfl, ht⟩ := h
    refine finally_typeAt hF (fun fuel hdepth => typeAt_slice hdepth) ?_
    refine (written_shape hF t w ht (depth + 1)).imp fun fuel hinner => ?_
    rw [result_bind hinner, hF.text, hF.text, Shape.cut, Shape.text]
    rfl
  | .pointer head ts out, v, h, depth => by
    obtain ⟨ms, sig, header, ps, vs, rfl, hparams, hsig, hheader, hhead, hinputs, hpairs, hts,
      hout⟩ := h
    refine finally_typeAt hF (fun fuel hdepth => typeAt_pointer hdepth) ?_
    obtain ⟨es, htexts, hes⟩ := written_shapes hF _ ts vs hts (depth + 1)
    refine (hes.and (written_output hF out _ hout (depth + 1))).spend fun fuel hinner => ?_
    rw [Value.orObject_object, functionPointer_head hF hparams hsig hheader hhead hinputs hpairs
      hinner.1 hout hinner.2, ← htexts, Shape.cut, Shape.text]

theorem written_bound (hF : F.Plain) : ∀ (b : Bound) (v : Value), b.Denotes v → ∀ depth : Nat,
    Finally fun fuel => (F.polyTrait fuel depth v).result = .ok (b.cut (F.levels depth)).text
  | .plain n, v, h, depth => by
    obtain ⟨ms, path, rfl, hparams, htrait, hpath, hargs⟩ := h
    refine ⟨3, fun fuel hfuel => ?_⟩
    obtain ⟨fuel, rfl⟩ := Nat.exists_eq_add_of_le' hfuel
    rw [polyTrait_named hF hparams htrait hpath (argsAt_of_noArgs hargs), Bound.cut, Bound.text,
      String.append_empty]
  | .called n ts out, v, h, depth => by
    obtain ⟨ms, path, args, vs, rfl, hparams, htrait, hpath, hargs, hinputs, hts, hout⟩ := h
    obtain ⟨es, htexts, hes⟩ := written_shapes hF false ts vs hts depth
    obtain ⟨least, hleast⟩ := hes.and (written_output hF out _ hout depth)
    refine ⟨least + 4, fun fuel hfuel => ?_⟩
    obtain ⟨more, rfl⟩ := Nat.exists_eq_add_of_le hfuel
    have hinputs' := (hleast (least + more) (by omega)).1
    have houtput := (hleast (least + more + 1) (by omega)).2
    have hcall := argsAt_called hF hinputs hinputs' hout houtput
    rw [show least + 4 + more = least + more + 2 + 2 by omega,
      polyTrait_named hF hparams htrait hpath (hargs ▸ hcall), Bound.cut, Bound.text, htexts,
      if_neg (by decide), List.append_nil]

theorem written_shapes (hF : F.Plain) : ∀ (isVariadic : Bool) (ts : List Shape) (vs : List Value),
    Shape.DenoteAll isVariadic ts vs → ∀ depth : Nat, ∃ es,
      Shape.texts (Shape.cutAll (F.levels depth) ts) = (es ++ if isVariadic then ["..."] else []) ∧
        Finally fun fuel => (vs.mapM (F.typeAt fuel depth)).result = .ok es
  | isVariadic, [], vs, h, depth => by
    obtain ⟨rfl, rfl⟩ := h
    refine ⟨[], ?_, .always fun _ => rfl⟩
    rw [Shape.cutAll, Shape.texts]
    rfl
  | isVariadic, t :: ts, [], h, depth => by
    obtain ⟨rfl, rfl, rfl⟩ := h
    refine ⟨[], ?_, .always fun _ => rfl⟩
    rw [Shape.cutAll, Shape.cut_dots, Shape.cutAll, Shape.texts, Shape.text, Shape.texts]
    rfl
  | isVariadic, t :: ts, v :: vs, h, depth => by
    obtain ⟨ht, hts⟩ := h
    obtain ⟨es, htexts, hes⟩ := written_shapes hF isVariadic ts vs hts depth
    refine ⟨(t.cut (F.levels depth)).text :: es, ?_, ?_⟩
    · rw [Shape.cutAll, Shape.texts, htexts]
      rfl
    · refine ((written_shape hF t v ht depth).and hes).imp fun fuel hfuel => ?_
      rw [List.mapM_cons, result_bind hfuel.1, result_bind hfuel.2]
      rfl

theorem written_bounds (hF : F.Plain) : ∀ (bs : List Bound) (vs : List Value),
    Bound.DenoteAll bs vs → ∀ depth : Nat, Finally fun fuel =>
      (vs.mapM (F.polyTrait fuel depth)).result =
        .ok (Bound.texts (Bound.cutAll (F.levels depth) bs))
  | [], vs, h, depth => by
    rw [Bound.DenoteAll] at h
    subst h
    refine .always fun fuel => ?_
    rw [Bound.cutAll, Bound.texts]
    rfl
  | b :: bs, [], h, depth => absurd h (by simp [Bound.DenoteAll])
  | b :: bs, v :: vs, h, depth => by
    obtain ⟨hb, hbs⟩ := h
    refine ((written_bound hF b v hb depth).and (written_bounds hF bs vs hbs depth)).imp ?_
    intro fuel hfuel
    rw [List.mapM_cons, result_bind hfuel.1, result_bind hfuel.2, Bound.cutAll, Bound.texts]
    rfl

theorem written_output (hF : F.Plain) : ∀ (out : Option Shape) (v : Value),
    Shape.OutputDenotes out v → ∀ depth : Nat, Finally fun fuel => ∀ t, out = some t →
      (F.typeAt fuel depth v).result = .ok (t.cut (F.levels depth)).text
  | none, v, _, depth => Finally.always fun _ _ h => nomatch h
  | some t, v, h, depth => by
    rw [Shape.OutputDenotes] at h
    refine (written_shape hF t v h depth).imp fun fuel hfuel u hu => ?_
    exact Option.some.inj hu ▸ hfuel

end

end Formatter

namespace TypeText

theorem plain_formatter (t : TypeText) : (t.formatter .plain).Plain where
  text _ := rfl
  name id s := by
    unfold formatter nameIn
    dsimp only
    cases t.resolve with
    | none => rfl
    | some resolve =>
      dsimp only
      cases resolve id s <;> rfl

/-- A type as plain text. -/
def plainText (t : TypeText) (v : Value) : Checked String :=
  (t.type v).result.map (Segment.writeAll .plain)

/-- How many types are written in each other. -/
def levels (t : TypeText) : Nat := (t.maxDepth + 1).toNat

/-- The plain text of a type is the text of its shape, down to the greatest depth. -/
theorem plainText_of_denotes (t : TypeText) {s : Shape} {v : Value} (h : s.Denotes v) :
    t.plainText v = .ok (s.cut t.levels).text := by
  obtain ⟨least, hleast⟩ := Formatter.written_shape t.plain_formatter s v h 0
  have hfuel : (Piece.type 0 v).fuel ≤ max least (fuelFor v) := Nat.le_max_right _ _
  have hdrawn := (t.formatter_draws .plain).write hfuel
  have hlevels : (t.formatter .plain).levels 0 = t.levels := by
    simp [Formatter.levels, levels, formatter]
  have hwritten := hleast _ (Nat.le_max_left least (fuelFor v))
  rw [hlevels] at hwritten
  exact hdrawn.result.symm.trans hwritten

end TypeText

end CrateBook
