import MiniJava.Lowering.Stmt
import MiniJava.Proofs.Stage
import MiniJava.Proofs.Variation.Annotation

/-!
# Lowering variants

The code of a varied tree is the code of the tree with variables renamed, and where one cannot be
lowered the other cannot either, for the same cause (`Expr.Variant.lower`, `Stmt.Variant.lowerAll`).
Lowering reads types by id, and the ids of the two trees have nothing to do with each other. What
makes it possible to compare them is that both type maps follow the places of their trees
(`TypeMap.Follows`), and places in the same position get the same type.
-/

namespace MiniJava

open Ir

/-! ## Renamed code -/

namespace Ir

def Operand.rename (ρ : Renaming) : Operand → Operand
  | literal k ty => literal k ty
  | var x ty p => var (ρ.name x) ty p
  | item x i ty p => item (ρ.name x) (i.rename ρ) ty p
  | cls c => cls c

@[simp] theorem Operand.ty_rename (ρ : Renaming) (o : Operand) : (o.rename ρ).ty = o.ty := by
  cases o <;> rfl

theorem Operand.rename_eq_self {ρ : Renaming} (hρ : ∀ x, ρ.name x = x) (o : Operand) :
    o.rename ρ = o := by
  induction o with
  | literal | cls => rfl
  | var x ty p => rw [rename, hρ]
  | item x i ty p ih => rw [rename, hρ, ih]

@[simp] theorem Operand.rename_this (ρ : Renaming) (c : String) :
    (Operand.this c).rename ρ = Operand.this c := by
  rw [this, plain, rename, ρ.this]

@[simp] theorem Operand.rename_temp (ρ : Renaming) (k : Nat) (ty : Ty) :
    (Operand.plain (Lower.tempName k) ty).rename ρ = .plain (Lower.tempName k) ty := by
  rw [plain, rename, ρ.temp]

/-- The instruction with its variables renamed. The operands that name a field are no variables. -/
def Instr.rename (ρ : Renaming) : Instr → Instr
  | assign dest ty rhs => assign (dest.rename ρ) ty (rhs.rename ρ)
  | value o => value (o.rename ρ)
  | not o ty => not (o.rename ρ) ty
  | binary op l r ty => binary op (l.rename ρ) (r.rename ρ) ty
  | call kind target m args params ty =>
    call kind (target.rename ρ) m (args.map (Operand.rename ρ)) params ty
  | newObject c => newObject c
  | newArray size ty => newArray (size.rename ρ) ty
  | length a => length (a.rename ρ)
  | getField field ty => getField field ty
  | putField field o => putField field (o.rename ρ)
  | goto l => goto l
  | branch c l => branch (c.rename ρ) l
  | label l => label l
  | ret ty o => ret ty (o.map (Operand.rename ρ))

end Ir

/-! ## Lowering side by side -/

/-- Faults of the same cause. Names are those of the variant, and without renaming they are the
same. -/
inductive LowerError.Alike (v : Variation) : LowerError → LowerError → Prop
  | unresolved {s s' : Span} : v.spans s s' → Alike v (.unresolved s) (.unresolved s')
  | voidValue {m : String} {s s' : Span} : v.spans s s' → Alike v (.voidValue m s) (.voidValue m s')
  | unknownVariable {x : String} {s s' : Span} : v.spans s s' →
      Alike v (.unknownVariable x s) (.unknownVariable (v.rename.name x) s')
  | notIndexable {x x' : String} {s s' : Span} : v.spans s s' →
      ((∀ z, v.rename.name z = z) → x' = x) → Alike v (.notIndexable x s) (.notIndexable x' s')
  | missingClass {c : String} : Alike v (.missingClass c) (.missingClass c)
  | missingMethod {c m : String} : Alike v (.missingMethod c m) (.missingMethod c m)

/-- The second stage writes the code of the first with variables renamed. -/
def Lower.Alike {α α' : Type} (v : Variation) (V : α → α' → Prop) (x : Lower α)
    (y : Lower α') : Prop :=
  Stage.Alike (fun code code' => code' = code.map (Instr.rename v.rename))
    (LowerError.Alike v) V x y

/-- The second operand is the first, renamed. -/
abbrev Ir.Operand.Renamed (v : Variation) (o o' : Operand) : Prop := o' = o.rename v.rename

namespace Lower.Alike

variable {v : Variation} {α α' β β' : Type} {V : α → α' → Prop} {W : β → β' → Prop} {x : Lower α}
  {y : Lower α'}

theorem joins (v : Variation) :
    Joins fun code code' => code' = code.map (Instr.rename v.rename) where
  nil := rfl
  append := by
    intro a a' b b' ha hb
    rw [ha, hb, List.map_append]

protected theorem pure {a : α} {a' : α'} (h : V a a') : Lower.Alike v V (pure a) (pure a') :=
  Stage.Alike.pure (joins v) h

protected theorem fail {e e' : LowerError} (h : e.Alike v e') :
    Lower.Alike v V (Stage.fail e) (Stage.fail e') :=
  Stage.Alike.fail (joins v) h

protected theorem emit (i : Instr) :
    Lower.Alike v Eq (Stage.emit i) (Stage.emit (i.rename v.rename)) :=
  Stage.Alike.emit rfl

protected theorem bind (h : Lower.Alike v V x y) {f : α → Lower β} {g : α' → Lower β'}
    (hfg : ∀ a a', V a a' → Lower.Alike v W (f a) (g a')) : Lower.Alike v W (x >>= f) (y >>= g) :=
  Stage.Alike.bind (joins v) h hfg

/-- Goes on after something that gives the same value to both. -/
theorem andThen {x y : Lower α} (h : Lower.Alike v Eq x y) {f : α → Lower β} {g : α → Lower β'}
    (hfg : ∀ a, Lower.Alike v W (f a) (g a)) : Lower.Alike v W (x >>= f) (y >>= g) := by
  refine h.bind fun a a' ha => ?_
  subst ha
  exact hfg a

theorem freshLabel : Lower.Alike v Eq Lower.freshLabel Lower.freshLabel :=
  Stage.Alike.update (joins v) _

/-- A new temporary has the same name in both. -/
theorem temp (ty : Ty) (rhs : Instr) :
    Lower.Alike v (Operand.Renamed v) (Lower.temp ty rhs)
      (Lower.temp ty (rhs.rename v.rename)) := by
  intro s
  have htemp : (Operand.plain (Lower.tempName s.temps) ty).rename v.rename =
      .plain (Lower.tempName s.temps) ty := Operand.rename_temp ..
  refine ⟨.ok htemp.symm, rfl, ?_⟩
  show [Instr.assign (.plain (Lower.tempName s.temps) ty) ty (rhs.rename v.rename)] =
    [Instr.assign ((Operand.plain (Lower.tempName s.temps) ty).rename v.rename) ty _]
  rw [htemp]

theorem typeOf {types types' : TypeMap} {n n' : Node} (hspan : v.spans n.span n'.span)
    (hty : types'.get? n'.id = types.get? n.id) :
    Lower.Alike v Eq (Lower.typeOf types n) (Lower.typeOf types' n') := by
  unfold Lower.typeOf
  rw [hty]
  split
  · exact .pure rfl
  · exact .fail (.unresolved hspan)

end Lower.Alike

/-! ## Expressions -/

theorem TypeMap.follows_cons {types : TypeMap} {q : Nat × Option Ty} {qs : List (Nat × Option Ty)} :
    types.Follows (q :: qs) ↔ types.get? q.1 = q.2 ∧ types.Follows qs :=
  List.forall_mem_cons

theorem TypeMap.follows_append {types : TypeMap} {qs rs : List (Nat × Option Ty)} :
    types.Follows (qs ++ rs) ↔ types.Follows qs ∧ types.Follows rs :=
  List.forall_mem_append

namespace Expr

variable {v : Variation} {sc sc' : Scope} {types types' : TypeMap}

theorem place_mem_places (e : Expr) (w : Option Ty) : place sc e w ∈ e.places sc w := by
  cases e <;> exact List.mem_cons_self

/-- Expressions in the same position get the same type, whatever their ids are. -/
theorem Variant.get?_eq (hsc : v.Scopes sc sc') {e e' : Expr} (h : e.Variant v e') {w : Option Ty}
    (ht : types.Follows (e.places sc w)) (ht' : types'.Follows (e'.places sc' w)) :
    types'.get? e'.id = types.get? e.id := by
  have hold : types.get? e.id = ((e.annotate sc).value <|> w) := ht _ (place_mem_places e w)
  have hnew : types'.get? e'.id = ((e'.annotate sc').value <|> w) := ht' _ (place_mem_places e' w)
  rw [hold, hnew, (h.annotate hsc).value]

theorem expectedArgs_eq (hsc : v.Scopes sc sc') (m : String) (arity : Nat) (found : Option Ty) :
    expectedArgs sc' m arity found = expectedArgs sc m arity found := by
  unfold expectedArgs
  rw [hsc.className]
  rcases hsc.method? m with ⟨hold, hnew⟩ | ⟨sig, sig', hold, hnew, hparams, -⟩
  · rw [hold, hnew]
  · have harity : sig'.params.length = sig.params.length := by
      simpa using congrArg List.length hparams
    have hargs : (sig'.params.map fun p => some p.ty) = sig.params.map fun p => some p.ty := by
      simpa [Function.comp_def] using congrArg (List.map some) hparams
    rw [hold, hnew]
    simp only [harity, hargs]

/-- Local variables, parameters and classes are operands of their new names. -/
theorem varOperand_rename (ρ : Renaming) (marked : Bool) (x : String) (b : Binding) :
    varOperand marked (ρ.name x) (ρ.binding b) = (varOperand marked x b).rename ρ := by
  cases b <;> rfl

theorem readField_alike (x : String) (ty : Ty) :
    Lower.Alike v (Operand.Renamed v) (readField x ty) (readField x ty) :=
  .temp ty (.getField (.plain x ty) ty)

theorem lowerVar_alike (hsc : v.Scopes sc sc') {x : String} (hx : v.admits x) (marked : Bool)
    {span span' : Span} (hspan : v.spans span span') :
    Lower.Alike v (Operand.Renamed v) (lowerVar sc marked x span)
      (lowerVar sc' marked (v.rename.name x) span') := by
  unfold lowerVar
  rw [hsc.resolve hx]
  cases hresolve : sc.resolve x with
  | none =>
    have hname : v.rename.name x = x := hsc.name_of_resolve hx (by simp [hresolve])
    have hclass : sc'.isClassName (v.rename.name x) = sc.isClassName x := by
      rw [hsc.isClassName, hname]
    dsimp only [Option.map_none]
    rw [hclass]
    split
    · rw [hname]
      exact .pure rfl
    · exact .fail (.unknownVariable hspan)
  | some b =>
    cases b with
    | field s =>
      have hname : v.rename.name x = x := by
        refine hsc.name_of_resolve hx fun b hb => ?_
        rw [hresolve] at hb
        cases hb
        rfl
      rw [hname]
      exact readField_alike x s.ty
    | loc s => exact .pure (varOperand_rename v.rename marked x (.loc s))
    | param k s => exact .pure (varOperand_rename v.rename marked x (.param k s))

theorem callInstr_rename (hsc : v.Scopes sc sc') (target : Operand) (m : String)
    (args : List Operand) (ty : Ty) :
    callInstr sc' (target.rename v.rename) m (args.map (Operand.rename v.rename)) ty =
      (callInstr sc target m args ty).rename v.rename := by
  have hparams : declaredParams sc' (target.rename v.rename) m args.length =
      declaredParams sc target m args.length := by
    unfold declaredParams
    rw [Operand.ty_rename, hsc.thisTy]
    rcases hsc.method? m with ⟨hold, hnew⟩ | ⟨sig, sig', hold, hnew, hparams, -⟩
    · rw [hold, hnew]
    · have harity : sig'.params.length = sig.params.length := by
        simpa using congrArg List.length hparams
      have htypes : (sig'.params.map fun p => p.ty) = sig.params.map fun p => p.ty := hparams
      rw [hold, hnew]
      simp only [harity, htypes]
  unfold callInstr
  rw [List.length_map, hparams]
  cases target <;> rfl

theorem itemOf_alike (base index : Operand) (ty : Ty) {span span' : Span}
    (hspan : v.spans span span') :
    Lower.Alike v (Operand.Renamed v) (itemOf base index ty span)
      (itemOf (base.rename v.rename) (index.rename v.rename) ty span') := by
  have htext : (∀ z, v.rename.name z = z) → (base.rename v.rename).text = base.text := by
    intro hid
    rw [Operand.rename_eq_self hid]
  cases base with
  | var x t p => exact .pure rfl
  | literal | item | cls => exact .fail (.notIndexable hspan htext)

theorem lowerAll_alike {marked : Bool} {args args' : List Expr}
    (h : List.Forall₂ (fun a a' => ∀ w, types.Follows (a.places sc w) →
      types'.Follows (a'.places sc' w) → Lower.Alike v (Operand.Renamed v) (a.lower sc types marked)
        (a'.lower sc' types' marked)) args args') {ws : List (Option Ty)}
    (ht : types.Follows (placesAll sc args ws)) (ht' : types'.Follows (placesAll sc' args' ws)) :
    Lower.Alike v (fun os os' => os' = os.map (Operand.rename v.rename))
      (lowerAll sc types marked args) (lowerAll sc' types' marked args') := by
  induction h generalizing ws with
  | nil => exact .pure rfl
  | cons ha _ ih =>
    rw [placesAll, TypeMap.follows_append] at ht ht'
    refine .bind (ha _ ht.1 ht'.1) fun o o' ho => .bind (ih ht.2 ht'.2) fun os os' hos => .pure ?_
    rw [ho, hos, List.map_cons]

/-- A variant is lowered to the renamed code. -/
theorem Variant.lower (hsc : v.Scopes sc sc') {e e' : Expr} (h : e.Variant v e') {w : Option Ty}
    (ht : types.Follows (e.places sc w)) (ht' : types'.Follows (e'.places sc' w)) (marked : Bool) :
    Lower.Alike v (Operand.Renamed v) (e.lower sc types marked) (e'.lower sc' types' marked) := by
  induction e using Expr.induction generalizing e' w with
  | int n k => cases h with
    | int => exact .pure rfl
  | bool n b => cases h with
    | bool => exact .pure rfl
  | var n x => cases h with
    | var hspan hx => exact lowerVar_alike hsc hx marked hspan
  | this n => cases h with
    | this =>
      rw [Expr.lower, Expr.lower, hsc.className]
      exact .pure (Operand.rename_this ..).symm
  | not n e ih => cases h with
    | not he =>
      rw [places, TypeMap.follows_cons] at ht ht'
      refine .bind (ih he ht.2 ht'.2) fun o o' ho => ?_
      subst ho
      exact .temp .bool (.not o .bool)
  | binary n op l r ihl ihr =>
    -- The ids of the two trees may differ, so the two type maps are read at different places; what
    -- stands there is the same type.
    have hty := h.get?_eq hsc ht ht'
    cases h with
    | binary hspan hl hr =>
      rw [places, TypeMap.follows_cons, TypeMap.follows_append] at ht ht'
      refine .andThen (.typeOf hspan hty) fun ty => .bind (ihl hl ht.2.1 ht'.2.1) fun a a' ha =>
        .bind (ihr hr ht.2.2 ht'.2.2) fun b b' hb => ?_
      subst ha hb
      exact .temp ty (.binary op a b ty)
  | call n r m args ihr ihargs =>
    have hty := h.get?_eq hsc ht ht'
    cases h with
    | @call _ n' _ r' _ m' _ args' hspan hr hm hargs =>
      rw [places, TypeMap.follows_cons, TypeMap.follows_append] at ht ht'
      -- The arguments are followed with the types that the callee expects, the same in both scopes.
      rw [(hr.annotate hsc).value, hm, expectedArgs_eq hsc, ← hargs.length_eq] at ht'
      have hall : Lower.Alike v (fun os os' => os' = os.map (Operand.rename v.rename))
          (lowerAll sc types marked args) (lowerAll sc' types' marked args') :=
        lowerAll_alike (forall₂_imp_mem hargs fun a ha a' _ haa' w => ihargs a ha haa')
          ht.2.2 ht'.2.2
      rw [Expr.lower, Expr.lower, hm]
      refine .andThen (.typeOf hspan hty) fun ty => ?_
      split
      · exact .fail (.voidValue hspan)
      · refine .bind hall fun os os' hos => .bind (ihr hr ht.2.1 ht'.2.1) fun o o' ho => ?_
        rw [hos, ho, callInstr_rename hsc]
        exact .temp ty _
  | newObject n c => cases h with
    | newObject hc =>
      rw [Expr.lower, Expr.lower, hc]
      refine .bind (.temp _ (.newObject c.node)) fun o o' ho => ?_
      subst ho
      exact .andThen (.emit (.call .special o "<init>" [] (some []) .void)) fun _ => .pure rfl
  | newArray n e ih =>
    have hty := h.get?_eq hsc ht ht'
    cases h with
    | newArray hspan he =>
      rw [places, TypeMap.follows_cons] at ht ht'
      refine .andThen (.typeOf hspan hty) fun ty => .bind (ih he ht.2 ht'.2) fun o o' ho => ?_
      subst ho
      exact .temp ty (.newArray o ty)
  | length n a ih => cases h with
    | length ha =>
      rw [places, TypeMap.follows_cons] at ht ht'
      refine .bind (ih ha ht.2 ht'.2) fun o o' ho => ?_
      subst ho
      exact .temp .int (.length o)
  | index n a i iha ihi =>
    have hty := h.get?_eq hsc ht ht'
    cases h with
    | index hspan ha hi =>
      rw [places, TypeMap.follows_cons, TypeMap.follows_append] at ht ht'
      refine .andThen (.typeOf hspan hty) fun ty => .bind (iha ha ht.2.1 ht'.2.1) fun b b' hb =>
        .bind (ihi hi ht.2.2 ht'.2.2) fun j j' hj => ?_
      subst hb hj
      refine .bind (itemOf_alike b j ty hspan) fun o o' ho => ?_
      subst ho
      exact .temp ty (.value o)
  | paren n e ih =>
    rw [places, TypeMap.follows_cons] at ht
    cases h with
    | paren he =>
      rw [places, TypeMap.follows_cons] at ht'
      rw [Expr.lower, Expr.lower]
      exact ih he ht.2 ht'.2
    -- Parentheses around one tree only: they have a place in its map, but no code.
    | dropped he =>
      rw [Expr.lower]
      exact ih he ht.2 ht'

theorem Variant.lowerAll (hsc : v.Scopes sc sc') {es es' : List Expr}
    (h : List.Forall₂ (Variant v) es es') {ws : List (Option Ty)}
    (ht : types.Follows (placesAll sc es ws)) (ht' : types'.Follows (placesAll sc' es' ws))
    (marked : Bool) : Lower.Alike v (fun os os' => os' = os.map (Operand.rename v.rename))
      (lowerAll sc types marked es) (lowerAll sc' types' marked es') :=
  lowerAll_alike (h.imp fun _ _ he _ ht ht' => he.lower hsc ht ht' marked) ht ht'

/-- What a call that stands as a statement gives. It makes no difference whether it takes `void` or,
in parentheses, nothing. -/
theorem getD_void_of_follows {e : Expr} {w : Option Ty} (hw : w.getD .void = .void)
    (ht : types.Follows (e.places sc w)) :
    (types.get? e.id).getD .void = (e.annotate sc).value.getD .void := by
  have hplace : types.get? e.id = ((e.annotate sc).value <|> w) := ht _ (place_mem_places e w)
  rw [hplace]
  cases (e.annotate sc).value with
  | some ty => rfl
  | none => exact hw

theorem Variant.isCall {e e' : Expr} (h : e.Variant v e') : e'.isCall = e.isCall := by
  have hstrip := h.strip
  unfold Expr.isCall
  generalize hd : e.strip = d, e'.strip = d' at hstrip
  cases hstrip with
  | dropped _ => exact absurd hd (strip_ne_paren e)
  | _ => rfl

/-- An expression as a statement. Its parentheses decide what is expected of a call in them. -/
theorem Variant.lowerEffect (hsc : v.Scopes sc sc') {e e' : Expr} (h : e.Variant v e')
    {w w' : Option Ty} (hw : w.getD .void = .void) (hw' : w'.getD .void = .void)
    (hww' : e.isCall = false → w' = w) (ht : types.Follows (e.places sc w))
    (ht' : types'.Follows (e'.places sc' w')) :
    Lower.Alike v Eq (e.lowerEffect sc types) (e'.lowerEffect sc' types') := by
  induction e using Expr.induction generalizing e' with
  | call n r m args ihr ihargs =>
    have hresult := getD_void_of_follows hw' ht'
    rw [(h.annotate hsc).value, ← getD_void_of_follows hw ht] at hresult
    cases h with
    | @call _ n' _ r' _ m' _ args' hspan hr hm hargs =>
      have hty : (types'.get? n'.id).getD .void = (types.get? n.id).getD .void := hresult
      rw [places, TypeMap.follows_cons, TypeMap.follows_append] at ht ht'
      rw [(hr.annotate hsc).value, hm, expectedArgs_eq hsc, ← hargs.length_eq] at ht'
      rw [Expr.lowerEffect, Expr.lowerEffect, hm, hty]
      refine .bind (Variant.lowerAll hsc hargs ht.2.2 ht'.2.2 true) fun os os' hos =>
        .bind (hr.lower hsc ht.2.1 ht'.2.1 true) fun o o' ho => ?_
      rw [hos, ho, callInstr_rename hsc]
      exact .emit _
  | paren n e ih =>
    rw [places, TypeMap.follows_cons] at ht
    cases h with
    | paren he =>
      rw [places, TypeMap.follows_cons] at ht'
      rw [Expr.lowerEffect, Expr.lowerEffect]
      exact ih he hww' ht.2 ht'.2
    | dropped he =>
      rw [Expr.lowerEffect]
      exact ih he hww' ht.2 ht'
  | _ =>
    have hlower := h.lower hsc ht (hww' rfl ▸ ht') true
    cases h
    exact hlower.bind fun _ _ _ => .pure rfl

end Expr

/-! ## Statements -/

namespace Stmt

variable {v : Variation} {sc sc' : Scope} {types types' : TypeMap}

theorem targetTy_eq (hsc : v.Scopes sc sc') {x x' : Located String} (hx : v.Target x x') :
    targetTy sc' x' = targetTy sc x := by
  rw [targetTy, hx.name, hsc.resolve hx.admitted, Option.map_map, targetTy]
  congr 1
  funext b
  exact v.rename.ty_binding b

theorem itemTy?_eq (hsc : v.Scopes sc sc') {x x' : Located String} (hx : v.Target x x') :
    itemTy? sc' x' = itemTy? sc x := by
  rw [itemTy?, targetTy_eq hsc hx]
  rfl

theorem resolveTarget_alike (hsc : v.Scopes sc sc') {x x' : Located String} (hx : v.Target x x') :
    Lower.Alike v (fun b b' => b' = v.rename.binding b ∧ (b.isField = true → x'.node = x.node))
      (resolveTarget sc x) (resolveTarget sc' x') := by
  unfold resolveTarget
  rw [hx.name, hsc.resolve hx.admitted]
  cases hresolve : sc.resolve x.node with
  | none => exact .fail (.unknownVariable hx.span)
  | some b =>
    refine .pure ⟨rfl, fun hfield => ?_⟩
    refine hsc.name_of_resolve hx.admitted fun c hc => ?_
    rw [hresolve] at hc
    cases hc
    exact hfield

theorem lowerAssign_alike (hsc : v.Scopes sc sc') {x x' : Located String} (hx : v.Target x x')
    {e e' : Expr} (he : e.Variant v e') (ht : types.Follows (e.places sc (targetTy sc x)))
    (ht' : types'.Follows (e'.places sc' (targetTy sc' x'))) :
    Lower.Alike v Eq (lowerAssign sc types x e) (lowerAssign sc' types' x' e') := by
  rw [targetTy_eq hsc hx] at ht'
  refine .bind (resolveTarget_alike hsc hx) fun b b' hb => .bind (he.lower hsc ht ht' true)
    fun o o' ho => ?_
  obtain ⟨hb, hfield⟩ := hb
  subst hb ho
  cases b with
  | field s =>
    dsimp only [Renaming.binding]
    rw [hfield rfl]
    exact .emit (.putField (.plain x.node s.ty) o)
  | loc s =>
    dsimp only [Renaming.binding]
    rw [hx.name]
    exact .emit (.assign (Expr.varOperand true x.node (.loc s)) s.ty (.value o))
  | param k s =>
    dsimp only [Renaming.binding]
    rw [hx.name]
    exact .emit (.assign (Expr.varOperand true x.node (.param k s)) s.ty (.value o))

theorem itemTy_alike {x x' : Located String} (hx : v.Target x x') (b : Binding) :
    Lower.Alike v Eq (itemTy x b) (itemTy x' (v.rename.binding b)) := by
  unfold itemTy
  rw [v.rename.ty_binding]
  split
  · exact .pure rfl
  · refine .fail (.notIndexable hx.span fun hid => ?_)
    rw [hx.name, hid]

theorem arrayOperand_alike {x x' : Located String} (hx : v.Target x x') {b : Binding}
    (hfield : b.isField = true → x'.node = x.node) :
    Lower.Alike v (Operand.Renamed v) (arrayOperand x b)
      (arrayOperand x' (v.rename.binding b)) := by
  cases b with
  | field s =>
    unfold arrayOperand Renaming.binding
    dsimp only
    rw [hfield rfl]
    exact Expr.readField_alike x.node s.ty
  | loc s =>
    unfold arrayOperand
    rw [hx.name]
    exact .pure (Expr.varOperand_rename v.rename true x.node (.loc s))
  | param k s =>
    unfold arrayOperand
    rw [hx.name]
    exact .pure (Expr.varOperand_rename v.rename true x.node (.param k s))

theorem lowerArrayAssign_alike (hsc : v.Scopes sc sc') {x x' : Located String} (hx : v.Target x x')
    {i i' e e' : Expr} (hi : i.Variant v i') (he : e.Variant v e')
    (ht : types.Follows (i.places sc (some .int) ++ e.places sc (itemTy? sc x)))
    (ht' : types'.Follows (i'.places sc' (some .int) ++ e'.places sc' (itemTy? sc' x'))) :
    Lower.Alike v Eq (lowerArrayAssign sc types x i e) (lowerArrayAssign sc' types' x' i' e') := by
  rw [itemTy?_eq hsc hx] at ht'
  rw [TypeMap.follows_append] at ht ht'
  refine .bind (resolveTarget_alike hsc hx) fun b b' hb => ?_
  obtain ⟨hb, hfield⟩ := hb
  subst hb
  refine .andThen (itemTy_alike hx b) fun ty => .bind (arrayOperand_alike hx hfield)
    fun a a' ha => .bind (hi.lower hsc ht.1 ht'.1 true) fun j j' hj =>
      .bind (he.lower hsc ht.2 ht'.2 true) fun o o' ho => ?_
  subst ha hj ho
  refine .bind (Expr.itemOf_alike a j ty hx.span) fun dest dest' hdest => ?_
  subst hdest
  exact .emit (.assign dest ty (.value o))

theorem effectTy_getD (e : Expr) : (effectTy e).getD .void = .void := by
  cases e <;> rfl

/-- A call is not expected to be anything else in the variant, unless it stood in parentheses. -/
theorem effectTy_eq {e e' : Expr} (he : e.Variant v e') (hcall : e.isCall = false) :
    effectTy e' = effectTy e := by
  have hcall' : e'.isCall = false := by rw [he.isCall, hcall]
  have hnone : ∀ {d : Expr}, d.isCall = false → effectTy d = none := by
    intro d hd
    cases d with
    | call => cases hd
    | _ => rfl
  rw [hnone hcall, hnone hcall']

theorem lowerAll_alike {ss ss' : List Stmt}
    (h : List.Forall₂ (fun s s' => types.Follows (s.places sc) → types'.Follows (s'.places sc') →
      Lower.Alike v Eq (s.lower sc types) (s'.lower sc' types')) ss ss')
    (ht : types.Follows (placesAll sc ss)) (ht' : types'.Follows (placesAll sc' ss')) :
    Lower.Alike v Eq (lowerAll sc types ss) (lowerAll sc' types' ss') := by
  induction h with
  | nil => exact .pure rfl
  | cons hs _ ih =>
    rw [placesAll, TypeMap.follows_append] at ht ht'
    exact .andThen (hs ht.1 ht'.1) fun _ => ih ht.2 ht'.2

theorem Variant.lower (hsc : v.Scopes sc sc') {s s' : Stmt} (h : s.Variant v s')
    (ht : types.Follows (s.places sc)) (ht' : types'.Follows (s'.places sc')) :
    Lower.Alike v Eq (s.lower sc types) (s'.lower sc' types') := by
  induction s using Stmt.induction generalizing s' with
  | varDecl sp d => cases h with
    | varDecl => exact .pure rfl
  | block sp body ih => cases h with
    | block hbody =>
      exact lowerAll_alike (forall₂_imp_mem hbody fun t htm t' _ htt' => ih t htm htt') ht ht'
  | ifThen sp c t ih => cases h with
    | ifThen hc htt =>
      rw [places, TypeMap.follows_append] at ht ht'
      refine .andThen .freshLabel fun n => .bind (hc.lower hsc ht.1 ht'.1 true) fun o o' ho => ?_
      subst ho
      exact .andThen (.emit (.branch o (thenLabel n))) fun _ =>
        .andThen (.emit (.goto (endifLabel n))) fun _ =>
        .andThen (.emit (.label (thenLabel n))) fun _ =>
        .andThen (ih htt ht.2 ht'.2) fun _ => .emit (.label (endifLabel n))
  | ifElse sp c t e iht ihe => cases h with
    | @ifElse _ _ _ c' _ t' _ e' hc htt hee =>
      rw [places, TypeMap.follows_append, TypeMap.follows_append] at ht ht'
      rw [Stmt.lower, Stmt.lower, hee.definitelyReturns, htt.definitelyReturns]
      refine .andThen .freshLabel fun n => .bind (hc.lower hsc ht.1 ht'.1 true) fun o o' ho => ?_
      subst ho
      refine .andThen (.emit (.branch o (thenLabel n))) fun _ =>
        .andThen (ihe hee ht.2.2 ht'.2.2) fun _ => ?_
      -- The second branch is the same whether a jump stands before it or not.
      have hrest : Lower.Alike v Eq
          (do
            Stage.emit (.label (thenLabel n))
            t.lower sc types
            if !(e.definitelyReturns && t.definitelyReturns) then
              Stage.emit (.label (endifLabel n)))
          (do
            Stage.emit (.label (thenLabel n))
            t'.lower sc' types'
            if !(e.definitelyReturns && t.definitelyReturns) then
              Stage.emit (.label (endifLabel n))) := by
        refine .andThen (.emit (.label (thenLabel n))) fun _ => .andThen (iht htt ht.2.1 ht'.2.1)
          fun _ => ?_
        split
        · exact .emit (.label (endifLabel n))
        · exact .pure rfl
      dsimp only
      split
      · exact .andThen (.emit (.goto (endifLabel n))) fun _ => hrest
      · exact hrest
  | whileLoop sp c b ih => cases h with
    | whileLoop hc hb =>
      rw [places, TypeMap.follows_append] at ht ht'
      refine .andThen .freshLabel fun n => .andThen (.emit (.label (condLabel n))) fun _ =>
        .bind (hc.lower hsc ht.1 ht'.1 true) fun o o' ho => ?_
      subst ho
      exact .andThen (.emit (.branch o (bodyLabel n))) fun _ =>
        .andThen (.emit (.goto (endLabel n))) fun _ =>
        .andThen (.emit (.label (bodyLabel n))) fun _ =>
        .andThen (ih hb ht.2 ht'.2) fun _ =>
        .andThen (.emit (.goto (condLabel n))) fun _ => .emit (.label (endLabel n))
  | expr sp e => cases h with
    | expr he =>
      exact he.lowerEffect hsc (effectTy_getD e) (effectTy_getD _) (effectTy_eq he) ht ht'
  | assign sp x e => cases h with
    | assign hx he => exact lowerAssign_alike hsc hx he ht ht'
  | arrayAssign sp x i e => cases h with
    | arrayAssign hx hi he => exact lowerArrayAssign_alike hsc hx hi he ht ht'
  | ret sp e => cases h with
    | retNone =>
      rw [Stmt.lower, Stmt.lower, lowerReturn, lowerReturn, hsc.returnTy]
      exact .emit (.ret _ none)
    | ret he =>
      rw [places, returnedTy] at ht ht'
      rw [hsc.returnTy] at ht'
      rw [Stmt.lower, Stmt.lower, lowerReturn, lowerReturn, hsc.returnTy]
      refine .bind (he.lower hsc ht ht' false) fun o o' ho => ?_
      subst ho
      exact .emit (.ret _ (some o))

/-- The body of a varied method is lowered to the renamed code. -/
theorem Variant.lowerAll (hsc : v.Scopes sc sc') {ss ss' : List Stmt}
    (h : List.Forall₂ (Variant v) ss ss') (ht : types.Follows (placesAll sc ss))
    (ht' : types'.Follows (placesAll sc' ss')) :
    Lower.Alike v Eq (lowerAll sc types ss) (lowerAll sc' types' ss') :=
  lowerAll_alike (h.imp fun _ _ hs ht ht' => hs.lower hsc ht ht') ht ht'

end Stmt

end MiniJava
