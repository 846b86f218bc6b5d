import MiniJava.Proofs.Lowering.Inversion
import MiniJava.Proofs.Names
import MiniJava.Proofs.SideBySide
import MiniJava.Proofs.Symbols

/-!
# Lowering with other names

Nothing but the names of temporaries and labels comes from the counters. So two lowerings of the
same class that count in different numbers, or from different starts, do the same side by side, and
what they write differs in these names only.

How the two are related is left open here. A `Correspondence` says which counters belong together
and which variables and labels, and that this goes on when both take a temporary or the number of a
branch. Then lowering takes corresponding counters to corresponding counters, also through a fault,
and what it writes corresponds (`ClassDecl.lower_corresponds`).
-/

namespace MiniJava

open Ir Lower Counting

/-- What belongs together in two lowerings. -/
structure Correspondence (κ κ' : Type) [Counting κ] [Counting κ'] where
  counters : Counters κ → Counters κ' → Prop
  var : String → String → Prop
  label : String → String → Prop
  this : var "this" "this"
  /-- Both take a temporary. -/
  temp : ∀ c c', counters c c' →
    var (tempName (number c.temps)) (tempName (number c'.temps)) ∧
      counters { c with temps := next c.temps } { c' with temps := next c'.temps }
  /-- Both take the number of a branch or loop. -/
  branch : ∀ c c', counters c c' →
    (∀ p ∈ labelStems, label (p ++ toString (number c.labels)) (p ++ toString (number c'.labels))) ∧
      counters { c with labels := next c.labels } { c' with labels := next c'.labels }

variable {κ κ' : Type} [Counting κ] [Counting κ']

/-! ## Operands and instructions -/

namespace Ir

/-- The operands are the same but for corresponding variables. -/
inductive Operand.Corresponds (K : Correspondence κ κ') : Operand → Operand → Prop
  | literal (v : Int32) (ty : Ty) : Corresponds K (.literal v ty) (.literal v ty)
  | var {x x' : String} (ty : Ty) (p : Option Nat) :
      K.var x x' → Corresponds K (.var x ty p) (.var x' ty p)
  | item {x x' : String} {i i' : Operand} (ty : Ty) (p : Option Nat) :
      K.var x x' → Corresponds K i i' → Corresponds K (.item x i ty p) (.item x' i' ty p)
  | cls (c : String) : Corresponds K (.cls c) (.cls c)

/-- The instructions are the same but for corresponding variables and labels. -/
inductive Instr.Corresponds (K : Correspondence κ κ') : Instr → Instr → Prop
  | assign {d d' : Operand} (ty : Ty) {rhs rhs' : Instr} :
      d.Corresponds K d' → Corresponds K rhs rhs' →
        Corresponds K (.assign d ty rhs) (.assign d' ty rhs')
  | value {o o' : Operand} : o.Corresponds K o' → Corresponds K (.value o) (.value o')
  | not {o o' : Operand} (ty : Ty) : o.Corresponds K o' → Corresponds K (.not o ty) (.not o' ty)
  | binary (op : BinOp) {l l' r r' : Operand} (ty : Ty) :
      l.Corresponds K l' → r.Corresponds K r' →
        Corresponds K (.binary op l r ty) (.binary op l' r' ty)
  | call (kind : CallKind) {t t' : Operand} (m : String) {as as' : List Operand}
      (params : Option (List Ty)) (ty : Ty) :
      t.Corresponds K t' → List.Forall₂ (Operand.Corresponds K) as as' →
        Corresponds K (.call kind t m as params ty) (.call kind t' m as' params ty)
  | newObject (c : String) : Corresponds K (.newObject c) (.newObject c)
  | newArray {o o' : Operand} (ty : Ty) :
      o.Corresponds K o' → Corresponds K (.newArray o ty) (.newArray o' ty)
  | length {o o' : Operand} : o.Corresponds K o' → Corresponds K (.length o) (.length o')
  | getField (field : Operand) (ty : Ty) : Corresponds K (.getField field ty) (.getField field ty)
  | putField (field : Operand) {o o' : Operand} :
      o.Corresponds K o' → Corresponds K (.putField field o) (.putField field o')
  | goto {l l' : String} : K.label l l' → Corresponds K (.goto l) (.goto l')
  | branch {o o' : Operand} {l l' : String} :
      o.Corresponds K o' → K.label l l' → Corresponds K (.branch o l) (.branch o' l')
  | label {l l' : String} : K.label l l' → Corresponds K (.label l) (.label l')
  | ret (ty : Ty) {o o' : Operand} :
      o.Corresponds K o' → Corresponds K (.ret ty (some o)) (.ret ty (some o'))
  | retNone (ty : Ty) : Corresponds K (.ret ty none) (.ret ty none)

/-- The methods are the same but for corresponding code, and their variables correspond to
themselves. No register table was asked for. -/
structure Method.Corresponds (K : Correspondence κ κ') (m m' : Method) : Prop where
  heading : m' = { m with code := m'.code }
  code : List.Forall₂ (Instr.Corresponds K) m.code m'.code
  vars : ∀ v ∈ m.params ++ m.locals, K.var v.name v.name
  frozen : m.frozen = none

structure ClassUnit.Corresponds (K : Correspondence κ κ') (u u' : ClassUnit) : Prop where
  heading : u' = { u with methods := u'.methods }
  methods : List.Forall₂ (Method.Corresponds K) u.methods u'.methods

variable {K : Correspondence κ κ'}

theorem Operand.Corresponds.ty_eq {o o' : Operand} (h : o.Corresponds K o') : o'.ty = o.ty := by
  cases h <;> rfl

/-- The value of an expression: corresponding operands that are no items of arrays. -/
structure Operand.Held (K : Correspondence κ κ') (o o' : Operand) : Prop where
  corresponds : o.Corresponds K o'
  whole : ∀ x i ty p, o ≠ .item x i ty p

end Ir

/-- The parameters and locals of the method correspond to themselves. -/
def Correspondence.Keeps (K : Correspondence κ κ') (m : MethodSymbols) : Prop :=
  ∀ v ∈ m.params ++ m.locals, K.var v.name v.name

/-! ## Stages -/

/-- From corresponding counters the stages come to corresponding counters, at the same fault or with
related values, and write corresponding code. -/
def Lower.Corresponds (K : Correspondence κ κ') {α : Type} (V : α → α → Prop) (x : LowerIn κ α)
    (y : LowerIn κ' α) : Prop :=
  Stage.Lockstep K.counters (List.Forall₂ (Instr.Corresponds K)) Eq V x y

namespace Lower.Corresponds

variable {K : Correspondence κ κ'} {α β : Type} {V : α → α → Prop} {W : β → β → Prop}
  {x : LowerIn κ α} {y : LowerIn κ' α}

protected theorem pure {a a' : α} (h : V a a') : Lower.Corresponds K V (pure a) (pure a') :=
  Stage.Lockstep.pure (joins_forall₂ _) h

protected theorem fail (e : LowerError) : Lower.Corresponds K V (Stage.fail e) (Stage.fail e) :=
  Stage.Lockstep.fail (joins_forall₂ _) rfl

protected theorem emitAll {is is' : List Instr} (h : List.Forall₂ (Instr.Corresponds K) is is') :
    Lower.Corresponds K Eq (Stage.emitAll is) (Stage.emitAll is') :=
  Stage.Lockstep.emitAll h

protected theorem emit {i i' : Instr} (h : i.Corresponds K i') :
    Lower.Corresponds K Eq (Stage.emit i) (Stage.emit i') :=
  .emitAll (.cons h .nil)

protected theorem bind (h : Lower.Corresponds K V x y) {f : α → LowerIn κ β} {g : α → LowerIn κ' β}
    (hfg : ∀ a a', V a a' → Lower.Corresponds K W (f a) (g a')) :
    Lower.Corresponds K W (x >>= f) (y >>= g) :=
  Stage.Lockstep.bind (joins_forall₂ _) h hfg

/-- Goes on after something that gives the same value to both. -/
theorem andThen (h : Lower.Corresponds K Eq x y) {f : α → LowerIn κ β} {g : α → LowerIn κ' β}
    (hfg : ∀ a, Lower.Corresponds K W (f a) (g a)) : Lower.Corresponds K W (x >>= f) (y >>= g) := by
  refine h.bind fun a a' ha => ?_
  subst ha
  exact hfg a

/-- The labels of a new branch or loop correspond. -/
theorem freshLabel :
    Lower.Corresponds K (fun n n' => ∀ p ∈ labelStems, K.label (p ++ toString n) (p ++ toString n'))
      Lower.freshLabel Lower.freshLabel := by
  intro c c' hc
  obtain ⟨hlabels, hnext⟩ := K.branch c c' hc
  exact ⟨.ok hlabels, hnext, .nil⟩

/-- New temporaries correspond. -/
theorem temp (ty : Ty) {rhs rhs' : Instr} (h : rhs.Corresponds K rhs') :
    Lower.Corresponds K (Operand.Held K) (Lower.temp ty rhs) (Lower.temp ty rhs') := by
  intro c c' hc
  obtain ⟨hvar, hnext⟩ := K.temp c c' hc
  have hdest : Operand.Corresponds K (.plain (tempName (number c.temps)) ty)
      (.plain (tempName (number c'.temps)) ty) := .var ty none hvar
  refine ⟨.ok ⟨hdest, ?_⟩, hnext, .cons (.assign ty hdest h) .nil⟩
  intro x i t p hitem
  cases hitem

theorem typeOf (types : TypeMap) (n : Node) :
    Lower.Corresponds K Eq (Lower.typeOf types n) (Lower.typeOf types n) := by
  unfold Lower.typeOf
  split
  · exact .pure rfl
  · exact .fail _

end Lower.Corresponds

/-! ## Expressions -/

namespace Expr

variable {K : Correspondence κ κ'} {sc : Scope} {types : TypeMap}

theorem held_literal (v : Int32) (ty : Ty) : Operand.Held K (.literal v ty) (.literal v ty) where
  corresponds := .literal v ty
  whole := by
    intro x i t p h
    cases h

theorem held_cls (c : String) : Operand.Held K (.cls c) (.cls c) where
  corresponds := .cls c
  whole := by
    intro x i t p h
    cases h

theorem held_var {x : String} (hx : K.var x x) (ty : Ty) (p : Option Nat) :
    Operand.Held K (.var x ty p) (.var x ty p) where
  corresponds := .var ty p hx
  whole := by
    intro y i t q h
    cases h

theorem held_varOperand (hsc : K.Keeps sc.method) {x : String} {b : Binding}
    (hb : sc.resolve x = some b) (hfield : b.isField = false) (marked : Bool) :
    (varOperand marked x b).Held K (varOperand marked x b) := by
  have hx : K.var x x := hsc _ (Scope.mem_of_resolve hb hfield)
  cases b with
  | param n q => exact held_var hx ..
  | loc q => exact held_var hx ..
  | field q => exact held_var hx ..

theorem readField_corresponds (x : String) (ty : Ty) :
    Lower.Corresponds K (Operand.Held K) (readField x ty) (readField x ty) :=
  .temp ty (.getField _ ty)

theorem lowerVar_corresponds (hsc : K.Keeps sc.method) (marked : Bool) (x : String) (span : Span) :
    Lower.Corresponds K (Operand.Held K) (lowerVar sc marked x span)
      (lowerVar sc marked x span) := by
  unfold lowerVar
  cases hresolve : sc.resolve x with
  | none =>
    dsimp only
    split
    · exact .pure (held_cls x)
    · exact .fail _
  | some b => cases b with
    | field q => exact readField_corresponds x q.ty
    | loc q => exact .pure (held_varOperand hsc hresolve rfl marked)
    | param n q => exact .pure (held_varOperand hsc hresolve rfl marked)

theorem callInstr_corresponds {t t' : Operand} (ht : t.Corresponds K t') {as as' : List Operand}
    (has : List.Forall₂ (Operand.Corresponds K) as as') (m : String) (ty : Ty) :
    (callInstr sc t m as ty).Corresponds K (callInstr sc t' m as' ty) := by
  have hparams : declaredParams sc t' m as'.length = declaredParams sc t m as.length := by
    unfold declaredParams
    rw [ht.ty_eq, has.length_eq]
  unfold callInstr
  rw [hparams]
  cases ht with
  | literal v t => exact .call _ m _ ty (.literal v t) has
  | var t p hx => exact .call _ m _ ty (.var t p hx) has
  | item t p hx hi => exact .call _ m _ ty (.item t p hx hi) has
  | cls c => exact .call _ m _ ty (.cls c) has

/-- What cannot be indexed has no variable in its text, so both stop at the same fault. -/
theorem itemOf_corresponds {base base' index index' : Operand} (hbase : base.Held K base')
    (hindex : index.Corresponds K index') (ty : Ty) (span : Span) :
    Lower.Corresponds K (Operand.Corresponds K) (itemOf base index ty span)
      (itemOf base' index' ty span) := by
  obtain ⟨hbase, hwhole⟩ := hbase
  cases hbase with
  | var t p hx => exact .pure (.item ty p hx hindex)
  | literal v t => exact .fail _
  | item t p hx hi => exact absurd rfl (hwhole _ _ t p)
  | cls c => exact .fail _

theorem lowerAll_corresponds {marked : Bool} {es : List Expr}
    (h : ∀ e ∈ es, Lower.Corresponds K (Operand.Held K) (e.lower sc types marked)
      (e.lower sc types marked)) :
    Lower.Corresponds K (List.Forall₂ (Operand.Corresponds K)) (lowerAll sc types marked es)
      (lowerAll sc types marked es) := by
  induction es with
  | nil => exact .pure .nil
  | cons e es ih =>
    rw [List.forall_mem_cons] at h
    exact .bind h.1 fun o o' ho => .bind (ih h.2) fun os os' hos => .pure (.cons ho.corresponds hos)

theorem lower_corresponds (hsc : K.Keeps sc.method) (marked : Bool) (e : Expr) :
    Lower.Corresponds K (Operand.Held K) (e.lower sc types marked) (e.lower sc types marked) := by
  induction e using Expr.induction with
  | int n v => exact .pure (held_literal v .int)
  | bool n v => exact .pure (held_literal _ .bool)
  | var n x => exact lowerVar_corresponds hsc marked x n.span
  -- The name of the object is no temporary, so it is kept by every correspondence.
  | this n => exact .pure (held_var K.this _ none)
  | not n e ih => exact .bind ih fun o o' ho => .temp .bool (.not .bool ho.corresponds)
  | binary n op l r ihl ihr =>
    refine .andThen (.typeOf types n) fun ty => .bind ihl fun a a' ha => .bind ihr fun b b' hb => ?_
    exact .temp ty (.binary op ty ha.corresponds hb.corresponds)
  | call n r m args ihr ihargs =>
    rw [lower, lower]
    refine .andThen (.typeOf types n) fun ty => ?_
    split
    · exact .fail _
    · refine .bind (lowerAll_corresponds ihargs) fun os os' hos => .bind ihr fun o o' ho => ?_
      exact .temp ty (callInstr_corresponds ho.corresponds hos m.node ty)
  | newObject n c =>
    refine .bind (.temp (.cls c.node) (.newObject c.node)) fun o o' ho => ?_
    exact .andThen (.emit (.call .special _ _ _ ho.corresponds .nil)) fun _ => .pure ho
  | newArray n e ih =>
    refine .andThen (.typeOf types n) fun ty => .bind ih fun o o' ho => ?_
    exact .temp ty (.newArray ty ho.corresponds)
  | length n a ih => exact .bind ih fun o o' ho => .temp .int (.length ho.corresponds)
  | index n a i iha ihi =>
    refine .andThen (.typeOf types n) fun ty => .bind iha fun b b' hb => .bind ihi fun j j' hj => ?_
    refine .bind (itemOf_corresponds hb hj.corresponds ty n.span) fun o o' ho => ?_
    exact .temp ty (.value ho)
  | paren n e ih => exact ih

theorem lowerEffect_corresponds (hsc : K.Keeps sc.method) (e : Expr) :
    Lower.Corresponds K Eq (e.lowerEffect sc types) (e.lowerEffect sc types) := by
  induction e using Expr.induction with
  | call n r m args ihr ihargs =>
    refine .bind (lowerAll_corresponds fun a _ => lower_corresponds hsc true a) fun os os' hos => ?_
    refine .bind (lower_corresponds hsc true r) fun o o' ho => .emit ?_
    exact callInstr_corresponds ho.corresponds hos m.node _
  | paren n e ih => exact ih
  | _ => exact .bind (lower_corresponds hsc true _) fun _ _ _ => .pure rfl

end Expr

/-! ## Statements -/

namespace Stmt

variable {K : Correspondence κ κ'} {sc : Scope} {types : TypeMap}

theorem resolveTarget_corresponds (x : Located String) :
    Lower.Corresponds K (fun b b' => b' = b ∧ sc.resolve x.node = some b) (resolveTarget sc x)
      (resolveTarget sc x) := by
  unfold resolveTarget
  cases hresolve : sc.resolve x.node with
  | none => exact .fail _
  | some b => exact .pure ⟨rfl, rfl⟩

theorem lowerAssign_corresponds (hsc : K.Keeps sc.method) (x : Located String) (v : Expr) :
    Lower.Corresponds K Eq (lowerAssign sc types x v) (lowerAssign sc types x v) := by
  refine .bind (resolveTarget_corresponds x) fun b b' hb => ?_
  obtain ⟨rfl, hresolve⟩ := hb
  refine .bind (Expr.lower_corresponds hsc true v) fun o o' ho => ?_
  have hdest : b'.isField = false → (Expr.varOperand true x.node b').Corresponds K
      (Expr.varOperand true x.node b') :=
    fun hfield => (Expr.held_varOperand hsc hresolve hfield true).corresponds
  cases b' with
  | field q => exact .emit (.putField _ ho.corresponds)
  | loc q => exact .emit (.assign _ (hdest rfl) (.value ho.corresponds))
  | param n q => exact .emit (.assign _ (hdest rfl) (.value ho.corresponds))

theorem itemTy_corresponds (x : Located String) (b : Binding) :
    Lower.Corresponds K Eq (itemTy x b) (itemTy x b) := by
  unfold itemTy
  split
  · exact .pure rfl
  · exact .fail _

theorem arrayOperand_corresponds (hsc : K.Keeps sc.method) {x : Located String} {b : Binding}
    (hb : sc.resolve x.node = some b) :
    Lower.Corresponds K (Operand.Held K) (arrayOperand x b) (arrayOperand x b) := by
  cases b with
  | field q => exact Expr.readField_corresponds x.node q.ty
  | loc q => exact .pure (Expr.held_varOperand hsc hb rfl true)
  | param n q => exact .pure (Expr.held_varOperand hsc hb rfl true)

theorem lowerArrayAssign_corresponds (hsc : K.Keeps sc.method) (x : Located String) (i v : Expr) :
    Lower.Corresponds K Eq (lowerArrayAssign sc types x i v) (lowerArrayAssign sc types x i v) := by
  refine .bind (resolveTarget_corresponds x) fun b b' hb => ?_
  obtain ⟨rfl, hresolve⟩ := hb
  refine .andThen (itemTy_corresponds x b') fun ty => .bind (arrayOperand_corresponds hsc hresolve)
    fun a a' ha => .bind (Expr.lower_corresponds hsc true i) fun j j' hj =>
      .bind (Expr.lower_corresponds hsc true v) fun o o' ho => ?_
  refine .bind (Expr.itemOf_corresponds ha hj.corresponds ty x.span) fun dest dest' hdest => ?_
  exact .emit (.assign ty hdest (.value ho.corresponds))

theorem lowerReturn_corresponds (hsc : K.Keeps sc.method) (v : Option Expr) :
    Lower.Corresponds K Eq (lowerReturn sc types v) (lowerReturn sc types v) := by
  cases v with
  | none => exact .emit (.retNone _)
  | some v =>
    exact .bind (Expr.lower_corresponds hsc false v) fun o o' ho => .emit (.ret _ ho.corresponds)

theorem lowerAll_corresponds_of {ss : List Stmt}
    (h : ∀ t ∈ ss, Lower.Corresponds K Eq (t.lower sc types) (t.lower sc types)) :
    Lower.Corresponds K Eq (lowerAll sc types ss) (lowerAll sc types ss) := by
  induction ss with
  | nil => exact .pure rfl
  | cons t ss ih =>
    rw [List.forall_mem_cons] at h
    exact .andThen h.1 fun _ => ih h.2

/-- The labels of a branch or loop, once its number is taken. -/
theorem corresponding_labels {n n' : Nat}
    (h : ∀ p ∈ labelStems, K.label (p ++ toString n) (p ++ toString n')) :
    K.label (thenLabel n) (thenLabel n') ∧ K.label (endifLabel n) (endifLabel n') ∧
      K.label (condLabel n) (condLabel n') ∧ K.label (bodyLabel n) (bodyLabel n') ∧
      K.label (endLabel n) (endLabel n') :=
  ⟨h "then_" (by decide), h "endif_" (by decide), h "while_cond_" (by decide),
    h "while_body_" (by decide), h "while_end_" (by decide)⟩

theorem joinJump_corresponds {n n' : Nat} (h : K.label (endifLabel n) (endifLabel n')) (e : Stmt) :
    List.Forall₂ (Instr.Corresponds K) (joinJump n e) (joinJump n' e) := by
  unfold joinJump
  split
  · exact .nil
  · exact .cons (.goto h) .nil

theorem joinLabel_corresponds {n n' : Nat} (h : K.label (endifLabel n) (endifLabel n'))
    (t e : Stmt) : List.Forall₂ (Instr.Corresponds K) (joinLabel n t e) (joinLabel n' t e) := by
  unfold joinLabel
  split
  · exact .nil
  · exact .cons (.label h) .nil

theorem lower_corresponds (hsc : K.Keeps sc.method) (t : Stmt) :
    Lower.Corresponds K Eq (t.lower sc types) (t.lower sc types) := by
  induction t using Stmt.induction with
  | varDecl sp d => exact .pure rfl
  | block sp body ih => exact lowerAll_corresponds_of ih
  | ifThen sp c t ih =>
    refine .bind .freshLabel fun n n' hn => ?_
    -- Corresponding numbers give corresponding labels, and all labels of a statement have one
    -- number.
    obtain ⟨hthen, hend, -⟩ := corresponding_labels hn
    refine .bind (Expr.lower_corresponds hsc true c) fun o o' ho => ?_
    exact .andThen (.emit (.branch ho.corresponds hthen)) fun _ =>
      .andThen (.emit (.goto hend)) fun _ => .andThen (.emit (.label hthen)) fun _ =>
        .andThen ih fun _ => .emit (.label hend)
  | ifElse sp c t e iht ihe =>
    rw [lower_ifElse, lower_ifElse]
    refine .bind .freshLabel fun n n' hn => ?_
    obtain ⟨hthen, hend, -⟩ := corresponding_labels hn
    refine .bind (Expr.lower_corresponds hsc true c) fun o o' ho => ?_
    exact .andThen (.emit (.branch ho.corresponds hthen)) fun _ => .andThen ihe fun _ =>
      .andThen (.emitAll (joinJump_corresponds hend e)) fun _ =>
        .andThen (.emit (.label hthen)) fun _ => .andThen iht fun _ =>
          .emitAll (joinLabel_corresponds hend t e)
  | whileLoop sp c t ih =>
    refine .bind .freshLabel fun n n' hn => ?_
    obtain ⟨-, -, hcond, hbody, hend⟩ := corresponding_labels hn
    refine .andThen (.emit (.label hcond)) fun _ =>
      .bind (Expr.lower_corresponds hsc true c) fun o o' ho => ?_
    exact .andThen (.emit (.branch ho.corresponds hbody)) fun _ =>
      .andThen (.emit (.goto hend)) fun _ => .andThen (.emit (.label hbody)) fun _ =>
        .andThen ih fun _ => .andThen (.emit (.goto hcond)) fun _ => .emit (.label hend)
  | expr sp e => exact Expr.lowerEffect_corresponds hsc e
  | assign sp x v => exact lowerAssign_corresponds hsc x v
  | arrayAssign sp x i v => exact lowerArrayAssign_corresponds hsc x i v
  | ret sp v => exact lowerReturn_corresponds hsc v

theorem lowerAll_corresponds (hsc : K.Keeps sc.method) (ss : List Stmt) :
    Lower.Corresponds K Eq (lowerAll sc types ss) (lowerAll sc types ss) :=
  lowerAll_corresponds_of fun t _ => lower_corresponds hsc t

end Stmt

/-! ## Methods and classes -/

/-- From corresponding counters both builds come to corresponding counters, at the same fault or
with related values; what they log is not compared. -/
def Build.Corresponds (K : Correspondence κ κ') {α : Type} (V : α → α → Prop) (x : BuildIn κ α)
    (y : BuildIn κ' α) : Prop :=
  Stage.Lockstep K.counters (fun _ _ => True) Eq V x y

variable {K : Correspondence κ κ'} {table : SymbolTable} {types : TypeMap} {cls : ClassSymbols}

theorem MethodDecl.finalReturn_corresponds (d : MethodDecl) :
    List.Forall₂ (Instr.Corresponds K) d.finalReturn d.finalReturn := by
  unfold finalReturn
  split
  · exact .cons (.retNone _) .nil
  · exact .nil

theorem MethodDecl.lower_corresponds (hcls : ∀ m ∈ cls.methods, K.Keeps m) (d : MethodDecl) :
    Build.Corresponds K (Method.Corresponds K) (d.lower table types cls)
      (d.lower table types cls) := by
  unfold lower
  cases hmethod : cls.method? d.name.node with
  | none => exact .fail joins_true rfl
  | some method =>
    have hsc : K.Keeps (d.scope table cls method).method :=
      hcls method (List.mem_of_find?_eq_some hmethod)
    have hbody : Lower.Corresponds K Eq (Stmt.lowerAll (d.scope table cls method) types d.body)
        (Stmt.lowerAll (d.scope table cls method) types d.body) :=
      Stmt.lowerAll_corresponds hsc d.body
    refine .bind joins_true (hbody.collect fun _ _ _ => trivial) fun code code' hcode => ?_
    refine .bind joins_true (.emitAll trivial) fun _ _ _ => .pure joins_true ?_
    exact ⟨rfl, List.rel_append hcode d.finalReturn_corresponds, hsc, rfl⟩

theorem Ir.Method.defaultConstructor_corresponds (c : String) :
    (defaultConstructor c).Corresponds K (defaultConstructor c) where
  heading := rfl
  code := .cons (.call .special _ _ _ (.var _ none K.this) .nil) (.cons (.retNone _) .nil)
  vars := List.forall_mem_nil _
  frozen := rfl

/-- **Classes.** If the parameters and locals of a class keep their names, then from corresponding
counters lowering it stops at the same fault or gives corresponding units, and in both cases comes
to corresponding counters. -/
theorem ClassDecl.lower_corresponds {d : ClassDecl}
    (hd : ∀ cls, table.class? d.name.node = some cls → ∀ m ∈ cls.methods, K.Keeps m)
    (imports : List String) :
    Build.Corresponds K (ClassUnit.Corresponds K) (d.lower table types imports)
      (d.lower table types imports) := by
  unfold lower
  cases hcls : table.class? d.name.node with
  | none => exact .fail joins_true rfl
  | some cls =>
    have hmethods : Build.Corresponds K (List.Forall₂ (Method.Corresponds K))
        (MethodDecl.lowerAll table types cls d.methods)
        (MethodDecl.lowerAll table types cls d.methods) := by
      rw [MethodDecl.lowerAll_eq_mapM', MethodDecl.lowerAll_eq_mapM']
      exact .mapM' joins_true
        (List.forall₂_same.2 fun md _ => md.lower_corresponds (hd cls hcls))
    have htemps : Build.Corresponds K (fun _ _ => True)
        (Stage.update fun c => (number c.temps, c)) (Stage.update fun c => (number c.temps, c)) :=
      fun _ _ hc => ⟨.ok trivial, hc, trivial⟩
    refine .bind joins_true hmethods fun ms ms' hms => .bind joins_true htemps fun n n' _ => ?_
    refine .bind joins_true (.emitAll trivial) fun _ _ _ => .pure joins_true ⟨rfl, ?_⟩
    exact List.rel_append hms (.cons (Method.defaultConstructor_corresponds _) .nil)

end MiniJava
