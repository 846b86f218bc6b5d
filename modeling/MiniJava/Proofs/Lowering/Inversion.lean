import MiniJava.Lowering.Program
import MiniJava.Proofs.Annotation.Quiet
import MiniJava.Proofs.Stage
import MiniJava.Proofs.Syntax

/-!
# What lowering writes

For every kind of expression and statement: if lowering it ends well, then so did lowering its
parts, and its code is the code of the parts with what the kind itself adds. Everything that is said
about lowered code is derived from these equivalences and never looks at how lowering is computed.
-/

namespace MiniJava

open Ir

/-- The counters after a number for labels was handed out. -/
def Counters.nextLabel (c : Counters) : Counters := { c with labels := c.labels + 1 }

/-- The counters after a temporary was handed out. -/
def Counters.nextTemp (c : Counters) : Counters := { c with temps := c.temps + 1 }

/-! ## Single steps -/

namespace Lower

/-- What `rhs` gives goes to the next temporary. -/
structure Kept (ty : Ty) (rhs : Instr) (c : Counters) (o : Operand) (c' : Counters)
    (code : List Instr) : Prop where
  operand : o = .plain (tempName c.temps) ty
  counters : c' = c.nextTemp
  written : code = [.assign (.plain (tempName c.temps) ty) ty rhs]

variable {c c' : Counters} {code : List Instr}

theorem temp_ok_iff {ty : Ty} {rhs : Instr} {o : Operand} :
    (temp ty rhs).run c = ⟨.ok o, c', code⟩ ↔ Kept ty rhs c o c' code := by
  constructor
  · intro h
    injection h with ho hc hcode
    injection ho with ho
    exact ⟨ho.symm, hc.symm, hcode.symm⟩
  · rintro ⟨rfl, rfl, rfl⟩
    rfl

theorem typeOf_ok_iff {types : TypeMap} {n : Node} {ty : Ty} :
    (typeOf types n).run c = ⟨.ok ty, c', code⟩ ↔
      types.get? n.id = some ty ∧ c' = c ∧ code = [] := by
  unfold typeOf
  split
  · next t ht =>
    rw [Stage.pure_ok_iff, ht]
    grind
  · next ht =>
    rw [ht]
    simp

theorem typeOf_bind_ok_iff {β : Type} {types : TypeMap} {n : Node} {f : Ty → Lower β} {b : β} :
    (typeOf types n >>= f).run c = ⟨.ok b, c', code⟩ ↔
      ∃ ty, types.get? n.id = some ty ∧ (f ty).run c = ⟨.ok b, c', code⟩ :=
  Stage.silent_bind_ok_iff fun _ _ _ => typeOf_ok_iff

theorem freshLabel_bind_run {β : Type} {f : Nat → Lower β} :
    (freshLabel >>= f).run c = (f c.labels).run c.nextLabel := rfl

end Lower

open Lower

/-! ## Expressions -/

namespace Expr

/-- Lowering the expression ends well, with the operand, the counters and the code given. -/
def Lowers (sc : Scope) (types : TypeMap) (marked : Bool) (e : Expr) (c : Counters) (o : Operand)
    (c' : Counters) (code : List Instr) : Prop :=
  (e.lower sc types marked).run c = ⟨.ok o, c', code⟩

/-- Lowering the expressions one after the other ends well. -/
def LowersAll (sc : Scope) (types : TypeMap) (marked : Bool) (es : List Expr) (c : Counters)
    (os : List Operand) (c' : Counters) (code : List Instr) : Prop :=
  (lowerAll sc types marked es).run c = ⟨.ok os, c', code⟩

section

variable {sc : Scope} {types : TypeMap} {mk : Bool} {c c' : Counters} {o : Operand}
  {os : List Operand} {code : List Instr} {n : Node}

theorem lowers_int {v : Int32} :
    Lowers sc types mk (int n v) c o c' code ↔ o = .literal v .int ∧ c' = c ∧ code = [] := by
  rw [Lowers, lower, Stage.pure_ok_iff]

theorem lowers_bool {v : Bool} :
    Lowers sc types mk (bool n v) c o c' code ↔
      o = .literal (if v then 1 else 0) .bool ∧ c' = c ∧ code = [] := by
  rw [Lowers, lower, Stage.pure_ok_iff]

theorem lowers_this :
    Lowers sc types mk (this n) c o c' code ↔ o = .this sc.cls.name ∧ c' = c ∧ code = [] := by
  rw [Lowers, lower, Stage.pure_ok_iff]

/-- A field is read into a temporary; a local, a parameter or a class is its own operand. -/
theorem lowers_var {x : String} :
    Lowers sc types mk (var n x) c o c' code ↔
      (∃ s, sc.resolve x = some (.field s) ∧
        Kept s.ty (.getField (.plain x s.ty) s.ty) c o c' code) ∨
      (∃ b, sc.resolve x = some b ∧ b.isField = false ∧ o = varOperand mk x b ∧ c' = c ∧
        code = []) ∨
      (sc.resolve x = none ∧ sc.isClassName x = true ∧ o = .cls x ∧ c' = c ∧ code = []) := by
  rw [Lowers, lower, lowerVar]
  rcases hr : sc.resolve x with _ | b
  · by_cases hc : sc.isClassName x = true
    · simp [hc]
      grind
    · simp [hc]
  · rcases b with s | ⟨k, s⟩ | s
    · simp [Stage.pure_ok_iff, Binding.isField, -Stage.pure_run]
    · simp [Stage.pure_ok_iff, Binding.isField, -Stage.pure_run]
    · simp [readField, temp_ok_iff, Binding.isField]

theorem lowers_not {e : Expr} :
    Lowers sc types mk (not n e) c o c' code ↔
      ∃ a c₁ k₁ k₂, Lowers sc types mk e c a c₁ k₁ ∧ Kept .bool (.not a .bool) c₁ o c' k₂ ∧
        code = k₁ ++ k₂ := by
  rw [Lowers, lower, Stage.bind_ok_iff]
  simp only [temp_ok_iff, Lowers]

theorem lowers_binary {op : BinOp} {l r : Expr} :
    Lowers sc types mk (binary n op l r) c o c' code ↔
      ∃ ty a c₁ k₁ b c₂ k₂ k₃, types.get? n.id = some ty ∧ Lowers sc types mk l c a c₁ k₁ ∧
        Lowers sc types mk r c₁ b c₂ k₂ ∧ Kept ty (.binary op a b ty) c₂ o c' k₃ ∧
        code = k₁ ++ (k₂ ++ k₃) := by
  rw [Lowers, lower, typeOf_bind_ok_iff]
  simp only [Stage.bind_ok_iff, temp_ok_iff, Lowers]
  grind

theorem lowers_newObject {cl : Located String} :
    Lowers sc types mk (newObject n cl) c o c' code ↔
      ∃ k, Kept (.cls cl.node) (.newObject cl.node) c o c' k ∧
        code = k ++ [.call .special o "<init>" [] (some []) .void] := by
  rw [Lowers, lower]
  simp only [Stage.bind_ok_iff, temp_ok_iff, Stage.emit_ok_iff, Stage.pure_ok_iff]
  grind

theorem lowers_newArray {e : Expr} :
    Lowers sc types mk (newArray n e) c o c' code ↔
      ∃ ty a c₁ k₁ k₂, types.get? n.id = some ty ∧ Lowers sc types mk e c a c₁ k₁ ∧
        Kept ty (.newArray a ty) c₁ o c' k₂ ∧ code = k₁ ++ k₂ := by
  rw [Lowers, lower, typeOf_bind_ok_iff]
  simp only [Stage.bind_ok_iff, temp_ok_iff, Lowers]
  grind

theorem lowers_length {a : Expr} :
    Lowers sc types mk (length n a) c o c' code ↔
      ∃ b c₁ k₁ k₂, Lowers sc types mk a c b c₁ k₁ ∧ Kept .int (.length b) c₁ o c' k₂ ∧
        code = k₁ ++ k₂ := by
  rw [Lowers, lower, Stage.bind_ok_iff]
  simp only [temp_ok_iff, Lowers]

/-- The array of an item is held by a variable. -/
theorem itemOf_bind_ok_iff {β : Type} {base place : Operand} {ty : Ty} {span : Span}
    {f : Operand → Lower β} {b : β} :
    (itemOf base place ty span >>= f).run c = ⟨.ok b, c', code⟩ ↔
      ∃ x t p, base = .var x t p ∧ (f (.item x place ty p)).run c = ⟨.ok b, c', code⟩ := by
  cases base with
  | var x t p =>
    rw [itemOf, pure_bind]
    grind
  | literal | item | cls => simp [itemOf]

theorem lowers_index {a i : Expr} :
    Lowers sc types mk (index n a i) c o c' code ↔
      ∃ ty x t p c₁ k₁ j c₂ k₂ k₃, types.get? n.id = some ty ∧
        Lowers sc types mk a c (.var x t p) c₁ k₁ ∧ Lowers sc types mk i c₁ j c₂ k₂ ∧
        Kept ty (.value (.item x j ty p)) c₂ o c' k₃ ∧ code = k₁ ++ (k₂ ++ k₃) := by
  rw [Lowers, lower, typeOf_bind_ok_iff]
  simp only [↓itemOf_bind_ok_iff, Stage.bind_ok_iff, temp_ok_iff, Lowers]
  grind

theorem lowers_paren {e : Expr} :
    Lowers sc types mk (paren n e) c o c' code ↔ Lowers sc types mk e c o c' code := by
  rw [Lowers, lower, Lowers]

/-- A call that gives a value. Its arguments come before its receiver. -/
theorem lowers_call {r : Expr} {m : Located String} {args : List Expr} :
    Lowers sc types mk (call n r m args) c o c' code ↔
      ∃ ty as c₁ k₁ t c₂ k₂ k₃, types.get? n.id = some ty ∧ ty ≠ .void ∧
        LowersAll sc types mk args c as c₁ k₁ ∧ Lowers sc types mk r c₁ t c₂ k₂ ∧
        Kept ty (callInstr sc t m.node as ty) c₂ o c' k₃ ∧ code = k₁ ++ (k₂ ++ k₃) := by
  rw [Lowers, lower, typeOf_bind_ok_iff]
  constructor
  · rintro ⟨ty, hty, hrest⟩
    by_cases hvoid : ty = .void
    · simp [hvoid] at hrest
    · simp only [hvoid, beq_iff_eq, if_false, Stage.bind_ok_iff, temp_ok_iff] at hrest
      obtain ⟨as, c₁, k₁, _, hargs, ⟨t, c₂, k₂, k₃, hr, hkept, rfl⟩, rfl⟩ := hrest
      exact ⟨ty, as, c₁, k₁, t, c₂, k₂, k₃, hty, hvoid, hargs, hr, hkept, rfl⟩
  · rintro ⟨ty, as, c₁, k₁, t, c₂, k₂, k₃, hty, hvoid, hargs, hr, hkept, rfl⟩
    refine ⟨ty, hty, ?_⟩
    simp only [hvoid, beq_iff_eq, if_false, Stage.bind_ok_iff, temp_ok_iff]
    exact ⟨as, c₁, k₁, _, hargs, ⟨t, c₂, k₂, _, hr, hkept, rfl⟩, rfl⟩

theorem lowersAll_nil :
    LowersAll sc types mk [] c os c' code ↔ os = [] ∧ c' = c ∧ code = [] := by
  rw [LowersAll, lowerAll, Stage.pure_ok_iff]

theorem lowersAll_cons {e : Expr} {es : List Expr} :
    LowersAll sc types mk (e :: es) c os c' code ↔
      ∃ a c₁ k₁ as k₂, Lowers sc types mk e c a c₁ k₁ ∧ LowersAll sc types mk es c₁ as c' k₂ ∧
        os = a :: as ∧ code = k₁ ++ k₂ := by
  rw [LowersAll, lowerAll]
  simp only [Stage.bind_ok_iff, Stage.pure_ok_iff, Lowers, LowersAll]
  grind

/-! An expression for its effects. -/

/-- Lowering the expression for its effects ends well. -/
def LowersEffect (sc : Scope) (types : TypeMap) (e : Expr) (c c' : Counters)
    (code : List Instr) : Prop :=
  (e.lowerEffect sc types).run c = ⟨.ok (), c', code⟩

theorem lowersEffect_paren {e : Expr} :
    LowersEffect sc types (paren n e) c c' code ↔ LowersEffect sc types e c c' code := by
  rw [LowersEffect, lowerEffect, LowersEffect]

theorem lowersEffect_call {r : Expr} {m : Located String} {args : List Expr} :
    LowersEffect sc types (call n r m args) c c' code ↔
      ∃ as c₁ k₁ t k₂, LowersAll sc types true args c as c₁ k₁ ∧
        Lowers sc types true r c₁ t c' k₂ ∧
        code = k₁ ++ (k₂ ++ [callInstr sc t m.node as ((types.get? n.id).getD .void)]) := by
  rw [LowersEffect, lowerEffect]
  simp only [Stage.bind_ok_iff, Stage.emit_ok_iff, Lowers, LowersAll]
  grind

/-- Neither a call nor a parenthesis. -/
def IsPlain (e : Expr) : Prop :=
  (∀ n r m args, e ≠ call n r m args) ∧ ∀ n i, e ≠ paren n i

theorem lowersEffect_plain {e : Expr} (he : e.IsPlain) :
    LowersEffect sc types e c c' code ↔ ∃ o, Lowers sc types true e c o c' code := by
  have hdef : e.lowerEffect sc types = e.lower sc types true >>= fun _ => pure () := by
    cases e with
    | call n r m args => exact absurd rfl (he.1 n r m args)
    | paren n i => exact absurd rfl (he.2 n i)
    | _ => rfl
  rw [LowersEffect, hdef, Stage.bind_ok_iff]
  simp only [Stage.pure_ok_iff, Lowers]
  grind

end

end Expr

/-! ## Statements -/

namespace Stmt

open MiniJava.Expr

/-- Lowering the statement ends well. -/
def Lowers (sc : Scope) (types : TypeMap) (s : Stmt) (c c' : Counters) (code : List Instr) : Prop :=
  (s.lower sc types).run c = ⟨.ok (), c', code⟩

/-- Lowering the statements one after the other ends well. -/
def LowersAll (sc : Scope) (types : TypeMap) (ss : List Stmt) (c c' : Counters)
    (code : List Instr) : Prop :=
  (lowerAll sc types ss).run c = ⟨.ok (), c', code⟩

variable {sc : Scope} {types : TypeMap} {c c' : Counters} {code : List Instr} {sp : Span}

theorem lowers_varDecl {d : VarDecl} :
    Lowers sc types (.varDecl sp d) c c' code ↔ c' = c ∧ code = [] := by
  rw [Lowers, lower, Stage.pure_ok_iff]
  simp

theorem lowers_block {body : List Stmt} :
    Lowers sc types (.block sp body) c c' code ↔ LowersAll sc types body c c' code := by
  rw [Lowers, lower, LowersAll]

theorem lowersAll_nil : LowersAll sc types [] c c' code ↔ c' = c ∧ code = [] := by
  rw [LowersAll, lowerAll, Stage.pure_ok_iff]
  simp

theorem lowersAll_cons {s : Stmt} {ss : List Stmt} :
    LowersAll sc types (s :: ss) c c' code ↔
      ∃ c₁ k₁ k₂, Lowers sc types s c c₁ k₁ ∧ LowersAll sc types ss c₁ c' k₂ ∧
        code = k₁ ++ k₂ := by
  rw [LowersAll, lowerAll, Stage.bind_ok_iff]
  simp only [Lowers, LowersAll]
  grind

theorem lowers_ifThen {cond : Expr} {t : Stmt} :
    Lowers sc types (.ifThen sp cond t) c c' code ↔
      ∃ o c₁ k₁ k₂, Expr.Lowers sc types true cond c.nextLabel o c₁ k₁ ∧
        Lowers sc types t c₁ c' k₂ ∧
        code = k₁ ++ (.branch o (thenLabel c.labels) :: .goto (endifLabel c.labels) ::
          .label (thenLabel c.labels) :: (k₂ ++ [.label (endifLabel c.labels)])) := by
  rw [Lowers, lower, freshLabel_bind_run]
  simp only [↓Stage.emit_bind_ok_iff, Stage.bind_ok_iff, Stage.emit_ok_iff, Lowers, Expr.Lowers]
  grind

/-- The jump behind the `else` branch, which is not written if that branch always returns. -/
def joinJump (n : Nat) (e : Stmt) : List Instr :=
  if e.definitelyReturns then [] else [.goto (endifLabel n)]

/-- The label behind both branches, which is not written if both always return. -/
def joinLabel (n : Nat) (t e : Stmt) : List Instr :=
  if e.definitelyReturns && t.definitelyReturns then [] else [.label (endifLabel n)]

/-- A branch as a row of steps without a choice among them. -/
theorem lower_ifElse {κ : Type} [Counting κ] {cond : Expr} {t e : Stmt} :
    ((ifElse sp cond t e).lower sc types : LowerIn κ Unit) = (do
      let n ← freshLabel
      let o ← cond.lower sc types true
      Stage.emit (.branch o (thenLabel n))
      e.lower sc types
      Stage.emitAll (joinJump n e)
      Stage.emit (.label (thenLabel n))
      t.lower sc types
      Stage.emitAll (joinLabel n t e)) := by
  rw [lower]
  unfold joinJump joinLabel
  cases e.definitelyReturns <;> cases t.definitelyReturns <;> rfl

theorem joinJump_bind_ok_iff {n : Nat} {e : Stmt} {f : Lower Unit} :
    (if !e.definitelyReturns then Stage.emit (.goto (endifLabel n)) >>= fun _ => f else f).run c =
      ⟨.ok (), c', code⟩ ↔ ∃ k, f.run c = ⟨.ok (), c', k⟩ ∧ code = joinJump n e ++ k := by
  cases he : e.definitelyReturns
  · simp [joinJump, he, Stage.emit_bind_ok_iff]
  · simp [joinJump, he]

theorem joinLabel_ok_iff {n : Nat} {t e : Stmt} :
    (if !(e.definitelyReturns && t.definitelyReturns) then Stage.emit (.label (endifLabel n))
      else pure () : Lower Unit).run c = ⟨.ok (), c', code⟩ ↔ c' = c ∧ code = joinLabel n t e := by
  rw [joinLabel]
  cases e.definitelyReturns && t.definitelyReturns
  · exact Stage.emit_ok_iff
  · simp [-Stage.pure_run, Stage.pure_ok_iff]

theorem lowers_ifElse {cond : Expr} {t e : Stmt} :
    Lowers sc types (.ifElse sp cond t e) c c' code ↔
      ∃ o c₁ k₁ c₂ k₂ k₃, Expr.Lowers sc types true cond c.nextLabel o c₁ k₁ ∧
        Lowers sc types e c₁ c₂ k₂ ∧ Lowers sc types t c₂ c' k₃ ∧
        code = k₁ ++ (.branch o (thenLabel c.labels) :: (k₂ ++ (joinJump c.labels e ++
          .label (thenLabel c.labels) :: (k₃ ++ joinLabel c.labels t e)))) := by
  rw [Lowers, lower, freshLabel_bind_run]
  simp only [↓Stage.emit_bind_ok_iff, joinJump_bind_ok_iff, joinLabel_ok_iff, Stage.bind_ok_iff,
    Lowers, Expr.Lowers]
  grind

theorem lowers_whileLoop {cond : Expr} {b : Stmt} :
    Lowers sc types (.whileLoop sp cond b) c c' code ↔
      ∃ o c₁ k₁ k₂, Expr.Lowers sc types true cond c.nextLabel o c₁ k₁ ∧
        Lowers sc types b c₁ c' k₂ ∧
        code = .label (condLabel c.labels) :: (k₁ ++ (.branch o (bodyLabel c.labels) ::
          .goto (endLabel c.labels) :: .label (bodyLabel c.labels) ::
          (k₂ ++ [.goto (condLabel c.labels), .label (endLabel c.labels)]))) := by
  rw [Lowers, lower, freshLabel_bind_run]
  simp only [↓Stage.emit_bind_ok_iff, Stage.bind_ok_iff, Stage.emit_ok_iff, Lowers, Expr.Lowers]
  grind

theorem lowers_expr {e : Expr} :
    Lowers sc types (.expr sp e) c c' code ↔ LowersEffect sc types e c c' code := by
  rw [Lowers, lower, LowersEffect]

theorem resolveTarget_ok_iff {x : Located String} {b : Binding} :
    (resolveTarget sc x).run c = ⟨.ok b, c', code⟩ ↔
      sc.resolve x.node = some b ∧ c' = c ∧ code = [] := by
  unfold resolveTarget
  split
  · next b' hb =>
    rw [Stage.pure_ok_iff, hb]
    grind
  · next hb =>
    rw [hb]
    simp

theorem resolveTarget_bind_ok_iff {β : Type} {x : Located String} {f : Binding → Lower β} {r : β} :
    (resolveTarget sc x >>= f).run c = ⟨.ok r, c', code⟩ ↔
      ∃ b, sc.resolve x.node = some b ∧ (f b).run c = ⟨.ok r, c', code⟩ :=
  Stage.silent_bind_ok_iff fun _ _ _ => resolveTarget_ok_iff

theorem lowers_assign {x : Located String} {v : Expr} :
    Lowers sc types (.assign sp x v) c c' code ↔
      ∃ b o k, sc.resolve x.node = some b ∧ Expr.Lowers sc types true v c o c' k ∧
        ((∃ s, b = .field s ∧ code = k ++ [.putField (.plain x.node s.ty) o]) ∨
          b.isField = false ∧ code =
            k ++ [.assign (varOperand true x.node b) b.ty (.value o)]) := by
  rw [Lowers, lower, lowerAssign, resolveTarget_bind_ok_iff]
  simp only [Stage.bind_ok_iff, Expr.Lowers]
  constructor
  · rintro ⟨b, hb, o, c₁, k, _, hv, hstore, rfl⟩
    cases b <;> simp only [Stage.emit_ok_iff] at hstore <;> obtain ⟨rfl, rfl⟩ := hstore
    · exact ⟨_, o, k, hb, hv, .inr ⟨rfl, rfl⟩⟩
    · exact ⟨_, o, k, hb, hv, .inr ⟨rfl, rfl⟩⟩
    · exact ⟨_, o, k, hb, hv, .inl ⟨_, rfl, rfl⟩⟩
  · rintro ⟨b, o, k, hb, hv, hstore⟩
    rcases hstore with ⟨s, rfl, rfl⟩ | ⟨hf, rfl⟩
    · exact ⟨_, hb, o, c', k, _, hv, rfl, rfl⟩
    · refine ⟨b, hb, o, c', k, _, hv, ?_, rfl⟩
      cases b with
      | loc s => rfl
      | param ordinal s => rfl
      | field s => cases hf

theorem itemTy_ok_iff {x : Located String} {b : Binding} {ty : Ty} :
    (itemTy x b).run c = ⟨.ok ty, c', code⟩ ↔ b.ty = .array ty ∧ c' = c ∧ code = [] := by
  unfold itemTy
  split
  · next element he =>
    rw [Stage.pure_ok_iff, he]
    grind
  · next hne =>
    constructor
    · exact fun h => absurd h Stage.fail_ne_ok
    · exact fun h => absurd h.1 (hne ty)

theorem itemTy_bind_ok_iff {β : Type} {x : Located String} {b : Binding} {f : Ty → Lower β}
    {r : β} :
    (itemTy x b >>= f).run c = ⟨.ok r, c', code⟩ ↔
      ∃ ty, b.ty = .array ty ∧ (f ty).run c = ⟨.ok r, c', code⟩ :=
  Stage.silent_bind_ok_iff fun _ _ _ => itemTy_ok_iff

/-- The array of a stored item is lowered as the variable would be. -/
theorem arrayOperand_ok_iff {x : Located String} {b : Binding} {o : Operand}
    (hb : sc.resolve x.node = some b) :
    (arrayOperand x b).run c = ⟨.ok o, c', code⟩ ↔
      Expr.Lowers sc types true (.var ⟨0, x.span⟩ x.node) c o c' code := by
  rw [Expr.Lowers, Expr.lower, lowerVar, hb]
  cases b <;> rfl

theorem arrayOperand_isVar {x : Located String} {b : Binding} {o : Operand}
    (h : (arrayOperand x b).run c = ⟨.ok o, c', code⟩) : ∃ y t p, o = .var y t p := by
  cases b with
  | loc s => exact ⟨_, _, _, (Stage.pure_ok_iff.1 h).1⟩
  | param ordinal s => exact ⟨_, _, _, (Stage.pure_ok_iff.1 h).1⟩
  | field s => exact ⟨_, _, _, (temp_ok_iff.1 h).operand⟩

theorem lowers_arrayAssign {x : Located String} {i v : Expr} :
    Lowers sc types (.arrayAssign sp x i v) c c' code ↔
      ∃ b ty y t p c₁ k₁ j c₂ k₂ o k₃, sc.resolve x.node = some b ∧ b.ty = .array ty ∧
        Expr.Lowers sc types true (.var ⟨0, x.span⟩ x.node) c (.var y t p) c₁ k₁ ∧
        Expr.Lowers sc types true i c₁ j c₂ k₂ ∧ Expr.Lowers sc types true v c₂ o c' k₃ ∧
        code = k₁ ++ (k₂ ++ (k₃ ++ [.assign (.item y j ty p) ty (.value o)])) := by
  rw [Lowers, lower, lowerArrayAssign, resolveTarget_bind_ok_iff]
  simp only [↓itemTy_bind_ok_iff, ↓itemOf_bind_ok_iff, Stage.bind_ok_iff, Stage.emit_ok_iff]
  constructor
  · rintro ⟨b, hb, ty, hty, base, c₁, k₁, _, hbase,
      ⟨j, c₂, k₂, _, hi, ⟨o, _, k₃, _, hv, ⟨y, t, p, rfl, rfl, rfl⟩, rfl⟩, rfl⟩, rfl⟩
    exact ⟨b, ty, y, t, p, c₁, k₁, j, c₂, k₂, o, k₃, hb, hty,
      (arrayOperand_ok_iff hb).1 hbase, hi, hv, rfl⟩
  · rintro ⟨b, ty, y, t, p, c₁, k₁, j, c₂, k₂, o, k₃, hb, hty, hbase, hi, hv, rfl⟩
    exact ⟨b, hb, ty, hty, _, c₁, k₁, _, (arrayOperand_ok_iff hb).2 hbase,
      ⟨j, c₂, k₂, _, hi, ⟨o, c', k₃, _, hv, ⟨y, t, p, rfl, rfl, rfl⟩, rfl⟩, rfl⟩, rfl⟩

theorem lowers_ret_none :
    Lowers sc types (.ret sp none) c c' code ↔
      c' = c ∧ code = [.ret sc.method.returnTy none] := by
  rw [Lowers, lower, lowerReturn, Stage.emit_ok_iff]

theorem lowers_ret_some {v : Expr} :
    Lowers sc types (.ret sp (some v)) c c' code ↔
      ∃ o k, Expr.Lowers sc types false v c o c' k ∧
        code = k ++ [.ret sc.method.returnTy (some o)] := by
  rw [Lowers, lower, lowerReturn]
  simp only [Stage.bind_ok_iff, Stage.emit_ok_iff, Expr.Lowers]
  grind

end Stmt

/-! ## Methods -/

namespace MethodDecl

variable {table : SymbolTable} {types : TypeMap} {cls : ClassSymbols} {d : MethodDecl} {m : Method}
  {c c' : Counters} {events : List Event}

/-- A lowered method has its variables from the table, the code of its body with the final return,
and all else from its declaration. -/
theorem lower_eq (h : (d.lower table types cls).run c = ⟨.ok m, c', events⟩) :
    ∃ method body, cls.method? d.name.node = some method ∧
      Stmt.LowersAll (d.scope table cls method) types d.body c c' body ∧
      m = { name := d.name.node, className := cls.name,
            access := if d.isPublic then .pub else .package, isStatic := d.isStatic,
            params := method.params, locals := method.locals, returnTy := d.returnTy.node,
            code := body ++ d.finalReturn } := by
  unfold MethodDecl.lower at h
  split at h
  · exact absurd h Stage.fail_ne_ok
  · next method hm =>
    simp only [Stage.bind_ok_iff, Stage.pure_ok_iff, Stage.collect_ok_iff] at h
    obtain ⟨body, c₁, o₁, o₂, ⟨hbody, rfl⟩, ⟨_, _, _, _, hemit, ⟨rfl, rfl, rfl⟩, rfl⟩, rfl⟩ := h
    obtain ⟨rfl, rfl⟩ := Stage.emit_ok_iff.1 hemit
    exact ⟨method, body, hm, hbody, rfl⟩

/-- The code of a method is the code of its body and the final return. -/
theorem lower_ok (h : (d.lower table types cls).run c = ⟨.ok m, c', events⟩) :
    ∃ method body, cls.method? d.name.node = some method ∧
      Stmt.LowersAll (d.scope table cls method) types d.body c c' body ∧
      m.code = body ++ d.finalReturn ∧ m.params = method.params ∧ m.locals = method.locals := by
  obtain ⟨method, body, hmethod, hbody, rfl⟩ := lower_eq h
  exact ⟨method, body, hmethod, hbody, rfl, rfl, rfl⟩

/-- The heading of a method, apart from its variables, is the one of its declaration. -/
theorem lower_heading (h : (d.lower table types cls).run c = ⟨.ok m, c', events⟩) :
    m.name = d.name.node ∧ m.className = cls.name ∧ m.isStatic = d.isStatic ∧
      m.isConstructor = false ∧ m.frozen = none := by
  obtain ⟨method, body, -, -, rfl⟩ := lower_eq h
  exact ⟨rfl, rfl, rfl, rfl, rfl⟩

/-- The method comes from the declaration, in a class with the symbols given. -/
def LowersTo (table : SymbolTable) (types : TypeMap) (cls : ClassSymbols) (d : MethodDecl)
    (m : Method) : Prop :=
  ∃ c c' events, (d.lower table types cls).run c = ⟨.ok m, c', events⟩

theorem LowersTo.exists_method (h : d.LowersTo table types cls m) :
    ∃ method, cls.method? d.name.node = some method := by
  obtain ⟨c, c', events, hrun⟩ := h
  obtain ⟨method, -, hmethod, -⟩ := lower_eq hrun
  exact ⟨method, hmethod⟩

/-- The variables of a lowered method are those that the table has for its name. -/
theorem LowersTo.variables (h : d.LowersTo table types cls m) {method : MethodSymbols}
    (hmethod : cls.method? d.name.node = some method) :
    m.params = method.params ∧ m.locals = method.locals := by
  obtain ⟨c, c', events, hrun⟩ := h
  obtain ⟨method', -, hmethod', -, -, hvars⟩ := lower_ok hrun
  obtain rfl : method = method' := Option.some.inj (hmethod.symm.trans hmethod')
  exact hvars

theorem lowerAll_eq_mapM' {κ : Type} [Counting κ] (ds : List MethodDecl) :
    (lowerAll table types cls ds : BuildIn κ (List Method)) = ds.mapM' (lower table types cls) := by
  induction ds with
  | nil => rfl
  | cons d ds ih => rw [lowerAll, ih]; rfl

end MethodDecl

/-! ## Classes -/

namespace ClassDecl

variable {table : SymbolTable} {types : TypeMap} {imports : List String} {d : ClassDecl}
  {u : ClassUnit} {c c' : Counters} {events : List Event}

/-- The unit has the methods of the declaration, each lowered, and a constructor. -/
def LowersTo (table : SymbolTable) (types : TypeMap) (d : ClassDecl) (u : ClassUnit) : Prop :=
  ∃ cls ms, table.class? d.name.node = some cls ∧ u.name = d.name.node ∧
    u.methods = ms ++ [Method.defaultConstructor u.name] ∧
    (∀ md ∈ d.methods, ∃ m ∈ ms, md.LowersTo table types cls m) ∧
    ∀ m ∈ ms, ∃ md ∈ d.methods, md.LowersTo table types cls m

/-- Lowering a class is lowering its methods one after the other. The constructor takes no
counters. -/
theorem lower_run (h : (d.lower table types imports).run c = ⟨.ok u, c', events⟩) :
    ∃ cls ms events', table.class? d.name.node = some cls ∧ u.name = d.name.node ∧
      u.methods = ms ++ [Method.defaultConstructor u.name] ∧
      (d.methods.mapM' (MethodDecl.lower table types cls)).run c = ⟨.ok ms, c', events'⟩ := by
  unfold ClassDecl.lower at h
  split at h
  · exact absurd h Stage.fail_ne_ok
  · next cls hcls =>
    rw [MethodDecl.lowerAll_eq_mapM'] at h
    simp only [Stage.bind_ok_iff, Stage.pure_ok_iff, Stage.emit_ok_iff] at h
    obtain ⟨ms, _, events', _, hms,
      ⟨_, _, _, _, htemps, ⟨_, _, _, _, ⟨rfl, -⟩, ⟨rfl, rfl, -⟩, -⟩, -⟩, -⟩ := h
    cases htemps
    exact ⟨cls, ms, events', hcls, rfl, rfl, hms⟩

theorem lower_ok (h : (d.lower table types imports).run c = ⟨.ok u, c', events⟩) :
    d.LowersTo table types u := by
  obtain ⟨cls, ms, events', hcls, hname, hmethods, hms⟩ := lower_run h
  obtain ⟨hleft, hright⟩ := Stage.mapM'_ok hms
  exact ⟨cls, ms, hcls, hname, hmethods, hleft, hright⟩

/-- Lowering asks for no register tables. -/
theorem LowersTo.frozen (h : d.LowersTo table types u) : ∀ m ∈ u.methods, m.frozen = none := by
  obtain ⟨cls, ms, -, -, hmethods, -, hms⟩ := h
  rw [hmethods]
  refine List.forall_mem_append.2 ⟨?_, List.forall_mem_singleton.2 rfl⟩
  intro m hm
  obtain ⟨md, -, c₁, c₂, events, hrun⟩ := hms m hm
  exact (MethodDecl.lower_heading hrun).2.2.2.2

theorem lowerAll_eq_mapM' {κ : Type} [Counting κ] (ds : List ClassDecl) :
    (lowerAll table types imports ds : BuildIn κ (List ClassUnit)) =
      ds.mapM' (lower table types imports) := by
  induction ds with
  | nil => rfl
  | cons d ds ih => rw [lowerAll, ih]; rfl

end ClassDecl

/-- The units of a program are its classes, each lowered. -/
theorem Program.lower_ok {p : Program} {table : SymbolTable} {types : TypeMap} {c c' : Counters}
    {units : List ClassUnit} {events : List Event}
    (h : (p.lower table types).run c = ⟨.ok units, c', events⟩) :
    (∀ d ∈ p.classes, ∃ u ∈ units, d.LowersTo table types u) ∧
      ∀ u ∈ units, ∃ d ∈ p.classes, d.LowersTo table types u := by
  rw [lower, ClassDecl.lowerAll_eq_mapM'] at h
  obtain ⟨hleft, hright⟩ := Stage.mapM'_ok h
  constructor
  · intro d hd
    obtain ⟨u, hu, _, _, _, hrun⟩ := hleft d hd
    exact ⟨u, hu, ClassDecl.lower_ok hrun⟩
  · intro u hu
    obtain ⟨d, hd, _, _, _, hrun⟩ := hright u hu
    exact ⟨d, hd, ClassDecl.lower_ok hrun⟩

/-- Every method of a unit is the constructor or comes from a declaration that has symbols. -/
theorem Program.lower_methods {p : Program} {table : SymbolTable} {types : TypeMap}
    {c c' : Counters} {units : List ClassUnit} {events : List Event}
    (h : (p.lower table types).run c = ⟨.ok units, c', events⟩) {u : ClassUnit} (hu : u ∈ units) :
    ∃ d ∈ p.classes, ∃ cls, table.class? d.name.node = some cls ∧ u.name = d.name.node ∧
      ∀ m ∈ u.methods, m = Method.defaultConstructor u.name ∨
        ∃ md ∈ d.methods, ∃ method, cls.method? md.name.node = some method ∧
          md.LowersTo table types cls m := by
  obtain ⟨d, hd, cls, ms, hcls, hname, hmethods, -, hfrom⟩ := (lower_ok h).2 u hu
  refine ⟨d, hd, cls, hcls, hname, fun m hm => ?_⟩
  rw [hmethods, List.mem_append, List.mem_singleton] at hm
  rcases hm with hm | hm
  · obtain ⟨md, hmd, c₁, c₂, events₁, hrun⟩ := hfrom m hm
    obtain ⟨method, -, hmethod, -⟩ := MethodDecl.lower_ok hrun
    exact .inr ⟨md, hmd, method, hmethod, c₁, c₂, events₁, hrun⟩
  · exact .inl hm

end MiniJava
