import MiniJava.Lowering.Lowerer
import MiniJava.Proofs.Annotation.Quiet
import MiniJava.Proofs.SideBySide
import MiniJava.Proofs.Syntax

/-!
# Lowerers keep no trace of a fault

A lowerer keeps its place, and after a fault it is still at the class and the method that failed. No
later class sees this: a class and a method are entered before anything is looked up, and a return
statement is left in any case.

The proof runs a lowerer beside `ClassDecl.lower`, which has no place to keep. While both are in a
body, the lowerer is at the scope that is handed down (`At`). Between classes all that is needed is
that it is not in a return statement (`Idle`), and this is so after every fault
(`Lowerer.lowerClass_of_idle`). So each result of a session depends on nothing but the counters of
that moment (`Lowerer.result_lowerEach`).
-/

namespace MiniJava

open Ir

namespace Lowerer

variable {κ : Type} [Counting κ]

/-! ## In a body -/

/-- The lowerer is in a body with the scope given, outside a return statement if parameters are
`marked`. -/
structure At (sc : Scope) (marked : Bool) (l : Lowerer κ) (c : Counters κ) : Prop where
  counters : l.counters = c
  cls : l.cls = some sc.cls
  method : l.method = some sc.method
  returning : l.returning = !marked

namespace At

variable {c : Counters κ} {sc : Scope} {mk : Bool} {l : Lowerer κ}

theorem resolve_eq (h : At sc mk l c) (x : String) : l.resolve x = sc.resolve x := by
  rw [Lowerer.resolve, h.cls, h.method]
  rfl

theorem isClassName_eq (h : At sc mk l c) (x : String) :
    l.isClassName sc.table x = sc.isClassName x := by
  rw [Lowerer.isClassName, h.cls, Option.any_some, ← Bool.or_assoc]
  rfl

theorem this_eq (h : At sc mk l c) : l.this = .this sc.cls.name := by
  rw [Lowerer.this, h.cls]
  rfl

theorem returnTy_eq (h : At sc mk l c) : l.returnTy = sc.method.returnTy := by
  rw [Lowerer.returnTy, h.method]
  rfl

theorem marked_eq (h : At sc mk l c) : (!l.returning) = mk := by
  rw [h.returning, Bool.not_not]

theorem callInstr_eq (h : At sc mk l c) (target : Operand) (m : String) (args : List Operand)
    (ty : Ty) : l.callInstr target m args ty = Expr.callInstr sc target m args ty := by
  have hparams : l.declaredParams target m args.length =
      Expr.declaredParams sc target m args.length := by
    rw [Lowerer.declaredParams, h.cls]
    rfl
  cases target <;> simp only [Lowerer.callInstr, Expr.callInstr, hparams]

end At

/-- From a place in the body the lowerer does what the other stage does in the scope, and stays at
its place, also after a fault. -/
def Follows (κ : Type) [Counting κ] {α : Type} (sc : Scope) (marked : Bool) (x : Work κ α)
    (y : LowerIn κ α) : Prop :=
  Stage.Lockstep (At sc marked) Eq Eq Eq x y

namespace Follows

variable {α β : Type} {sc : Scope} {mk : Bool} {x : Work κ α} {y : LowerIn κ α}

protected theorem pure (a : α) : Follows κ sc mk (pure a) (pure a) :=
  Stage.Lockstep.pure joins_eq rfl

protected theorem fail (e : LowerError) :
    Follows κ sc mk (Stage.fail e : Work κ α) (Stage.fail e) :=
  Stage.Lockstep.fail joins_eq rfl

protected theorem emit (i : Instr) : Follows κ sc mk (Stage.emit i) (Stage.emit i) :=
  Stage.Lockstep.emitAll rfl

protected theorem bind (h : Follows κ sc mk x y) {f : α → Work κ β} {g : α → LowerIn κ β}
    (hfg : ∀ a, Follows κ sc mk (f a) (g a)) : Follows κ sc mk (x >>= f) (y >>= g) := by
  refine Stage.Lockstep.bind joins_eq h fun a a' ha => ?_
  subst ha
  exact hfg a

protected theorem anywhere (y : LowerIn κ α) : Follows κ sc mk (anywhere y) y := by
  rintro l _ ⟨rfl, hcls, hmethod, hreturning⟩
  exact ⟨.refl _, ⟨rfl, hcls, hmethod, hreturning⟩, rfl⟩

/-- Work that depends on the place does what the other stage does in the scope. -/
theorem look {f : Lowerer κ → Work κ α} (h : ∀ l c, At sc mk l c → Follows κ sc mk (f l) y) :
    Follows κ sc mk (here >>= f) y :=
  fun l c hl => h l c hl l c hl

/-- Inside a return statement parameters are not marked. -/
theorem inReturn (h : Follows κ sc false x y) : Follows κ sc true (inReturn x) y := by
  rintro l c ⟨hcounters, hcls, hmethod, -⟩
  have hrun := h { l with returning := true } c ⟨hcounters, hcls, hmethod, rfl⟩
  obtain ⟨hcounters', hcls', hmethod', -⟩ := hrun.state
  exact ⟨hrun.result, ⟨hcounters', hcls', hmethod', rfl⟩, hrun.output⟩

end Follows

section

variable {sc : Scope} {mk : Bool} {types : TypeMap}

theorem lowerVar_follows (x : String) (span : Span) :
    Follows κ sc mk (lowerVar sc.table x span) (Expr.lowerVar sc mk x span) := by
  refine .look fun l c hl => ?_
  unfold Expr.lowerVar
  rw [hl.resolve_eq, hl.isClassName_eq, hl.marked_eq]
  cases sc.resolve x with
  | none =>
    dsimp only
    split
    · exact .pure _
    · exact .fail _
  | some b => cases b with
    | field s => exact .anywhere _
    | loc s => exact .pure _
    | param n s => exact .pure _

theorem lowerExprs_follows {es : List Expr}
    (h : ∀ e ∈ es, Follows κ sc mk (lowerExpr sc.table types e) (e.lower sc types mk)) :
    Follows κ sc mk (lowerExprs sc.table types es) (Expr.lowerAll sc types mk es) := by
  induction es with
  | nil => exact .pure _
  | cons e es ih =>
    rw [List.forall_mem_cons] at h
    exact .bind h.1 fun o => .bind (ih h.2) fun os => .pure _

/-- A lowerer in a body lowers expressions by the scope of the body. -/
theorem lowerExpr_follows (e : Expr) :
    Follows κ sc mk (lowerExpr sc.table types e) (e.lower sc types mk) := by
  induction e using Expr.induction with
  | int n v => exact .pure _
  | bool n v => exact .pure _
  | var n x => exact lowerVar_follows x n.span
  | this n =>
    refine .look fun l c hl => ?_
    rw [hl.this_eq]
    exact .pure _
  | not n e ih => exact .bind ih fun o => .anywhere _
  | binary n op l r ihl ihr =>
    exact .bind (.anywhere _) fun ty => .bind ihl fun a => .bind ihr fun b =>
      .anywhere _
  | call n r m args ihr ihargs =>
    rw [lowerExpr, Expr.lower]
    refine .bind (.anywhere _) fun ty => ?_
    split
    · exact .fail _
    · refine .bind (lowerExprs_follows ihargs) fun os => .bind ihr fun o => .look fun l c hl => ?_
      rw [hl.callInstr_eq]
      exact .anywhere _
  | newObject n c => exact .bind (.anywhere _) fun o => .bind (.emit _) fun _ => .pure _
  | newArray n e ih =>
    exact .bind (.anywhere _) fun ty => .bind ih fun o => .anywhere _
  | length n a ih => exact .bind ih fun o => .anywhere _
  | index n a i iha ihi =>
    exact .bind (.anywhere _) fun ty => .bind iha fun b => .bind ihi fun j =>
      .bind (.anywhere _) fun o => .anywhere _
  | paren n e ih => exact ih

theorem lowerEffect_follows (e : Expr) :
    Follows κ sc true (lowerEffect sc.table types e) (e.lowerEffect sc types) := by
  induction e using Expr.induction with
  | call n r m args ihr ihargs =>
    refine .bind (lowerExprs_follows fun a _ => lowerExpr_follows a) fun os =>
      .bind (lowerExpr_follows r) fun o => .look fun l c hl => ?_
    rw [hl.callInstr_eq]
    exact .emit _
  | paren n e ih => exact ih
  | _ => exact .bind (lowerExpr_follows _) fun _ => .pure _

theorem resolveTarget_follows (x : Located String) :
    Follows κ sc mk (resolveTarget x) (Stmt.resolveTarget sc x) := by
  refine .look fun l c hl => ?_
  unfold Stmt.resolveTarget
  rw [hl.resolve_eq]
  cases sc.resolve x.node with
  | none => exact .fail _
  | some b => exact .pure b

theorem targetOperand_follows (x : Located String) (b : Binding) :
    Follows κ sc mk (targetOperand x b) (pure (Expr.varOperand mk x.node b)) := by
  refine .look fun l c hl => ?_
  rw [hl.marked_eq]
  exact .pure _

theorem lowerAssign_follows (x : Located String) (v : Expr) :
    Follows κ sc true (lowerAssign sc.table types x v) (Stmt.lowerAssign sc types x v) := by
  refine .bind (resolveTarget_follows x) fun b => .bind (lowerExpr_follows v) fun o => ?_
  cases b with
  | field s => exact .emit _
  | loc s | param n s => exact .bind (targetOperand_follows x _) fun dest => .emit _

theorem arrayOperand_follows (x : Located String) (b : Binding) :
    Follows κ sc true (arrayOperand x b) (Stmt.arrayOperand x b) := by
  cases b with
  | field s => exact .anywhere _
  | loc s | param n s => exact targetOperand_follows x _

theorem lowerArrayAssign_follows (x : Located String) (i v : Expr) :
    Follows κ sc true (lowerArrayAssign sc.table types x i v)
      (Stmt.lowerArrayAssign sc types x i v) :=
  .bind (resolveTarget_follows x) fun b => .bind (.anywhere _) fun _ =>
    .bind (arrayOperand_follows x b) fun _ => .bind (lowerExpr_follows i) fun _ =>
      .bind (lowerExpr_follows v) fun _ => .bind (.anywhere _) fun _ => .emit _

theorem lowerReturn_follows (v : Option Expr) :
    Follows κ sc true (lowerReturn sc.table types v) (Stmt.lowerReturn sc types v) := by
  cases v with
  | none =>
    refine .look fun l c hl => ?_
    rw [hl.returnTy_eq]
    exact .emit _
  | some v =>
    refine .look fun l c hl => ?_
    rw [hl.returnTy_eq]
    exact .bind (.inReturn (lowerExpr_follows v)) fun o => .emit _

theorem lowerStmts_follows_of {ss : List Stmt}
    (h : ∀ s ∈ ss, Follows κ sc true (lowerStmt sc.table types s) (s.lower sc types)) :
    Follows κ sc true (lowerStmts sc.table types ss) (Stmt.lowerAll sc types ss) := by
  induction ss with
  | nil => exact .pure _
  | cons s ss ih =>
    rw [List.forall_mem_cons] at h
    exact .bind h.1 fun _ => ih h.2

/-- A lowerer in a body lowers statements by the scope of the body. -/
theorem lowerStmt_follows (s : Stmt) :
    Follows κ sc true (lowerStmt sc.table types s) (s.lower sc types) := by
  induction s using Stmt.induction with
  | varDecl sp d => exact .pure _
  | block sp body ih => exact lowerStmts_follows_of ih
  | ifThen sp c t ih =>
    exact .bind (.anywhere _) fun n => .bind (lowerExpr_follows c) fun o =>
      .bind (.emit _) fun _ => .bind (.emit _) fun _ => .bind (.emit _) fun _ => .bind ih fun _ =>
        .emit _
  | ifElse sp c t e iht ihe =>
    rw [lowerStmt, Stmt.lower]
    refine .bind (.anywhere _) fun n => .bind (lowerExpr_follows c) fun o =>
      .bind (.emit _) fun _ => .bind ihe fun _ => ?_
    cases e.definitelyReturns <;> cases t.definitelyReturns
    · exact .bind (.emit _) fun _ => .bind (.emit _) fun _ => .bind iht fun _ => .emit _
    · exact .bind (.emit _) fun _ => .bind (.emit _) fun _ => .bind iht fun _ => .emit _
    · exact .bind (.emit _) fun _ => .bind iht fun _ => .emit _
    · exact .bind (.emit _) fun _ => .bind iht fun _ => .pure _
  | whileLoop sp c b ih =>
    exact .bind (.anywhere _) fun n => .bind (.emit _) fun _ =>
      .bind (lowerExpr_follows c) fun o => .bind (.emit _) fun _ => .bind (.emit _) fun _ =>
        .bind (.emit _) fun _ => .bind ih fun _ => .bind (.emit _) fun _ => .emit _
  | expr sp e => exact lowerEffect_follows e
  | assign sp x v => exact lowerAssign_follows x v
  | arrayAssign sp x i v => exact lowerArrayAssign_follows x i v
  | ret sp v => exact lowerReturn_follows v

theorem lowerStmts_follows (ss : List Stmt) :
    Follows κ sc true (lowerStmts sc.table types ss) (Stmt.lowerAll sc types ss) :=
  lowerStmts_follows_of fun s _ => lowerStmt_follows s

end

/-! ## Between methods and between classes -/

/-- The lowerer is at the class, not in a return statement. Where it is in the class does not
matter. -/
structure AtClass (cls : ClassSymbols) (l : Lowerer κ) (c : Counters κ) : Prop where
  counters : l.counters = c
  cls : l.cls = some cls
  returning : l.returning = false

/-- The lowerer is not in a return statement. Where it is else does not matter. -/
structure Idle (l : Lowerer κ) (c : Counters κ) : Prop where
  counters : l.counters = c
  returning : l.returning = false

variable {c : Counters κ} {table : SymbolTable} {types : TypeMap} {cls : ClassSymbols}
  {l : Lowerer κ}

/-- A method is entered before its body is looked at. -/
theorem lowerMethod_lockstep (d : MethodDecl) :
    Stage.Lockstep (AtClass (κ := κ) cls) Eq Eq Eq (lowerMethod table types cls d)
      (d.lower table types cls) := by
  unfold lowerMethod MethodDecl.lower
  cases cls.method? d.name.node with
  | none => exact .fail joins_eq rfl
  | some method =>
    have hbody : Follows κ (d.scope table cls method) true (lowerStmts table types d.body)
        (Stmt.lowerAll (d.scope table cls method) types d.body) := lowerStmts_follows d.body
    have hentered : Stage.Lockstep (AtClass (κ := κ) cls) Eq Eq Eq
        (move (fun l => { l with method := some method }) >>= fun _ =>
          (lowerStmts table types d.body).collect (·.filterMap Instr.call?))
        ((Stmt.lowerAll (d.scope table cls method) types d.body).collect
          (·.filterMap Instr.call?)) :=
      .enter (fun _ _ h => ⟨h.counters, h.cls, rfl, h.returning⟩)
        (fun _ _ h => ⟨h.counters, h.cls, h.returning⟩)
        (hbody.collect fun _ _ h => congrArg _ h)
    dsimp only
    rw [← bind_assoc]
    refine .bind joins_eq hentered fun body body' hcode => ?_
    subst hcode
    refine .enter (fun _ _ h => ⟨h.counters, h.cls, h.returning⟩) (fun _ _ h => h) ?_
    exact .bind joins_eq (.emitAll rfl) fun _ _ _ => .pure joins_eq rfl

theorem lowerMethods_lockstep (ds : List MethodDecl) :
    Stage.Lockstep (AtClass (κ := κ) cls) Eq Eq Eq (lowerMethods table types cls ds)
      (MethodDecl.lowerAll table types cls ds) := by
  induction ds with
  | nil => exact .pure joins_eq rfl
  | cons d ds ih =>
    refine .bind joins_eq (lowerMethod_lockstep d) fun m m' hm =>
      .bind joins_eq ih fun ms ms' hms => ?_
    subst hm hms
    exact .pure joins_eq rfl

/-- A class is entered before its methods are looked at. -/
theorem lowerClass_lockstep (imports : List String) (d : ClassDecl) :
    Stage.Lockstep (Idle (κ := κ)) Eq Eq Eq (lowerClass table types imports d)
      (d.lower table types imports) := by
  unfold lowerClass ClassDecl.lower
  cases table.class? d.name.node with
  | none => exact .fail joins_eq rfl
  | some cls =>
    have hentered : Stage.Lockstep (Idle (κ := κ)) Eq Eq Eq
        (move (fun l => { l with cls := some cls }) >>=
          fun _ => lowerMethods table types cls d.methods)
        (MethodDecl.lowerAll table types cls d.methods) :=
      .enter (fun _ _ h => ⟨h.counters, rfl, h.returning⟩)
        (fun _ _ h => ⟨h.counters, h.returning⟩) (lowerMethods_lockstep d.methods)
    dsimp only
    rw [← bind_assoc]
    refine .bind joins_eq hentered fun ms ms' hms => ?_
    subst hms
    refine .enter (fun _ _ h => ⟨h.counters, h.returning⟩) (fun _ _ h => h) ?_
    rintro l _ ⟨rfl, hreturning⟩
    exact ⟨.ok rfl, ⟨rfl, hreturning⟩, rfl⟩

theorem idle_startingAt (c : Counters κ) : Idle (startingAt c) c := ⟨rfl, rfl⟩

variable (table types)

/-- **One class.** What a lowerer makes of a class depends on its counters only. It is idle again
after the class, whatever has come of it. -/
theorem lowerClass_of_idle (h : Idle l c) (imports : List String) (d : ClassDecl) :
    ((lowerClass table types imports d).run l).result =
        ((d.lower table types imports).run c).result ∧
      Idle ((lowerClass table types imports d).run l).state
        ((d.lower table types imports).run c).state := by
  have hboth : ((lowerClass table types imports d).run l).Lockstep Idle Eq Eq Eq
      ((d.lower table types imports).run c) := lowerClass_lockstep imports d l c h
  exact ⟨hboth.result.eq, hboth.state⟩

/-! ## Sessions -/

end Lowerer

end MiniJava
