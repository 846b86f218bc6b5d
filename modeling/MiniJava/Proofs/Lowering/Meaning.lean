import MiniJava.Proofs.Annotation.Quiet
import MiniJava.Proofs.Lowering.Values

/-!
# Lowering preserves meaning

The code of a statement does what the statement does (`Exec.simulates`): if the statement is left at
its end, control gets behind the code; if it returns, or stops early for a reason that has a
meaning, so does the code. All with the same requests, in the same order. The proof is by induction
on the execution, so that a loop that is run through again is simulated from its first label again.

Where a branch always returns, no jump is written behind it. That such a statement is never left at
its end is `Exec.leaves`.

**Theorem** (`lowering_preserves_meaning`). Whenever the body of a method of an accepted program
ends, the code of the method ends in the same way, and in no other.
-/

namespace MiniJava

open Ir Lower

section

variable {W : World Source.Op} {code : List Instr} {pc stop : Nat} {env ρ : Env W} {h : W.Heap}

/-- What the execution of a statement shows as in code: from `s` on, the code does the same, and
control gets to `stop` if the statement is left at its end. -/
def Simulates (code : List Instr) (s : Control (Env W)) (h : W.Heap) (stop : Nat) (o : Final W) :
    Prop :=
  match o.result with
  | .ok (.normal env) => ∃ ρ, Env.SameBelow 0 env ρ ∧
      (lowMachine W).Reaches code s h o.output ⟨stop, ρ⟩ o.state
  | .ok (.returned v) => (lowMachine W).Runs code s h ⟨.ok v, o.state, o.output⟩
  | .error e => e ≠ .stuck → (lowMachine W).Runs code s h ⟨.error e, o.state, o.output⟩

/-- The state behind a statement that is left at its end. -/
def LeftAt (stop : Nat) (a : Completion W) (s : Control (Env W)) : Prop :=
  ∃ env, a = .normal env ∧ s.pc = stop ∧ Env.SameBelow 0 env s.data

namespace Simulates

variable {s s₁ : Control (Env W)} {h₁ : W.Heap} {t : List (Request Source.Op W.Ref)} {o : Final W}

theorem after (hr : (lowMachine W).Reaches code s h t s₁ h₁)
    (hs : Simulates code s₁ h₁ stop o) : Simulates code s h stop (o.after t) := by
  obtain ⟨e | env | v, h₂, t₂⟩ := o
  · intro hne
    exact hr.runs (hs hne)
  · obtain ⟨ρ, hρ, hreach⟩ := hs
    exact ⟨ρ, hρ, hr.trans hreach⟩
  · exact hr.runs hs

theorem cast {stop' : Nat} (hs : Simulates code s h stop o) (heq : stop = stop') :
    Simulates code s h stop' o :=
  heq ▸ hs

/-- Steps without requests at the start of the code. -/
theorem skip (hr : (lowMachine W).Reaches code s h [] s₁ h) (hs : Simulates code s₁ h stop o) :
    Simulates code s h stop o :=
  hs.after hr

/-- Steps without requests at the end of the code. -/
theorem behind {stop' : Nat} (hs : Simulates code s h stop o)
    (hsteps : ∀ ρ h', (lowMachine W).Reaches code ⟨stop, ρ⟩ h' [] ⟨stop', ρ⟩ h') :
    Simulates code s h stop' o := by
  obtain ⟨e | env | v, h₂, t₂⟩ := o
  · exact hs
  · obtain ⟨ρ, hρ, hreach⟩ := hs
    exact ⟨ρ, hρ, hreach.skip (hsteps ρ h₂)⟩
  · exact hs

/-- Steps that end behind the code. -/
theorem of_reaches (hr : (lowMachine W).Reaches code s h t ⟨stop, ρ⟩ h₁)
    (hρ : Env.SameBelow 0 env ρ) : Simulates code s h stop ⟨.ok (.normal env), h₁, t⟩ :=
  ⟨ρ, hρ, hr⟩

/-- If the statement is not left at its end, the end of its code does not matter. -/
theorem of_leaves {stop' : Nat} (hl : o.Leaves) (hs : Simulates code s h stop o) :
    Simulates code s h stop' o := by
  obtain ⟨e | env | v, h₂, t₂⟩ := o
  · exact hs
  · exact absurd rfl (hl env)
  · exact hs

theorem of_realizes {x : Run W (Completion W)}
    (hx : (lowMachine W).Realizes code s x (LeftAt stop)) : Simulates code s h stop (x.run h) := by
  rcases hrun : x.run h with ⟨e | a, h', t⟩
  · exact fun hne => hx.error hrun hne
  · obtain ⟨⟨_, ρ⟩, ⟨env, rfl, rfl, hρ⟩, hreach⟩ := hx.ok hrun
    exact ⟨ρ, hρ, hreach⟩

end Simulates

/-! ## Statements that always return -/

theorem Final.Leaves.after {o : Final W} {t : List (Request Source.Op W.Ref)} (ho : o.Leaves) :
    (o.after t).Leaves := ho

/-- A statement all of whose paths return is never left at its end. -/
theorem Exec.leaves {sc : Scope} {s : Stmt} {o : Final W} (hexec : Exec sc W s env h o) :
    s.definitelyReturns = true → o.Leaves := by
  induction hexec with
  | varDecl | expr | assign | arrayAssign | ifThenFalse | ifThenTrue | ifThenHalt | whileFalse
  | whileHalt | whileLeave | whileAgain => simp [Stmt.definitelyReturns]
  | @ret sp v env h =>
    intro _ env' heq
    cases v with
    | none => cases heq
    | some v =>
      rcases hrun : (v.eval sc W env).run h with ⟨e | a, h', t⟩
      · rw [Stmt.evalReturn, Stage.bind_run_error _ hrun] at heq
        cases heq
      · rw [Stmt.evalReturn, Stage.bind_run_ok hrun] at heq
        cases heq
  | blockEnd => simp [Stmt.definitelyReturns, Stmt.lastReturns]
  | @blockNext sp b bs env env₁ h h₁ t₁ o hb hbs ihb ihbs =>
    intro hret
    -- Only the last statement of a block counts.
    cases bs with
    | nil => exact absurd rfl (ihb hret env₁)
    | cons b' bs => exact (ihbs hret).after
  | blockLeave hb hl ih => exact fun _ => hl
  | ifElseTrue htest ht ih =>
    intro hret
    exact (ih (Bool.and_eq_true_iff.1 hret).1).after
  | ifElseFalse htest he ih =>
    intro hret
    exact (ih (Bool.and_eq_true_iff.1 hret).2).after
  | ifElseHalt htest => nofun

/-! ## Simple statements -/

theorem Env.SameBelow.set {x : String} {v : Value W.Ref} (hρ : SameBelow 0 env ρ) :
    SameBelow 0 (env.set x v) (ρ.set x v) := by
  intro y hy
  by_cases hxy : y = x
  · subst hxy
    rw [Env.set_self, Env.set_self]
  · rw [Env.set_of_ne _ _ hxy, Env.set_of_ne _ _ hxy, hρ y hy]

namespace Stmt

variable {sc : Scope} {types : TypeMap} {c c' : Counters} {piece : List Instr} {sp : Span}

theorem evalAssign_local {x : String} {v : Expr} {b : Binding} (hb : sc.resolve x = some b)
    (hfield : b.isField = false) :
    evalAssign sc W env x v = v.eval sc W env >>= fun v => pure (.normal (env.set x v)) := by
  rw [evalAssign, hb]
  cases b with
  | field s => cases hfield
  | loc s => rfl
  | param ordinal s => rfl

theorem simulates_assign {x : Located String} {v : Expr} (hsc : sc.Apart)
    (hlow : Lowers sc types (.assign sp x v) c c' piece) (hcode : CodeAt code pc piece)
    (hρ : Env.SameBelow 0 env ρ) :
    Simulates code ⟨pc, ρ⟩ h (pc + piece.length) ((evalAssign sc W env x.node v).run h) := by
  obtain ⟨b, o, k, hb, hv, hstore⟩ := lowers_assign.1 hlow
  refine .of_realizes ?_
  -- A field is stored by a request on the object; a local or a parameter is set in the environment,
  -- without one.
  rcases hstore with ⟨s, rfl, rfl⟩ | ⟨hfield, rfl⟩
  · rw [evalAssign, hb]
    refine (Expr.realized hsc v hv hcode.left hρ).bind ?_
    rintro val ⟨_, ρ₁⟩ ⟨rfl, hsame, hval⟩
    have hρ₁ := hρ.trans (hsame.mono (Nat.zero_le _))
    have hput : (lowMachine W).Realizes code ⟨pc + k.length, ρ₁⟩
        (env.read "this" >>= fun self => W.request (.putField x.node) [self, val])
        fun _ s' => s' = ⟨pc + k.length + 1, ρ₁⟩ := by
      refine .next hcode.right.head ?_
      simp [Ir.machine, Instr.exec, Operand.plain, hρ₁.read this_ne_tempName,
        hval.read, Ir.Op.plain]
    rw [← bind_assoc]
    refine hput.bind ?_
    rintro _ _ rfl
    exact .pure ⟨env, rfl, by simp [Nat.add_assoc], hρ₁⟩
  · rw [evalAssign_local hb hfield]
    refine (Expr.realized hsc v hv hcode.left hρ).bind ?_
    rintro val ⟨_, ρ₁⟩ ⟨rfl, hsame, hval⟩
    have hρ₁ := hρ.trans (hsame.mono (Nat.zero_le _))
    have hstep : ∀ h, (lowMachine W).Reaches code ⟨pc + k.length, ρ₁⟩ h []
        ⟨pc + k.length + 1, ρ₁.set x.node val⟩ h := by
      refine fun h => .next hcode.right.head ?_
      cases b <;> simp [Ir.machine, Instr.exec, store, Expr.varOperand, Instr.compute, hval.read]
    exact .of_reaches hstep (.pure ⟨_, rfl, by simp [Nat.add_assoc], hρ₁.set⟩)

theorem simulates_arrayAssign {x : Located String} {i v : Expr} (hsc : sc.Apart)
    (hlow : Lowers sc types (.arrayAssign sp x i v) c c' piece) (hcode : CodeAt code pc piece)
    (hρ : Env.SameBelow 0 env ρ) :
    Simulates code ⟨pc, ρ⟩ h (pc + piece.length)
      ((evalArrayAssign sc W env x.node i v).run h) := by
  obtain ⟨b, ty, y, t, p, c₁, k₁, j, c₂, k₂, o, k₃, -, -, hx, hi, hv, rfl⟩ :=
    lowers_arrayAssign.1 hlow
  refine .of_realizes ?_
  rw [evalArrayAssign]
  have harray := Expr.realized hsc _ hx hcode.left hρ
  rw [Expr.eval] at harray
  refine harray.bind ?_
  rintro array ⟨_, ρ₁⟩ ⟨rfl, hsame₁, hbase⟩
  have hρ₁ := hρ.trans (hsame₁.mono (Nat.zero_le _))
  refine (Expr.realized hsc i hi hcode.right.left hρ₁).bind ?_
  rintro place ⟨_, ρ₂⟩ ⟨rfl, hsame₂, hplace⟩
  have hρ₂ := hρ₁.trans (hsame₂.mono (Nat.zero_le _))
  refine (Expr.realized hsc v hv hcode.right.right.left hρ₂).bind ?_
  rintro val ⟨_, ρ₃⟩ ⟨rfl, hsame₃, hval⟩
  have hρ₃ := hρ₂.trans (hsame₃.mono (Nat.zero_le _))
  -- The array and the index have kept their values while what follows them was computed.
  have hbase₂ := hbase.later hi.straight.temps hsame₂
  have hbase₃ : ρ₃.read y = pure array := (hbase₂.later hv.straight.temps hsame₃).read
  have hplace₃ := (hplace.later hv.straight.temps hsame₃).read
  have hput : (lowMachine W).Realizes code ⟨pc + k₁.length + k₂.length + k₃.length, ρ₃⟩
      (W.request Source.Op.writeItem [array, place, val])
      fun _ s' => s' = ⟨pc + k₁.length + k₂.length + k₃.length + 1, ρ₃⟩ := by
    refine .next hcode.right.right.right.head ?_
    simp [Ir.machine, Instr.exec, store, Instr.compute, hbase₃, hplace₃, hval.read, Ir.Op.plain]
  refine hput.bind ?_
  rintro _ _ rfl
  exact .pure ⟨env, rfl, by simp [Nat.add_assoc], hρ₃⟩

theorem simulates_expr {e : Expr} (hsc : sc.Apart)
    (hlow : Lowers sc types (.expr sp e) c c' piece) (hcode : CodeAt code pc piece)
    (hρ : Env.SameBelow 0 env ρ) :
    Simulates code ⟨pc, ρ⟩ h (pc + piece.length) ((evalEffect sc W env e).run h) := by
  refine .of_realizes (((lowers_expr.1 hlow).realizes hsc hcode hρ).bind ?_)
  rintro v s ⟨hpc, hsame⟩
  exact .pure ⟨env, rfl, hpc, hsame⟩

/-- A method without errors returns a value exactly if it has one to return. -/
theorem returnTy_of_quiet {v : Option Expr} (hq : Quiet ((ret sp v).annotate sc).notes) :
    v = none ↔ sc.method.returnTy = .void := by
  cases v with
  | none => simpa [annotate, returned, Problem.severity] using hq
  | some v =>
    by_cases hty : sc.method.returnTy = .void
    · simp [annotate, returned, hty, Problem.severity] at hq
    · simp [hty]

theorem simulates_ret {v : Option Expr} (hsc : sc.Apart)
    (hq : Quiet ((ret sp v).annotate sc).notes)
    (hlow : Lowers sc types (.ret sp v) c c' piece) (hcode : CodeAt code pc piece)
    (hρ : Env.SameBelow 0 env ρ) :
    Simulates code ⟨pc, ρ⟩ h stop ((evalReturn sc W env v).run h) := by
  have hty := returnTy_of_quiet hq
  cases v with
  | none =>
    obtain ⟨rfl, rfl⟩ := lowers_ret_none.1 hlow
    rw [hty.1 rfl] at hcode
    exact Machine.Runs.return hcode.head rfl
  | some v =>
    obtain ⟨o, k, hv, rfl⟩ := lowers_ret_some.1 hlow
    have hval := Expr.realized (W := W) hsc v hv hcode.left hρ
    rw [evalReturn]
    rcases hrun : (v.eval sc W env).run h with ⟨e | a, h', t⟩
    · rw [Stage.bind_run_error _ hrun]
      exact fun hne => hval.error hrun hne
    · rw [Stage.bind_run_ok hrun, Stage.pure_run, List.append_nil]
      refine hval.done ?_ hrun
      rintro a ⟨_, ρ₁⟩ h ⟨rfl, -, ha⟩
      refine .return hcode.right.head ?_
      -- A value is returned, so the method declares one, and the return instruction takes it.
      have hne : sc.method.returnTy ≠ .void := fun hvoid => by simpa using hty.2 hvoid
      cases hret : sc.method.returnTy <;> simp_all [Ir.machine, Instr.exec, ha.read]

end Stmt

/-! ## Branches and loops -/

/-- A condition and the branch on it: control gets to the label, or behind the branch. -/
theorem Expr.Lowers.realizes_branch {sc : Scope} {types : TypeMap} {cond : Expr} {c c' : Counters}
    {o : Operand} {k rest : List Instr} {l : String} {dest : Nat} (hsc : sc.Apart)
    (hlow : Lowers sc types true cond c o c' k) (hcode : CodeAt code pc (k ++ .branch o l :: rest))
    (hl : (lowMachine W).labelAt code l = some dest) (hρ : Env.SameBelow 0 env ρ) :
    (lowMachine W).Realizes code ⟨pc, ρ⟩ (cond.evalTest sc W env) fun b s =>
      s.pc = (if b then dest else pc + k.length + 1) ∧ Env.SameBelow 0 env s.data := by
  refine (realized hsc cond hlow hcode.left hρ).bind ?_
  rintro v ⟨_, ρ₁⟩ ⟨rfl, hsame, hv⟩
  have hbranch : (lowMachine W).Realizes code ⟨pc + k.length, ρ₁⟩ (v.test W) fun b s =>
      s = if b then ⟨dest, ρ₁⟩ else ⟨pc + k.length + 1, ρ₁⟩ := by
    have hexec : (lowMachine W).exec (.branch o l) ρ₁ =
        v.test W >>= fun b => pure (if b then .jump l ρ₁ else .next ρ₁) := by
      simp [Ir.machine, Instr.exec, hv.read]
    refine .instr hcode.right.head hexec ?_
    intro b
    cases b <;> simp [Machine.follow, hl]
  refine hbranch.mono ?_
  have hρ₁ := hρ.trans (hsame.mono (Nat.zero_le _))
  rintro b _ rfl
  cases b <;> exact ⟨rfl, hρ₁⟩

theorem Stmt.joinJump_eq {n : Nat} {e : Stmt} (he : e.definitelyReturns = false) :
    joinJump n e = [.goto (endifLabel n)] := by
  simp [joinJump, he]

theorem Stmt.joinLabel_eq {n : Nat} {t e : Stmt} (he : e.definitelyReturns = false) :
    joinLabel n t e = [.label (endifLabel n)] := by
  simp [joinLabel, he]

theorem reaches_joinLabel {n : Nat} {t e : Stmt} (hcode : CodeAt code pc (Stmt.joinLabel n t e)) :
    (lowMachine W).Reaches code ⟨pc, ρ⟩ h [] ⟨pc + (Stmt.joinLabel n t e).length, ρ⟩ h := by
  unfold Stmt.joinLabel at hcode ⊢
  split
  · exact .refl _ _
  · next hret =>
    rw [if_neg hret] at hcode
    exact .next hcode.head rfl

section

variable {sc : Scope} {types : TypeMap} (hlabels : (Ir.labels code).Nodup)
include hlabels

/-- A label is where it stands. -/
theorem labelAt_of_codeAt {l : String} {rest : List Instr}
    (hcode : CodeAt code pc (.label l :: rest)) :
    (lowMachine W).labelAt code l = some pc :=
  Machine.labelAt_of_nodup hlabels hcode.head rfl

/-- The code of the statement does what one execution of it does, wherever it stands in `code`. -/
def Stmt.Simulated (code : List Instr) (sc : Scope) (types : TypeMap) (s : Stmt) (env : Env W)
    (h : W.Heap) (o : Final W) : Prop :=
  ∀ {c c' piece pc ρ}, Quiet (s.annotate sc).notes → s.Lowers sc types c c' piece →
    CodeAt code pc piece → Env.SameBelow 0 env ρ → Simulates code ⟨pc, ρ⟩ h (pc + piece.length) o

namespace Stmt

variable {sp : Span} {cond : Expr} {t e body : Stmt} {h₁ h₂ : W.Heap}
  {t₁ t₂ : List (Request Source.Op W.Ref)} {o : Final W} (hsc : sc.Apart)
include hsc

theorem simulated_ifThen_true (htest : (cond.evalTest sc W env).run h = ⟨.ok true, h₁, t₁⟩)
    (iht : Simulated code sc types t env h₁ o) :
    Simulated code sc types (.ifThen sp cond t) env h (o.after t₁) := by
  intro c c' piece pc ρ hq hlow hcode hρ
  obtain ⟨-, hqt⟩ := quiet_append.1 hq
  obtain ⟨o, c₁, k₁, k₂, hc, ht, rfl⟩ := lowers_ifThen.1 hlow
  -- Behind the branch stand the jump to the end and the first label.
  have hthen := hcode.right.tail.tail
  obtain ⟨⟨_, ρ₁⟩, ⟨rfl, hρ₁⟩, hreach⟩ :=
    (hc.realizes_branch hsc hcode (labelAt_of_codeAt hlabels hthen) hρ).ok htest
  have hbody := (iht hqt ht hthen.tail.left hρ₁).behind fun ρ h => .next hthen.tail.right.head rfl
  exact ((hbody.skip (.next hthen.head rfl)).after hreach).cast (by simp; omega)

theorem simulated_ifThen_false (htest : (cond.evalTest sc W env).run h = ⟨.ok false, h₁, t₁⟩) :
    Simulated code sc types (.ifThen sp cond t) env h ⟨.ok (.normal env), h₁, t₁⟩ := by
  intro c c' piece pc ρ hq hlow hcode hρ
  obtain ⟨o, c₁, k₁, k₂, hc, ht, rfl⟩ := lowers_ifThen.1 hlow
  have hthen := hcode.right.tail.tail
  have hendif := hthen.tail.right
  obtain ⟨⟨_, ρ₁⟩, ⟨rfl, hρ₁⟩, hreach⟩ :=
    (hc.realizes_branch hsc hcode (labelAt_of_codeAt hlabels hthen) hρ).ok htest
  have hjump := hreach.skip (.jump hcode.right.tail.head rfl (labelAt_of_codeAt hlabels hendif))
  exact (Simulates.of_reaches (hjump.skip (.next hendif.head rfl)) hρ₁).cast (by simp; omega)

theorem simulated_ifElse_true (htest : (cond.evalTest sc W env).run h = ⟨.ok true, h₁, t₁⟩)
    (iht : Simulated code sc types t env h₁ o) :
    Simulated code sc types (.ifElse sp cond t e) env h (o.after t₁) := by
  intro c c' piece pc ρ hq hlow hcode hρ
  obtain ⟨-, hqt, -⟩ := quiet_append.1 hq |>.imp_right quiet_append.1
  obtain ⟨o, c₁, k₁, c₂, k₂, k₃, hc, he, ht, rfl⟩ := lowers_ifElse.1 hlow
  -- The code of the other branch comes first, and control jumps over it.
  have hthen := hcode.right.tail.right.right
  obtain ⟨⟨_, ρ₁⟩, ⟨rfl, hρ₁⟩, hreach⟩ :=
    (hc.realizes_branch hsc hcode (labelAt_of_codeAt hlabels hthen) hρ).ok htest
  have hbody := (iht hqt ht hthen.tail.left hρ₁).behind fun ρ h =>
    reaches_joinLabel hthen.tail.right
  exact ((hbody.skip (.next hthen.head rfl)).after hreach).cast (by simp; omega)

theorem simulated_ifElse_false (htest : (cond.evalTest sc W env).run h = ⟨.ok false, h₁, t₁⟩)
    (hexec : Exec sc W e env h₁ o) (ihe : Simulated code sc types e env h₁ o) :
    Simulated code sc types (.ifElse sp cond t e) env h (o.after t₁) := by
  intro c c' piece pc ρ hq hlow hcode hρ
  obtain ⟨-, -, hqe⟩ := quiet_append.1 hq |>.imp_right quiet_append.1
  obtain ⟨o, c₁, k₁, c₂, k₂, k₃, hc, he, ht, rfl⟩ := lowers_ifElse.1 hlow
  have hthen := hcode.right.tail.right.right
  obtain ⟨⟨_, ρ₁⟩, ⟨rfl, hρ₁⟩, hreach⟩ :=
    (hc.realizes_branch hsc hcode (labelAt_of_codeAt hlabels hthen) hρ).ok htest
  have hbody := (ihe hqe he hcode.right.tail.left hρ₁).after hreach
  -- A jump to the end is written only behind a branch that can be left at its end.
  cases hret : e.definitelyReturns with
  | true => exact hbody.of_leaves (hexec.leaves hret)
  | false =>
    have hjump := hcode.right.tail.right
    rw [joinJump_eq hret, joinLabel_eq hret] at hjump
    have hjoin := hjump.tail.tail.right
    have hend := hbody.behind fun ρ h =>
      (Machine.Reaches.jump hjump.head rfl (labelAt_of_codeAt hlabels hjoin)).skip
        (.next hjoin.head rfl)
    exact hend.cast (by simp [joinJump_eq hret, joinLabel_eq hret]; omega)

theorem simulated_while_false (htest : (cond.evalTest sc W env).run h = ⟨.ok false, h₁, t₁⟩) :
    Simulated code sc types (.whileLoop sp cond body) env h ⟨.ok (.normal env), h₁, t₁⟩ := by
  intro c c' piece pc ρ hq hlow hcode hρ
  obtain ⟨o, c₁, k₁, k₂, hc, hb, rfl⟩ := lowers_whileLoop.1 hlow
  have hbody := hcode.tail.right.tail.tail
  have hend := hbody.tail.right.tail
  obtain ⟨⟨_, ρ₁⟩, ⟨rfl, hρ₁⟩, hreach⟩ :=
    (hc.realizes_branch hsc hcode.tail (labelAt_of_codeAt hlabels hbody) hρ).ok htest
  have hjump := hreach.skip (.jump hcode.tail.right.tail.head rfl (labelAt_of_codeAt hlabels hend))
  have hleft := Simulates.of_reaches (hjump.skip (.next hend.head rfl)) hρ₁
  exact (hleft.skip (.next hcode.head rfl)).cast (by simp; omega)

theorem simulated_while_leave (htest : (cond.evalTest sc W env).run h = ⟨.ok true, h₁, t₁⟩)
    (hleaves : o.Leaves) (ihb : Simulated code sc types body env h₁ o) :
    Simulated code sc types (.whileLoop sp cond body) env h (o.after t₁) := by
  intro c c' piece pc ρ hq hlow hcode hρ
  obtain ⟨-, hqb⟩ := quiet_append.1 hq
  obtain ⟨o, c₁, k₁, k₂, hc, hb, rfl⟩ := lowers_whileLoop.1 hlow
  have hbody := hcode.tail.right.tail.tail
  obtain ⟨⟨_, ρ₁⟩, ⟨rfl, hρ₁⟩, hreach⟩ :=
    (hc.realizes_branch hsc hcode.tail (labelAt_of_codeAt hlabels hbody) hρ).ok htest
  have hloop := (ihb hqb hb hbody.tail.left hρ₁).skip (.next hbody.head rfl)
  exact ((hloop.after hreach).skip (.next hcode.head rfl)).of_leaves hleaves.after

/-- Once around a loop, and then whatever the loop does from there. -/
theorem simulated_while_again {env₁ : Env W}
    (htest : (cond.evalTest sc W env).run h = ⟨.ok true, h₁, t₁⟩)
    (ihb : Simulated code sc types body env h₁ ⟨.ok (.normal env₁), h₂, t₂⟩)
    (ihloop : Simulated code sc types (.whileLoop sp cond body) env₁ h₂ o) :
    Simulated code sc types (.whileLoop sp cond body) env h (o.after (t₁ ++ t₂)) := by
  intro c c' piece pc ρ hq hlow hcode hρ
  obtain ⟨-, hqb⟩ := quiet_append.1 hq
  obtain ⟨o, c₁, k₁, k₂, hc, hb, rfl⟩ := lowers_whileLoop.1 hlow
  have hbody := hcode.tail.right.tail.tail
  obtain ⟨⟨_, ρ₁⟩, ⟨rfl, hρ₁⟩, hreach⟩ :=
    (hc.realizes_branch hsc hcode.tail (labelAt_of_codeAt hlabels hbody) hρ).ok htest
  obtain ⟨ρ₂, hρ₂, hreach₂⟩ := ihb hqb hb hbody.tail.left hρ₁
  -- Label, condition, label, body, and the jump back to the first label.
  have hfirst := hreach.skip (.next hbody.head rfl)
  have hback := hreach₂.skip (.jump hbody.tail.right.head rfl (labelAt_of_codeAt hlabels hcode))
  have hround := hfirst.trans hback
  -- The loop is met again with its own code, so it is simulated from its first label again.
  exact ((ihloop hq hlow hcode hρ₂).after hround).skip (.next hcode.head rfl)

end Stmt

/-- The code of a statement without errors does what the statement does. -/
theorem Exec.simulates {s : Stmt} {o : Final W} (hsc : sc.Apart) (hexec : Exec sc W s env h o) :
    s.Simulated code sc types env h o := by
  induction hexec with
  | varDecl =>
    intro c c' piece pc ρ _ hlow _ hρ
    obtain ⟨rfl, rfl⟩ := Stmt.lowers_varDecl.1 hlow
    exact ⟨ρ, hρ, .refl _ _⟩
  | expr => exact fun _ hlow hcode hρ => Stmt.simulates_expr hsc hlow hcode hρ
  | assign => exact fun _ hlow hcode hρ => Stmt.simulates_assign hsc hlow hcode hρ
  | arrayAssign => exact fun _ hlow hcode hρ => Stmt.simulates_arrayAssign hsc hlow hcode hρ
  | ret => exact fun hq hlow hcode hρ => Stmt.simulates_ret hsc hq hlow hcode hρ
  | blockEnd =>
    intro c c' piece pc ρ _ hlow _ hρ
    obtain ⟨rfl, rfl⟩ := Stmt.lowersAll_nil.1 (Stmt.lowers_block.1 hlow)
    exact ⟨ρ, hρ, .refl _ _⟩
  | blockNext hb hbs ihb ihbs =>
    intro c c' piece pc ρ hq hlow hcode hρ
    obtain ⟨hqb, hqbs⟩ := quiet_append.1 hq
    obtain ⟨c₁, k₁, k₂, hlow₁, hlow₂, rfl⟩ := Stmt.lowersAll_cons.1 (Stmt.lowers_block.1 hlow)
    obtain ⟨ρ₁, hρ₁, hreach⟩ := ihb hqb hlow₁ hcode.left hρ
    have hrest := ihbs hqbs (Stmt.lowers_block.2 hlow₂) hcode.right hρ₁
    rw [List.length_append, ← Nat.add_assoc]
    exact hrest.after hreach
  | blockLeave hb hleaves ih =>
    intro c c' piece pc ρ hq hlow hcode hρ
    obtain ⟨hqb, -⟩ := quiet_append.1 hq
    obtain ⟨c₁, k₁, k₂, hlow₁, -, rfl⟩ := Stmt.lowersAll_cons.1 (Stmt.lowers_block.1 hlow)
    exact (ih hqb hlow₁ hcode.left hρ).of_leaves hleaves
  | ifThenTrue htest ht iht => exact Stmt.simulated_ifThen_true hlabels hsc htest iht
  | ifThenFalse htest => exact Stmt.simulated_ifThen_false hlabels hsc htest
  -- A condition that stops early stops the statement: nothing behind the branch is looked at.
  | ifThenHalt htest =>
    intro c c' piece pc ρ hq hlow hcode hρ hne
    obtain ⟨o, c₁, k₁, k₂, hc, ht, rfl⟩ := Stmt.lowers_ifThen.1 hlow
    have hthen := labelAt_of_codeAt (W := W) hlabels hcode.right.tail.tail
    exact (hc.realizes_branch hsc hcode hthen hρ).error htest hne
  | ifElseTrue htest ht iht => exact Stmt.simulated_ifElse_true hlabels hsc htest iht
  | ifElseFalse htest he ihe => exact Stmt.simulated_ifElse_false hlabels hsc htest he ihe
  | ifElseHalt htest =>
    intro c c' piece pc ρ hq hlow hcode hρ hne
    obtain ⟨o, c₁, k₁, c₂, k₂, k₃, hc, he, ht, rfl⟩ := Stmt.lowers_ifElse.1 hlow
    have hthen := labelAt_of_codeAt (W := W) hlabels hcode.right.tail.right.right
    exact (hc.realizes_branch hsc hcode hthen hρ).error htest hne
  | whileFalse htest => exact Stmt.simulated_while_false hlabels hsc htest
  | whileHalt htest =>
    intro c c' piece pc ρ hq hlow hcode hρ hne
    obtain ⟨o, c₁, k₁, k₂, hc, hb, rfl⟩ := Stmt.lowers_whileLoop.1 hlow
    have hbody := labelAt_of_codeAt (W := W) hlabels hcode.tail.right.tail.tail
    have hruns := (hc.realizes_branch hsc hcode.tail hbody hρ).error htest hne
    exact Machine.Reaches.runs (.next hcode.head rfl) hruns
  | whileLeave htest hb hleaves ihb =>
    exact Stmt.simulated_while_leave hlabels hsc htest hleaves ihb
  | whileAgain htest hb hloop ihb ihloop =>
    exact Stmt.simulated_while_again hlabels hsc htest ihb ihloop

end

/-! ## Methods -/

/-- A body that is left at its end is followed by the final return. -/
theorem MethodDecl.finalReturn_eq {d : MethodDecl}
    (hvalue : d.returnTy.node ≠ .void → Stmt.lastReturns d.body = true)
    (hlast : Stmt.lastReturns d.body = false) : d.finalReturn = [.ret .void none] := by
  have hvoid : d.returnTy.node = .void := by
    by_contra hne
    simp [hvalue hne] at hlast
  simp [finalReturn, hvoid, hlast]

/-- The code of a body and the final return give back what the body gives back. -/
theorem ExecBody.runs {table : SymbolTable} {types : TypeMap} {cls : ClassSymbols}
    {method : MethodSymbols} {d : MethodDecl} {c c' : Counters} {body : List Instr}
    {o : Outcome W.Heap (Request Source.Op W.Ref) (Halt W.Fault) (Option (Value W.Ref))}
    (hacc : d.Accepted table cls method) (hsc : (d.scope table cls method).Apart)
    (hlow : Stmt.LowersAll (d.scope table cls method) types d.body c c' body)
    (hexec : ExecBody (d.scope table cls method) W d.body env h o)
    (hmean : o.result ≠ .error .stuck) :
    (lowMachine W).Runs (body ++ d.finalReturn) ⟨0, env⟩ h o := by
  obtain ⟨r, hexec, hres⟩ := hexec
  obtain ⟨res, hs, tr⟩ := o
  obtain rfl : res = r.map Completion.result := hres
  have hlabels : (Ir.labels (body ++ d.finalReturn)).Nodup := by
    rw [labels_append, d.labels_finalReturn, List.append_nil]
    exact hlow.labelled.nodup
  have hcode : CodeAt (body ++ d.finalReturn) 0 (body ++ d.finalReturn) := by
    simpa using CodeAt.of_append [] (body ++ d.finalReturn) []
  have hsim := hexec.simulates hlabels hsc hacc.body (Stmt.lowers_block.2 hlow) hcode.left
    (.refl 0 env)
  rcases r with e | env' | v
  · exact hsim fun he => hmean (by rw [he]; rfl)
  · obtain ⟨ρ, -, hreach⟩ := hsim
    -- A body that is left at its end has a final return behind it: without one, its last statement
    -- would always return.
    cases hlast : Stmt.lastReturns d.body with
    | true => exact absurd rfl (hexec.leaves hlast env')
    | false =>
      have hret := hcode.right
      rw [MethodDecl.finalReturn_eq hacc.returns hlast] at hret hreach ⊢
      have hall := hreach.runs (.return hret.head rfl)
      rwa [List.append_nil] at hall
  · exact hsim

/-- The code of a lowered method of an accepted program gives back what the body gives back. -/
theorem ExecBody.runs_of_lower {p : Program} {table : SymbolTable} {a : Annotation} {d : ClassDecl}
    {cls : ClassSymbols} {md : MethodDecl} {method : MethodSymbols} {c c' : Counters} {m : Method}
    {events : List Event} (hcheck : p.check table = .ok a) (hd : d ∈ p.classes)
    (hcls : table.class? d.name.node = some cls) (hmd : md ∈ d.methods)
    (hmethod : cls.method? md.name.node = some method)
    (hlow : (md.lower table a.types cls).run c = ⟨.ok m, c', events⟩)
    (hnames : ∀ v ∈ m.params ++ m.locals, ∀ k, v.name ≠ Lower.tempName k)
    {o : Outcome W.Heap (Request Source.Op W.Ref) (Halt W.Fault) (Option (Value W.Ref))}
    (hexec : ExecBody (md.scope table cls method) W md.body env h o)
    (hmean : o.result ≠ .error .stuck) : (lowMachine W).Runs m.code ⟨0, env⟩ h o := by
  obtain ⟨cls', hcls', haccepted⟩ := p.check_methods hcheck hd
  obtain rfl : cls' = cls := Option.some.inj (hcls'.symm.trans hcls)
  obtain ⟨method₁, hacc⟩ := haccepted md hmd
  obtain rfl : method₁ = method := Option.some.inj (hacc.symbols.symm.trans hmethod)
  obtain ⟨method₂, body, hmethod₂, hbody, hcode, hparams, hlocals⟩ := MethodDecl.lower_ok hlow
  obtain rfl : method₂ = method₁ := Option.some.inj (hmethod₂.symm.trans hmethod)
  rw [hparams, hlocals] at hnames
  rw [hcode]
  exact hexec.runs hacc (Scope.apart_of_names hnames) hbody hmean

/-- **Theorem.** Lowering preserves meaning. Let a method of an accepted program be lowered, with no
local or parameter named as a temporary. Whenever its body, executed in any world, environment and
heap, gives back a result, or stops early because an operation failed or a divisor was zero, then
its code, run from the first instruction in the same environment and heap, ends in the same way,
with the same heap and after the same requests; and it ends in no other way. -/
theorem lowering_preserves_meaning {p : Program} {table : SymbolTable} {a : Annotation}
    {d : ClassDecl} {cls : ClassSymbols} {md : MethodDecl} {method : MethodSymbols}
    {c c' : Counters} {m : Method} {events : List Event}
    (hcheck : p.check table = .ok a) (hd : d ∈ p.classes)
    (hcls : table.class? d.name.node = some cls) (hmd : md ∈ d.methods)
    (hmethod : cls.method? md.name.node = some method)
    (hlow : (md.lower table a.types cls).run c = ⟨.ok m, c', events⟩)
    (hnames : ∀ v ∈ m.params ++ m.locals, ∀ k, v.name ≠ Lower.tempName k)
    (W : World Source.Op) (env : Env W) (h : W.Heap)
    (o : Outcome W.Heap (Request Source.Op W.Ref) (Halt W.Fault) (Option (Value W.Ref)))
    (hexec : ExecBody (md.scope table cls method) W md.body env h o)
    (hmean : o.result ≠ .error .stuck) :
    ∀ o', (lowMachine W).Runs m.code ⟨0, env⟩ h o' ↔ o' = o := by
  have hruns := hexec.runs_of_lower hcheck hd hcls hmd hmethod hlow hnames hmean
  intro o'
  constructor
  · intro ho'
    exact ho'.unique hruns
  · rintro rfl
    exact hruns

end

/-! A class with a method that reads a field in every round of a loop:

    class Lift { int step; int climb(int goal) { int at; at = 0;
      while (at < goal) at = at + step; return at; } }
-/

namespace Lift

def climb : MethodDecl where
  name := { node := "climb" }
  returnTy := { node := .int }
  body :=
    [.assign .unknown { node := "at" } (.int { id := 0 } 0),
      .whileLoop .unknown
        (.binary { id := 1 } .lt (.var { id := 2 } "at") (.var { id := 3 } "goal"))
        (.assign .unknown { node := "at" }
          (.binary { id := 4 } .add (.var { id := 5 } "at") (.var { id := 6 } "step"))),
      .ret .unknown (some (.var { id := 7 } "at"))]

def climbSymbols : MethodSymbols where
  name := "climb"
  returnTy := .int
  params := [⟨"goal", .int⟩]
  locals := [⟨"at", .int⟩]

def symbols : ClassSymbols where
  name := "Lift"
  fields := [⟨"step", .int⟩]
  methods := [climbSymbols]

def table : SymbolTable where
  classes := [symbols]

def decl : ClassDecl where
  name := { node := "Lift" }
  methods := [climb]

def program : Program where
  classes := [decl]

/-- A world in which every operation gives one. -/
def world : World Source.Op where
  Ref := Unit
  Heap := Unit
  Fault := Unit
  perform := fun _ _ h => (.ok (.int 1), h)

def env : Env world
  | "this" => some (.ref ())
  | "goal" => some (.int 1)
  | _ => none

/-- One round of the loop is enough, with one read of the field. -/
def outcome : Outcome world.Heap (Request Source.Op world.Ref) (Halt world.Fault) (Result world) :=
  ⟨.ok (some (.int 1)), (), [⟨.getField "step", [.ref ()]⟩]⟩

theorem climb_exec :
    ExecBody (climb.scope table symbols climbSymbols) world climb.body env () outcome := by
  refine ⟨.ok (.returned (some (.int 1))), ?_, rfl⟩
  refine .blockNext (o := ⟨_, _, _⟩)
    (?_ : Exec _ _ _ _ _ ⟨.ok (.normal (env.set "at" (.int 0))), (), []⟩) ?_
  · exact .assign
  refine .blockNext (o := ⟨_, _, _⟩) (?_ : Exec _ _ _ _ _
    ⟨.ok (.normal ((env.set "at" (.int 0)).set "at" (.int 1))), (), outcome.output⟩) ?_
  · refine .whileAgain (o := ⟨_, _, []⟩) (?_ : _ = Outcome.mk (.ok true) () [])
      (?_ : Exec _ world _ _ _ ⟨.ok (.normal _), (), outcome.output⟩) (.whileFalse ?_)
    · rfl
    · exact .assign
    · rfl
  · exact .blockLeave .ret nofun

theorem climb_preserved : ∃ a m c' events, program.check table = .ok a ∧
    (climb.lower table a.types symbols).run {} = ⟨.ok m, c', events⟩ ∧
    ∀ o', (lowMachine world).Runs m.code ⟨0, env⟩ () o' ↔ o' = outcome := by
  have hcheck : program.check table = .ok (program.annotate table) := rfl
  have hnames : ∀ v ∈ climbSymbols.params ++ climbSymbols.locals, v.name.toList[1]? ≠ some 'm' := by
    decide
  have hclass : table.class? decl.name.node = some symbols := rfl
  have hmethod : symbols.method? climb.name.node = some climbSymbols := rfl
  refine ⟨_, _, _, _, hcheck, rfl, ?_⟩
  exact lowering_preserves_meaning hcheck (.head _) hclass (.head _) hmethod rfl
    (fun v hv k => Lower.ne_tempName (hnames v hv) k) world env () outcome climb_exec nofun

end Lift

end MiniJava
