import MiniJava.Proofs.Lowering.Inversion

/-!
# Where instructions come from, and what they mention

Lowering writes instructions without saying which statement they are for. `Stmt.trace` writes them
with the innermost statement, and is `Stmt.lower` once these labels are dropped
(`unlabelled_traceAll`).

What the code of a statement mentions is decided where its expressions name a variable or the
object. A `Policy` says which variables may be mentioned, with which mark, and whether fields may be
accessed. Where all names in a statement obey a policy, so do all instructions that come from it
(`Stmt.Permitted.trace`).
-/

namespace MiniJava

open Ir

namespace Ir

/-! ## Operands in instructions -/

namespace Operand

/-- The operand and those inside it, from the outside in. -/
def occurrences : Operand → List Operand
  | literal v t => [literal v t]
  | var x t p => [var x t p]
  | item x i t p => item x i t p :: i.occurrences
  | cls c => [cls c]

/-- The ordinal that the operand shows. -/
def mark? : Operand → Option Nat
  | var _ _ p | item _ _ _ p => p
  | literal .. | cls _ => none

end Operand

namespace Instr

/-- The operands of an instruction, targets of assignments and names of fields included. -/
def operands : Instr → List Operand
  | assign dest _ rhs => dest :: rhs.operands
  | value o | not o _ | newArray o _ | length o | getField o _ | branch o _ => [o]
  | binary _ l r _ => [l, r]
  | call _ target _ args _ _ => target :: args
  | putField field v => [field, v]
  | newObject _ | goto _ | label _ => []
  | ret _ o => o.toList

/-- All operands of an instruction, at any depth. -/
def occurrences (i : Instr) : List Operand := i.operands.flatMap Operand.occurrences

/-- The instruction reads or writes a field of `this`. -/
def accessesField : Instr → Bool
  | assign _ _ rhs => rhs.accessesField
  | getField .. | putField .. => true
  | value _ | not .. | binary .. | call .. | newObject _ | newArray .. | length _
  | goto _ | branch .. | label _ | ret .. => false

end Instr

/-! ## Policies -/

/-- What code may mention. -/
structure Policy where
  /-- The variables, each with the mark that it shows. -/
  vars : String → Option Nat → Prop
  /-- Whether fields may be accessed. -/
  fields : Prop

/-- Temporaries are not marked. -/
def Policy.AllowsTemps (π : Policy) : Prop := ∀ k, π.vars (Lower.tempName k) none

def Operand.Obeys (π : Policy) (o : Operand) : Prop :=
  ∀ q ∈ o.occurrences, ∀ x, q.name? = some x → π.vars x q.mark?

def Instr.Obeys (π : Policy) (i : Instr) : Prop :=
  (∀ o ∈ i.operands, o.Obeys π) ∧ (i.accessesField = true → π.fields)

variable {π : Policy}

namespace Operand

theorem obeys_literal {v : Int32} {t : Ty} : (literal v t).Obeys π := by
  simp [Obeys, occurrences, name?]

theorem obeys_cls {c : String} : (cls c).Obeys π := by
  simp [Obeys, occurrences, name?]

theorem obeys_var {x : String} {t : Ty} {p : Option Nat} : (var x t p).Obeys π ↔ π.vars x p := by
  simp [Obeys, occurrences, name?, mark?]

theorem obeys_item {x : String} {i : Operand} {t : Ty} {p : Option Nat} :
    (item x i t p).Obeys π ↔ π.vars x p ∧ i.Obeys π := by
  simp [Obeys, occurrences, name?, mark?]

end Operand

/-- The operands of an instruction without fields are all that counts. -/
theorem Instr.obeys_of_operands {i : Instr} (hfield : i.accessesField = false)
    (h : ∀ o ∈ i.operands, o.Obeys π) : i.Obeys π := by
  refine ⟨h, fun hi => ?_⟩
  rw [hfield] at hi
  cases hi

theorem Instr.obeys_goto {l : String} : (goto l).Obeys π :=
  obeys_of_operands rfl (List.forall_mem_nil _)

theorem Instr.obeys_label {l : String} : (label l).Obeys π :=
  obeys_of_operands rfl (List.forall_mem_nil _)

theorem Instr.obeys_branch {o : Operand} {l : String} (h : o.Obeys π) : (branch o l).Obeys π :=
  obeys_of_operands rfl (List.forall_mem_singleton.2 h)

theorem Instr.Obeys.occurrences {i : Instr} (h : i.Obeys π) {o : Operand} (ho : o ∈ i.occurrences)
    {x : String} (hx : o.name? = some x) : π.vars x o.mark? := by
  obtain ⟨q, hq, ho⟩ := List.mem_flatMap.1 ho
  exact h.1 q hq o ho x hx

end Ir

/-! ## Expressions -/

/-- The name may be mentioned for what it stands for. -/
def Ir.Policy.AllowsName (π : Policy) (sc : Scope) (mk : Bool) (x : String) : Prop :=
  ∀ b, sc.resolve x = some b →
    π.vars x (Expr.varOperand mk x b).mark? ∧ (b.isField = true → π.fields)

namespace Expr

/-- The expression may be mentioned, apart from its parts. -/
def MayMention (π : Policy) (sc : Scope) (mk : Bool) : Expr → Prop
  | var _ x => π.AllowsName sc mk x
  | this _ => π.vars "this" none
  | _ => True

/-- All names in the expression may be mentioned. -/
def Permitted (π : Policy) (sc : Scope) (mk : Bool) (e : Expr) : Prop :=
  ∀ d ∈ e.subtree, d.MayMention π sc mk

variable {π : Policy} {sc : Scope} {types : TypeMap} {mk : Bool} {e : Expr}

theorem Permitted.self (h : e.Permitted π sc mk) : e.MayMention π sc mk := by
  rw [Permitted, subtree_eq_cons, List.forall_mem_cons] at h
  exact h.1

theorem Permitted.part (h : e.Permitted π sc mk) {d : Expr} (hd : d ∈ e.children) :
    d.Permitted π sc mk := by
  rw [Permitted, subtree_eq_cons, List.forall_mem_cons] at h
  exact fun d' hd' => h.2 d' (List.mem_flatMap.2 ⟨d, hd, hd'⟩)

theorem temp_obeys (hπ : π.AllowsTemps) {ty : Ty} {rhs : Instr} (h : rhs.Obeys π) :
    (Lower.temp ty rhs).Ensures (Operand.Obeys π) (Instr.Obeys π) := by
  have hname : (Lower.freshTemp).Ensures (fun x => ∃ k, x = Lower.tempName k) (Instr.Obeys π) :=
    .update fun c => ⟨c.temps, rfl⟩
  refine hname.bind fun x hx => ?_
  obtain ⟨k, rfl⟩ := hx
  have hdest : (Operand.plain (Lower.tempName k) ty).Obeys π := Operand.obeys_var.2 (hπ k)
  have hinstr : (Instr.assign (.plain (Lower.tempName k) ty) ty rhs).Obeys π :=
    ⟨List.forall_mem_cons.2 ⟨hdest, h.1⟩, h.2⟩
  exact .bind (.emit hinstr) fun _ _ => .pure hdest

theorem typeOf_ensures {P : Instr → Prop} (n : Node) :
    (Lower.typeOf types n).Ensures (fun _ => True) P := by
  unfold Lower.typeOf
  split
  · exact .pure trivial
  · exact .fail _

theorem varOperand_mark (x : String) (b : Binding) :
    varOperand mk x b = .var x b.ty (varOperand mk x b).mark? := by
  cases b <;> rfl

theorem obeys_varOperand {x : String} {b : Binding} (h : π.vars x (varOperand mk x b).mark?) :
    (varOperand mk x b).Obeys π := by
  rw [varOperand_mark]
  exact Operand.obeys_var.2 h

/-- A field is read by its bare name. -/
theorem readField_obeys (hπ : π.AllowsTemps) {x : String} {ty : Ty} (hx : π.vars x none)
    (hfields : π.fields) : (readField x ty).Ensures (Operand.Obeys π) (Instr.Obeys π) :=
  temp_obeys hπ ⟨List.forall_mem_singleton.2 (Operand.obeys_var.2 hx), fun _ => hfields⟩

theorem lowerVar_obeys (hπ : π.AllowsTemps) {x : String} (span : Span) (h : π.AllowsName sc mk x) :
    (lowerVar sc mk x span).Ensures (Operand.Obeys π) (Instr.Obeys π) := by
  unfold lowerVar
  split
  · next s hs => exact readField_obeys hπ (h _ hs).1 ((h _ hs).2 rfl)
  · next b _ hb => exact .pure (obeys_varOperand (h b hb).1)
  · split
    · exact .pure Operand.obeys_cls
    · exact .fail _

/-- An item shows the mark of its array. -/
theorem itemOf_obeys {base index : Operand} {ty : Ty} {span : Span} (hbase : base.Obeys π)
    (hindex : index.Obeys π) :
    (itemOf base index ty span).Ensures (Operand.Obeys π) (Instr.Obeys π) := by
  cases base with
  | var x t p => exact .pure (Operand.obeys_item.2 ⟨Operand.obeys_var.1 hbase, hindex⟩)
  | literal | item | cls => exact .fail _

theorem callInstr_obeys {target : Operand} {args : List Operand} {m : String} {ty : Ty}
    (htarget : target.Obeys π) (hargs : ∀ a ∈ args, a.Obeys π) :
    (callInstr sc target m args ty).Obeys π :=
  Instr.obeys_of_operands rfl (List.forall_mem_cons.2 ⟨htarget, hargs⟩)

theorem lowerAll_obeys {es : List Expr}
    (h : ∀ e ∈ es, (e.lower sc types mk).Ensures (Operand.Obeys π) (Instr.Obeys π)) :
    (lowerAll sc types mk es).Ensures (fun os => ∀ o ∈ os, o.Obeys π) (Instr.Obeys π) := by
  induction es with
  | nil => exact .pure (List.forall_mem_nil _)
  | cons e es ih =>
    rw [List.forall_mem_cons] at h
    exact h.1.bind fun o ho => (ih h.2).bind fun os hos => .pure (List.forall_mem_cons.2 ⟨ho, hos⟩)

/-- **Expressions.** Where the names in an expression obey a policy, its operand and its code do. -/
theorem Permitted.lower (hπ : π.AllowsTemps) (h : e.Permitted π sc mk) :
    (e.lower sc types mk).Ensures (Operand.Obeys π) (Instr.Obeys π) := by
  induction e using Expr.induction with
  | int | bool => exact .pure Operand.obeys_literal
  | var n x => exact lowerVar_obeys hπ n.span h.self
  | this n => exact .pure (Operand.obeys_var.2 h.self)
  | not n e ih =>
    have he := ih (h.part (List.mem_singleton.2 rfl))
    exact he.bind fun o ho =>
      temp_obeys hπ (Instr.obeys_of_operands rfl (List.forall_mem_singleton.2 ho))
  | binary n op l r ihl ihr =>
    have hl := ihl (h.part (List.mem_cons_self ..))
    have hr := ihr (h.part (List.mem_cons_of_mem _ (List.mem_singleton.2 rfl)))
    refine (typeOf_ensures n).bind fun ty _ => hl.bind fun o ho => hr.bind fun o' ho' => ?_
    exact temp_obeys hπ (Instr.obeys_of_operands rfl
      (List.forall_mem_cons.2 ⟨ho, List.forall_mem_singleton.2 ho'⟩))
  | call n r m args ihr ihargs =>
    have hr := ihr (h.part (List.mem_cons_self ..))
    have hargs := lowerAll_obeys fun a ha => ihargs a ha (h.part (List.mem_cons_of_mem _ ha))
    refine (typeOf_ensures n).bind fun ty _ => ?_
    split
    · exact .fail _
    · exact hargs.bind fun os hos => hr.bind fun t ht => temp_obeys hπ (callInstr_obeys ht hos)
  | newObject n c =>
    refine (temp_obeys hπ (Instr.obeys_of_operands rfl (List.forall_mem_nil _))).bind fun o ho => ?_
    exact .bind (.emit (Instr.obeys_of_operands rfl (List.forall_mem_singleton.2 ho)))
      fun _ _ => .pure ho
  | newArray n e ih =>
    have he := ih (h.part (List.mem_singleton.2 rfl))
    exact (typeOf_ensures n).bind fun ty _ => he.bind fun o ho =>
      temp_obeys hπ (Instr.obeys_of_operands rfl (List.forall_mem_singleton.2 ho))
  | length n a ih =>
    have ha := ih (h.part (List.mem_singleton.2 rfl))
    exact ha.bind fun o ho =>
      temp_obeys hπ (Instr.obeys_of_operands rfl (List.forall_mem_singleton.2 ho))
  | index n a i iha ihi =>
    have ha := iha (h.part (List.mem_cons_self ..))
    have hi := ihi (h.part (List.mem_cons_of_mem _ (List.mem_singleton.2 rfl)))
    refine (typeOf_ensures n).bind fun ty _ => ha.bind fun o ho => hi.bind fun o' ho' => ?_
    exact (itemOf_obeys ho ho').bind fun item hitem =>
      temp_obeys hπ (Instr.obeys_of_operands rfl (List.forall_mem_singleton.2 hitem))
  | paren n e ih => exact ih (h.part (List.mem_singleton.2 rfl))

theorem Permitted.lowerEffect (hπ : π.AllowsTemps) (h : e.Permitted π sc true) :
    (e.lowerEffect sc types).Ensures (fun _ => True) (Instr.Obeys π) := by
  induction e using Expr.induction with
  | call n r m args =>
    refine (lowerAll_obeys fun a ha => (h.part (List.mem_cons_of_mem _ ha)).lower hπ).bind
      fun os hos => ?_
    exact ((h.part (List.mem_cons_self ..)).lower hπ).bind fun t ht =>
      .emit (callInstr_obeys ht hos)
  | paren n e ih => exact ih (h.part (List.mem_singleton.2 rfl))
  | _ => exact (h.lower hπ).bind fun _ _ => .pure trivial

end Expr

/-! ## Statements -/

namespace Stmt

def isReturn : Stmt → Bool
  | ret .. => true
  | _ => false

mutual

/-- Lowers a statement and writes each instruction with the innermost statement that it comes
from. -/
def trace (sc : Scope) (types : TypeMap) : Stmt → Stage Counters (Stmt × Instr) LowerError Unit
  | varDecl .. => pure ()
  | block _ body => traceAll sc types body
  | ifThen sp c t => do
    let s := ifThen sp c t
    let n ← Lower.freshLabel.labelled s
    let cond ← (c.lower sc types true).labelled s
    Stage.emit (s, .branch cond (thenLabel n))
    Stage.emit (s, .goto (endifLabel n))
    Stage.emit (s, .label (thenLabel n))
    t.trace sc types
    Stage.emit (s, .label (endifLabel n))
  | ifElse sp c t e => do
    let s := ifElse sp c t e
    let n ← Lower.freshLabel.labelled s
    let cond ← (c.lower sc types true).labelled s
    Stage.emit (s, .branch cond (thenLabel n))
    e.trace sc types
    (Stage.emitAll (joinJump n e)).labelled s
    Stage.emit (s, .label (thenLabel n))
    t.trace sc types
    (Stage.emitAll (joinLabel n t e)).labelled s
  | whileLoop sp c b => do
    let s := whileLoop sp c b
    let n ← Lower.freshLabel.labelled s
    Stage.emit (s, .label (condLabel n))
    let cond ← (c.lower sc types true).labelled s
    Stage.emit (s, .branch cond (bodyLabel n))
    Stage.emit (s, .goto (endLabel n))
    Stage.emit (s, .label (bodyLabel n))
    b.trace sc types
    Stage.emit (s, .goto (condLabel n))
    Stage.emit (s, .label (endLabel n))
  | expr sp e => (e.lowerEffect sc types).labelled (expr sp e)
  | assign sp x v => (lowerAssign sc types x v).labelled (assign sp x v)
  | arrayAssign sp x i v => (lowerArrayAssign sc types x i v).labelled (arrayAssign sp x i v)
  | ret sp v => (lowerReturn sc types v).labelled (ret sp v)

def traceAll (sc : Scope) (types : TypeMap) :
    List Stmt → Stage Counters (Stmt × Instr) LowerError Unit
  | [] => pure ()
  | s :: ss => do
    s.trace sc types
    traceAll sc types ss

end

section

variable (sc : Scope) (types : TypeMap)

theorem unlabelled_traceAll_of_mem {ss : List Stmt}
    (h : ∀ s ∈ ss, (s.trace sc types).unlabelled = s.lower sc types) :
    (traceAll sc types ss).unlabelled = lowerAll sc types ss := by
  induction ss with
  | nil => rfl
  | cons s ss ih =>
    rw [List.forall_mem_cons] at h
    rw [traceAll, lowerAll, Stage.unlabelled_bind, h.1, ih h.2]

/-- Without its labels, the trace of a statement is its code. -/
theorem unlabelled_trace (s : Stmt) : (s.trace sc types).unlabelled = s.lower sc types := by
  induction s using Stmt.induction with
  | varDecl => rfl
  | block sp body ih => exact unlabelled_traceAll_of_mem sc types ih
  | ifThen sp c t ih =>
    simp only [trace, lower, Stage.unlabelled_bind, Stage.unlabelled_labelled,
      Stage.unlabelled_emit, ih]
  | ifElse sp c t e iht ihe =>
    rw [lower_ifElse]
    simp only [trace, Stage.unlabelled_bind, Stage.unlabelled_labelled,
      Stage.unlabelled_emit, iht, ihe]
  | whileLoop sp c b ih =>
    simp only [trace, lower, Stage.unlabelled_bind, Stage.unlabelled_labelled,
      Stage.unlabelled_emit, ih]
  | expr | assign | arrayAssign | ret => exact Stage.unlabelled_labelled ..

theorem unlabelled_traceAll (ss : List Stmt) :
    (traceAll sc types ss).unlabelled = lowerAll sc types ss :=
  unlabelled_traceAll_of_mem sc types fun s _ => s.unlabelled_trace sc types

end

/-- The names in the statement may be mentioned: those in a `return` by the second policy and those
elsewhere by the first. -/
inductive Permitted (π ρ : Policy) (sc : Scope) : Stmt → Prop
  | varDecl {sp : Span} {d : VarDecl} : Permitted π ρ sc (varDecl sp d)
  | block {sp : Span} {body : List Stmt} :
      (∀ s ∈ body, Permitted π ρ sc s) → Permitted π ρ sc (block sp body)
  | ifThen {sp : Span} {c : Expr} {t : Stmt} :
      c.Permitted π sc true → Permitted π ρ sc t → Permitted π ρ sc (ifThen sp c t)
  | ifElse {sp : Span} {c : Expr} {t e : Stmt} : c.Permitted π sc true →
      Permitted π ρ sc t → Permitted π ρ sc e → Permitted π ρ sc (ifElse sp c t e)
  | whileLoop {sp : Span} {c : Expr} {b : Stmt} :
      c.Permitted π sc true → Permitted π ρ sc b → Permitted π ρ sc (whileLoop sp c b)
  | expr {sp : Span} {e : Expr} : e.Permitted π sc true → Permitted π ρ sc (expr sp e)
  | assign {sp : Span} {x : Located String} {v : Expr} :
      π.AllowsName sc true x.node → v.Permitted π sc true → Permitted π ρ sc (assign sp x v)
  | arrayAssign {sp : Span} {x : Located String} {i v : Expr} : π.AllowsName sc true x.node →
      i.Permitted π sc true → v.Permitted π sc true → Permitted π ρ sc (arrayAssign sp x i v)
  | ret {sp : Span} : Permitted π ρ sc (ret sp none)
  | retValue {sp : Span} {v : Expr} : v.Permitted ρ sc false → Permitted π ρ sc (ret sp (some v))

/-- What comes from a `return` obeys the second policy, and everything else the first. -/
def ObeyLabels (π ρ : Policy) (q : Stmt × Instr) : Prop := q.2.Obeys (if q.1.isReturn then ρ else π)

section

variable {π ρ : Policy} {sc : Scope} {types : TypeMap}

theorem resolveTarget_ensures {P : Instr → Prop} (x : Located String) :
    (resolveTarget sc x).Ensures (fun b => sc.resolve x.node = some b) P := by
  unfold resolveTarget
  split
  · next b hb => exact .pure hb
  · exact .fail _

theorem itemTy_ensures {P : Instr → Prop} (x : Located String) (b : Binding) :
    (itemTy x b).Ensures (fun _ => True) P := by
  unfold itemTy
  split
  · exact .pure trivial
  · exact .fail _

theorem arrayOperand_obeys (hπ : π.AllowsTemps) {x : Located String} {b : Binding}
    (hx : π.vars x.node (Expr.varOperand true x.node b).mark?)
    (hfield : b.isField = true → π.fields) :
    (arrayOperand x b).Ensures (Operand.Obeys π) (Instr.Obeys π) := by
  cases b with
  | field s => exact Expr.readField_obeys hπ hx (hfield rfl)
  | loc | param => exact .pure (Expr.obeys_varOperand hx)

theorem lowerAssign_obeys (hπ : π.AllowsTemps) {x : Located String} {v : Expr}
    (hx : π.AllowsName sc true x.node) (hv : v.Permitted π sc true) :
    (lowerAssign sc types x v).Ensures (fun _ => True) (Instr.Obeys π) := by
  refine (resolveTarget_ensures x).bind fun b hb => (hv.lower hπ).bind fun o ho => ?_
  obtain ⟨hvar, hfield⟩ := hx b hb
  have hdest := Expr.obeys_varOperand hvar
  cases b with
  | field s =>
    exact .emit ⟨List.forall_mem_cons.2 ⟨hdest, List.forall_mem_singleton.2 ho⟩,
      fun _ => hfield rfl⟩
  | loc | param =>
    exact .emit (Instr.obeys_of_operands rfl
      (List.forall_mem_cons.2 ⟨hdest, List.forall_mem_singleton.2 ho⟩))

theorem lowerArrayAssign_obeys (hπ : π.AllowsTemps) {x : Located String} {i v : Expr}
    (hx : π.AllowsName sc true x.node) (hi : i.Permitted π sc true) (hv : v.Permitted π sc true) :
    (lowerArrayAssign sc types x i v).Ensures (fun _ => True) (Instr.Obeys π) := by
  refine (resolveTarget_ensures x).bind fun b hb => (itemTy_ensures x b).bind fun ty _ => ?_
  obtain ⟨hvar, hfield⟩ := hx b hb
  refine (arrayOperand_obeys hπ hvar hfield).bind fun base hbase => ?_
  refine (hi.lower hπ).bind fun index hindex => (hv.lower hπ).bind fun o ho => ?_
  exact (Expr.itemOf_obeys hbase hindex).bind fun dest hdest =>
    .emit (Instr.obeys_of_operands rfl
      (List.forall_mem_cons.2 ⟨hdest, List.forall_mem_singleton.2 ho⟩))

theorem lowerReturn_obeys (hρ : ρ.AllowsTemps) {v : Option Expr}
    (hv : ∀ e, v = some e → e.Permitted ρ sc false) :
    (lowerReturn sc types v).Ensures (fun _ => True) (Instr.Obeys ρ) := by
  cases v with
  | none => exact .emit (Instr.obeys_of_operands rfl (List.forall_mem_nil _))
  | some e =>
    exact ((hv e rfl).lower hρ).bind fun o ho =>
      .emit (Instr.obeys_of_operands rfl (List.forall_mem_singleton.2 ho))

theorem traceAll_obeys {ss : List Stmt}
    (h : ∀ s ∈ ss, (s.trace sc types).Ensures (fun _ => True) (ObeyLabels π ρ)) :
    (traceAll sc types ss).Ensures (fun _ => True) (ObeyLabels π ρ) := by
  induction ss with
  | nil => exact .pure trivial
  | cons s ss ih =>
    rw [List.forall_mem_cons] at h
    exact h.1.bind fun _ _ => ih h.2

theorem obeys_joinJump {n : Nat} {e : Stmt} : ∀ i ∈ joinJump n e, i.Obeys π := by
  unfold joinJump
  split
  · exact List.forall_mem_nil _
  · exact List.forall_mem_singleton.2 Instr.obeys_goto

theorem obeys_joinLabel {n : Nat} {t e : Stmt} : ∀ i ∈ joinLabel n t e, i.Obeys π := by
  unfold joinLabel
  split
  · exact List.forall_mem_nil _
  · exact List.forall_mem_singleton.2 Instr.obeys_label

/-- **Statements.** Where the names in a statement obey the policies, all instructions that come
from it do. -/
theorem Permitted.trace {s : Stmt} (hπ : π.AllowsTemps) (hρ : ρ.AllowsTemps)
    (h : s.Permitted π ρ sc) :
    (s.trace sc types).Ensures (fun _ => True) (ObeyLabels π ρ) := by
  -- A new label writes no instruction, so there is nothing to obey.
  have hlabel : ∀ s : Stmt,
      (Lower.freshLabel.labelled s).Ensures (fun _ => True) (ObeyLabels π ρ) :=
    fun s => .labelled (.update fun _ => trivial)
  -- On the permission, not on the statement: each rule has just the parts that the case needs.
  induction h with
  | varDecl => exact .pure trivial
  | block _ ih => exact traceAll_obeys ih
  | ifThen hc _ ih =>
    refine (hlabel _).bind fun n _ => .bind (.labelled (hc.lower hπ)) fun o ho => ?_
    refine .bind (.emit (Instr.obeys_branch ho)) fun _ _ =>
      .bind (.emit Instr.obeys_goto) fun _ _ => ?_
    exact .bind (.emit Instr.obeys_label) fun _ _ => ih.bind fun _ _ => .emit Instr.obeys_label
  | ifElse hc _ _ iht ihe =>
    refine (hlabel _).bind fun n _ => .bind (.labelled (hc.lower hπ)) fun o ho => ?_
    refine .bind (.emit (Instr.obeys_branch ho)) fun _ _ => ihe.bind fun _ _ => ?_
    refine .bind (.labelled (.emitAll obeys_joinJump)) fun _ _ => ?_
    exact .bind (.emit Instr.obeys_label) fun _ _ => iht.bind fun _ _ =>
      .labelled (.emitAll obeys_joinLabel)
  | whileLoop hc _ ih =>
    refine (hlabel _).bind fun n _ => .bind (.emit Instr.obeys_label) fun _ _ => ?_
    refine .bind (.labelled (hc.lower hπ)) fun o ho =>
      .bind (.emit (Instr.obeys_branch ho)) fun _ _ => ?_
    refine .bind (.emit Instr.obeys_goto) fun _ _ => .bind (.emit Instr.obeys_label) fun _ _ => ?_
    exact ih.bind fun _ _ => .bind (.emit Instr.obeys_goto) fun _ _ => .emit Instr.obeys_label
  | expr he => exact Stage.Ensures.labelled (he.lowerEffect hπ)
  | assign hx hv => exact Stage.Ensures.labelled (lowerAssign_obeys hπ hx hv)
  | arrayAssign hx hi hv => exact Stage.Ensures.labelled (lowerArrayAssign_obeys hπ hx hi hv)
  | ret =>
    refine Stage.Ensures.labelled (lowerReturn_obeys hρ fun e he => ?_)
    cases he
  | retValue hv =>
    refine Stage.Ensures.labelled (lowerReturn_obeys hρ fun e he => ?_)
    cases he
    exact hv

end

end Stmt

/-! ## Methods -/

namespace MethodDecl

variable {table : SymbolTable} {types : TypeMap} {cls : ClassSymbols} {d : MethodDecl} {m : Method}

/-- The code of the method is what its statements give, labelled with them here, and the final
return. -/
def TracesTo (table : SymbolTable) (types : TypeMap) (cls : ClassSymbols)
    (d : MethodDecl) (m : Method) (traced : List (Stmt × Instr)) : Prop :=
  ∃ method c c', cls.method? d.name.node = some method ∧
    (Stmt.traceAll (d.scope table cls method) types d.body).run c = ⟨.ok (), c', traced⟩ ∧
    m.code = traced.map Prod.snd ++ d.finalReturn

theorem LowersTo.traced (h : d.LowersTo table types cls m) :
    ∃ traced, d.TracesTo table types cls m traced := by
  obtain ⟨c, c', events, hrun⟩ := h
  obtain ⟨method, body, hmethod, hbody, hcode, -, -⟩ := lower_ok hrun
  rw [Stmt.LowersAll, ← Stmt.unlabelled_traceAll] at hbody
  rcases htrace : (Stmt.traceAll (d.scope table cls method) types d.body).run c with ⟨r, c₁, traced⟩
  rw [Stage.run, Stage.unlabelled, htrace] at hbody
  injection hbody with hr hc hout
  subst hr hc hout
  exact ⟨traced, method, c, _, hmethod, htrace, hcode⟩

/-- What holds of the names in the body holds of the code. -/
theorem TracesTo.obeys {π ρ : Policy} {traced : List (Stmt × Instr)}
    (h : d.TracesTo table types cls m traced) (hπ : π.AllowsTemps) (hρ : ρ.AllowsTemps)
    (hbody : ∀ method, cls.method? d.name.node = some method →
      ∀ s ∈ d.body, s.Permitted π ρ (d.scope table cls method)) :
    ∀ q ∈ traced, Stmt.ObeyLabels π ρ q := by
  obtain ⟨method, c, c', hmethod, hrun, -⟩ := h
  have hobeys : (Stmt.traceAll (d.scope table cls method) types d.body).Ensures (fun _ => True)
      (Stmt.ObeyLabels π ρ) :=
    Stmt.traceAll_obeys fun s hs => (hbody method hmethod s hs).trace hπ hρ
  have hwritten := (hobeys c).1
  rw [hrun] at hwritten
  exact hwritten

end MethodDecl

end MiniJava
