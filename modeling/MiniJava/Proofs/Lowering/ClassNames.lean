import MiniJava.Proofs.Annotation.Recorded
import MiniJava.Proofs.Compilation

/-!
# Class names as values

A class name is meant to stand for a class only as the target of a static call. The annotator gives
it no type, so that it can be a receiver; but where a type is expected, something without a type
takes the expected one, and so a class name passes for a value: `x = io;` is accepted for a variable
`x` of any type. Its operand is a class, for which nothing is ever put on the stack.

**Theorem** (`Program.strayClass_iff`). In the code of an accepted program, a class is an operand of
an instruction other than the target of a static call exactly if in the program the name of the
class is assigned, returned, passed, or used as an operand, index or size.
-/

namespace MiniJava

open Ir Lower

/-! ## Classes in code -/

namespace Ir

/-- The class that the operand names. The index of an item counts. -/
def Operand.classes : Operand → List String
  | .cls c => [c]
  | .item _ i _ _ => i.classes
  | .literal .. | .var .. => []

/-- The classes among the operands, the target of a static call apart. -/
def Instr.strayClasses : Instr → List String
  | .assign dest _ rhs => dest.classes ++ rhs.strayClasses
  | .value o | .not o _ | .newArray o _ | .length o | .getField o _ | .branch o _
  | .ret _ (some o) => o.classes
  | .binary _ l r _ | .putField l r => l.classes ++ r.classes
  | .call .static _ _ args _ _ => args.flatMap Operand.classes
  | .call _ target _ args _ _ => target.classes ++ args.flatMap Operand.classes
  | .newObject _ | .goto _ | .label _ | .ret _ none => []

/-- In the code the class is used as a value. -/
def UsesClass (cl : String) (code : List Instr) : Prop := ∃ i ∈ code, cl ∈ i.strayClasses

variable {cl : String} {a b : List Instr} {i : Instr}

@[simp] theorem usesClass_nil : ¬UsesClass cl [] := nofun

@[simp] theorem usesClass_cons : UsesClass cl (i :: a) ↔ cl ∈ i.strayClasses ∨ UsesClass cl a := by
  simp [UsesClass]

@[simp] theorem usesClass_append : UsesClass cl (a ++ b) ↔ UsesClass cl a ∨ UsesClass cl b := by
  simp [UsesClass, or_and_right, exists_or]

end Ir

/-! ## Classes in programs -/

namespace Expr

/-- The parts of an expression that are operands of its instruction. The receiver of a call is not
among them, as it may be a class, and neither is the array of an item, which is held by a
variable. -/
def operandParts : Expr → List Expr
  | not _ e | newArray _ e | length _ e => [e]
  | binary _ _ l r => [l, r]
  | call _ _ _ args => args
  | index _ _ i => [i]
  | int .. | bool .. | var .. | this .. | newObject .. | paren .. => []

/-- All operands in an expression. -/
def operands (e : Expr) : List Expr := e.subtree.flatMap operandParts

/-- One of the expressions is the name of the class. -/
def NamesClass (sc : Scope) (cl : String) (es : List Expr) : Prop :=
  ∃ e ∈ es, e.className? sc = some cl

variable {sc : Scope} {cl : String} {e : Expr} {es es' : List Expr}

@[simp] theorem namesClass_nil : ¬NamesClass sc cl [] := nofun

@[simp] theorem namesClass_cons :
    NamesClass sc cl (e :: es) ↔ e.className? sc = some cl ∨ NamesClass sc cl es := by
  simp [NamesClass]

@[simp] theorem namesClass_append :
    NamesClass sc cl (es ++ es') ↔ NamesClass sc cl es ∨ NamesClass sc cl es' := by
  simp [NamesClass, or_and_right, exists_or]

theorem operands_eq (e : Expr) : e.operands = e.operandParts ++ e.children.flatMap operands := by
  rw [operands, subtree_eq_cons, List.flatMap_cons, List.flatMap_assoc]
  rfl

end Expr

namespace Stmt

mutual

/-- All operands in a statement. Conditions are not among them: they have a type of their own, so
they are never the name of a class. -/
def operands : Stmt → List Expr
  | varDecl .. => []
  | block _ body => operandsAll body
  | ifThen _ c t => c.operands ++ t.operands
  | ifElse _ c t e => c.operands ++ t.operands ++ e.operands
  | whileLoop _ c b => c.operands ++ b.operands
  | expr _ e => e.operands
  | assign _ _ v => v :: v.operands
  | arrayAssign _ _ i v => i :: v :: (i.operands ++ v.operands)
  | ret _ none => []
  | ret _ (some v) => v :: v.operands

def operandsAll : List Stmt → List Expr
  | [] => []
  | s :: ss => s.operands ++ operandsAll ss

end

end Stmt

/-- Somewhere in the program the name of the class is used as a value. -/
def Program.UsesClass (p : Program) (table : SymbolTable) (cl : String) : Prop :=
  ∃ d ∈ p.classes, ∃ cls, table.class? d.name.node = some cls ∧
    ∃ md ∈ d.methods, ∃ method, cls.method? md.name.node = some method ∧
      Expr.NamesClass (md.scope table cls method) cl (Stmt.operandsAll md.body)

/-! ## Code of expressions -/

theorem Lower.Kept.usesClass {cl : String} {ty : Ty} {rhs : Instr} {c c' : Counters} {o : Operand}
    {code : List Instr} (h : Kept ty rhs c o c' code) :
    UsesClass cl code ↔ cl ∈ rhs.strayClasses := by
  rw [h.written]
  simp [Instr.strayClasses, Operand.classes, Operand.plain]

namespace Expr

variable {sc : Scope} {types : TypeMap} {mk : Bool} {cl : String} {e : Expr} {c c' : Counters}
  {o : Operand} {code : List Instr}

/-- The operand is a class exactly if the expression is its name. -/
theorem Lowers.mem_classes (h : Lowers sc types mk e c o c' code) :
    cl ∈ o.classes ↔ e.className? sc = some cl := by
  cases hcl : e.className? sc with
  | some cl' =>
    obtain ⟨rfl, -⟩ := h.of_className hcl
    simp [Operand.classes, eq_comm]
  | none =>
    rcases h.operand with ⟨x, ty, p, rfl⟩ | ⟨v, ty, rfl, -⟩ | ⟨cl', hcl', -⟩
    · simp [Operand.classes]
    · simp [Operand.classes]
    · simp [hcl] at hcl'

theorem LowersAll.mem_classes {es : List Expr} {os : List Operand}
    (h : LowersAll sc types mk es c os c' code) :
    cl ∈ os.flatMap Operand.classes ↔ NamesClass sc cl es := by
  induction es generalizing c os code with
  | nil =>
    obtain ⟨rfl, -⟩ := lowersAll_nil.1 h
    simp
  | cons e es ih =>
    obtain ⟨a, c₁, k₁, as, k₂, he, hrest, rfl, rfl⟩ := lowersAll_cons.1 h
    rw [List.flatMap_cons, List.mem_append, he.mem_classes, ih hrest, namesClass_cons]

/-- Of a call only the arguments are used as values. -/
theorem Lowers.strayClasses_call {r : Expr} {t : Operand} (h : Lowers sc types mk r c t c' code)
    (m : String) (as : List Operand) (ty : Ty) :
    (callInstr sc t m as ty).strayClasses = as.flatMap Operand.classes := by
  rcases h.operand with ⟨x, ty', p, rfl⟩ | ⟨v, ty', rfl, -⟩ | ⟨cl', -, rfl⟩ <;> rfl

/-- The code of the expression uses the class as a value exactly if an operand is its name. -/
def Traced (sc : Scope) (types : TypeMap) (mk : Bool) (cl : String) (e : Expr) : Prop :=
  ∀ {c c' : Counters} {o : Operand} {code : List Instr}, Lowers sc types mk e c o c' code →
    (UsesClass cl code ↔ NamesClass sc cl e.operands)

theorem LowersAll.usesClass {es : List Expr} {os : List Operand}
    (hes : ∀ e ∈ es, e.Traced sc types mk cl) (h : LowersAll sc types mk es c os c' code) :
    UsesClass cl code ↔ NamesClass sc cl (es.flatMap operands) := by
  induction es generalizing c os code with
  | nil =>
    obtain ⟨-, -, rfl⟩ := lowersAll_nil.1 h
    simp
  | cons e es ih =>
    obtain ⟨a, c₁, k₁, as, k₂, he, hrest, rfl, rfl⟩ := lowersAll_cons.1 h
    rw [List.forall_mem_cons] at hes
    rw [usesClass_append, List.flatMap_cons, namesClass_append, hes.1 he, ih hes.2 hrest]

/-- **Class names in expressions.** -/
theorem Lowers.usesClass : e.Traced sc types mk cl := by
  -- Each part adds the classes that its code uses, and the instruction at the end those among its
  -- operands. A receiver is no operand of its own here: a class may stand there.
  induction e using Expr.induction with
  | int n v =>
    intro c c' o code h
    obtain ⟨-, -, rfl⟩ := lowers_int.1 h
    simp [operands, subtree, operandParts]
  | bool n v =>
    intro c c' o code h
    obtain ⟨-, -, rfl⟩ := lowers_bool.1 h
    simp [operands, subtree, operandParts]
  | this n =>
    intro c c' o code h
    obtain ⟨-, -, rfl⟩ := lowers_this.1 h
    simp [operands, subtree, operandParts]
  | var n x =>
    intro c c' o code h
    rcases lowers_var.1 h with ⟨s, -, hk⟩ | ⟨b, -, -, -, -, rfl⟩ | ⟨-, -, -, -, rfl⟩
    · simp [operands, subtree, operandParts, hk.usesClass, Instr.strayClasses, Operand.classes,
        Operand.plain]
    · simp [operands, subtree, operandParts]
    · simp [operands, subtree, operandParts]
  | not n e ih =>
    intro c c' o code h
    obtain ⟨a, c₁, k₁, k₂, he, hk, rfl⟩ := lowers_not.1 h
    rw [usesClass_append, ih he, hk.usesClass, Instr.strayClasses, he.mem_classes,
      operands_eq (not n e)]
    simp [operandParts, children, or_comm]
  | binary n op l r ihl ihr =>
    intro c c' o code h
    obtain ⟨ty, a, c₁, k₁, b, c₂, k₂, k₃, -, hl, hr, hk, rfl⟩ := lowers_binary.1 h
    rw [usesClass_append, usesClass_append, ihl hl, ihr hr, hk.usesClass, Instr.strayClasses,
      List.mem_append, hl.mem_classes, hr.mem_classes, operands_eq (binary n op l r)]
    simp only [operandParts, children, List.flatMap_cons, List.flatMap_nil, namesClass_append,
      namesClass_cons, namesClass_nil]
    tauto
  | call n r m args ihr ihargs =>
    intro c c' o code h
    obtain ⟨ty, as, c₁, k₁, t, c₂, k₂, k₃, -, -, hargs, hr, hk, rfl⟩ := lowers_call.1 h
    rw [usesClass_append, usesClass_append, hargs.usesClass ihargs, ihr hr, hk.usesClass,
      hr.strayClasses_call, hargs.mem_classes, operands_eq (call n r m args)]
    simp only [operandParts, children, List.flatMap_cons, namesClass_append]
    tauto
  | newObject n cl' =>
    intro c c' o code h
    obtain ⟨k, hk, rfl⟩ := lowers_newObject.1 h
    rw [usesClass_append, hk.usesClass, hk.operand]
    simp [operands, subtree, operandParts, Instr.strayClasses, Operand.classes, Operand.plain]
  | newArray n e ih =>
    intro c c' o code h
    obtain ⟨ty, a, c₁, k₁, k₂, -, he, hk, rfl⟩ := lowers_newArray.1 h
    rw [usesClass_append, ih he, hk.usesClass, Instr.strayClasses, he.mem_classes,
      operands_eq (newArray n e)]
    simp [operandParts, children, or_comm]
  | length n a ih =>
    intro c c' o code h
    obtain ⟨b, c₁, k₁, k₂, ha, hk, rfl⟩ := lowers_length.1 h
    rw [usesClass_append, ih ha, hk.usesClass, Instr.strayClasses, ha.mem_classes,
      operands_eq (length n a)]
    simp [operandParts, children, or_comm]
  | index n a i iha ihi =>
    intro c c' o code h
    obtain ⟨ty, x, t, p, c₁, k₁, j, c₂, k₂, k₃, -, ha, hi, hk, rfl⟩ := lowers_index.1 h
    rw [usesClass_append, usesClass_append, iha ha, ihi hi, hk.usesClass, Instr.strayClasses,
      Operand.classes, hi.mem_classes, operands_eq (index n a i)]
    simp only [operandParts, children, List.flatMap_cons, List.flatMap_nil, namesClass_append,
      namesClass_cons, namesClass_nil]
    tauto
  | paren n e ih =>
    intro c c' o code h
    rw [ih (lowers_paren.1 h), operands_eq (paren n e)]
    simp [operandParts, children]

theorem LowersEffect.usesClass (h : LowersEffect sc types e c c' code) :
    UsesClass cl code ↔ NamesClass sc cl e.operands := by
  induction e using Expr.induction with
  | paren n e ih =>
    rw [ih (lowersEffect_paren.1 h), operands_eq (paren n e)]
    simp [operandParts, children]
  | call n r m args =>
    obtain ⟨as, c₁, k₁, t, k₂, hargs, hr, rfl⟩ := lowersEffect_call.1 h
    rw [usesClass_append, usesClass_append, usesClass_cons,
      hargs.usesClass fun _ _ => Lowers.usesClass, Lowers.usesClass hr, hr.strayClasses_call,
      hargs.mem_classes, operands_eq (call n r m args)]
    simp only [operandParts, children, List.flatMap_cons, namesClass_append, usesClass_nil]
    tauto
  | _ =>
    obtain ⟨o, hlow⟩ := (lowersEffect_plain (by simp [IsPlain])).1 h
    exact Lowers.usesClass hlow

/-- The name of a class has no type of its own. -/
theorem value_of_className (h : e.className? sc = some cl) : (e.annotate sc).value = none := by
  rw [← value_strip]
  unfold className? at h
  split at h
  · next n x hx =>
    simp only [Bool.and_eq_true, Option.isNone_iff_eq_none, Option.ite_none_right_eq_some] at h
    simp [hx, annotate, varTy, h.1.1]
  · cases h

end Expr

/-! ## Code of statements -/

namespace Stmt

open MiniJava.Expr

variable {sc : Scope} {types : TypeMap} {cl : String} {s : Stmt} {c c' : Counters}
  {code : List Instr}

theorem LowersAll.usesClass {ss : List Stmt}
    (hss : ∀ s ∈ ss, ∀ {c c' : Counters} {code : List Instr}, Lowers sc types s c c' code →
      (UsesClass cl code ↔ NamesClass sc cl s.operands))
    (h : LowersAll sc types ss c c' code) :
    UsesClass cl code ↔ NamesClass sc cl (operandsAll ss) := by
  induction ss generalizing c code with
  | nil =>
    obtain ⟨-, rfl⟩ := lowersAll_nil.1 h
    simp [operandsAll]
  | cons s ss ih =>
    obtain ⟨c₁, k₁, k₂, hs, hrest, rfl⟩ := lowersAll_cons.1 h
    rw [List.forall_mem_cons] at hss
    rw [usesClass_append, operandsAll, namesClass_append, hss.1 hs, ih hss.2 hrest]

@[simp] theorem not_usesClass_joinJump (n : Nat) (e : Stmt) : ¬UsesClass cl (joinJump n e) := by
  unfold joinJump
  split <;> simp [Instr.strayClasses]

@[simp] theorem not_usesClass_joinLabel (n : Nat) (t e : Stmt) :
    ¬UsesClass cl (joinLabel n t e) := by
  unfold joinLabel
  split <;> simp [Instr.strayClasses]

/-- A condition is not the name of a class. -/
theorem not_mem_classes_of_condition {keyword : String} {cond : Expr} {o : Operand}
    (h : Upheld types (condition sc keyword cond).notes)
    (hl : Expr.Lowers sc types true cond c o c' code) : cl ∉ o.classes := by
  rw [hl.mem_classes]
  intro hcl
  rw [condition, Noted.notes_bind, upheld_append, value_of_className hcl] at h
  simp [Problem.severity] at h

/-- **Class names in statements.** -/
theorem Lowers.usesClass (hnotes : Upheld types (s.annotate sc).notes)
    (h : Lowers sc types s c c' code) : UsesClass cl code ↔ NamesClass sc cl s.operands := by
  induction s using Stmt.induction generalizing c c' code with
  | varDecl sp d =>
    obtain ⟨-, rfl⟩ := lowers_varDecl.1 h
    simp [operands]
  | block sp body ih =>
    rw [annotate] at hnotes
    rw [operands]
    exact (lowers_block.1 h).usesClass fun s hs => ih s hs (upheld_of_annotateAll hnotes s hs)
  | ifThen sp cond t ih =>
    obtain ⟨o, c₁, k₁, k₂, hcond, ht, rfl⟩ := lowers_ifThen.1 h
    rw [annotate, Noted.notes_bind, upheld_append] at hnotes
    -- A condition has to be a truth value, so it is no class; its instruction adds nothing.
    have ho : cl ∉ o.classes := not_mem_classes_of_condition hnotes.1 hcond
    simp [operands, Instr.strayClasses, Expr.Lowers.usesClass hcond, ih hnotes.2 ht, ho]
  | ifElse sp cond t e iht ihe =>
    obtain ⟨o, c₁, k₁, c₂, k₂, k₃, hcond, he, ht, rfl⟩ := lowers_ifElse.1 h
    simp only [annotate, Noted.notes_bind, upheld_append] at hnotes
    have ho : cl ∉ o.classes := not_mem_classes_of_condition hnotes.1 hcond
    simp [operands, Instr.strayClasses, Expr.Lowers.usesClass hcond, iht hnotes.2.1 ht,
      ihe hnotes.2.2 he, ho, or_comm]
  | whileLoop sp cond b ih =>
    obtain ⟨o, c₁, k₁, k₂, hcond, hb, rfl⟩ := lowers_whileLoop.1 h
    rw [annotate, Noted.notes_bind, upheld_append] at hnotes
    have ho : cl ∉ o.classes := not_mem_classes_of_condition hnotes.1 hcond
    simp [operands, Instr.strayClasses, Expr.Lowers.usesClass hcond, ih hnotes.2 hb, ho]
  | expr sp e =>
    rw [operands]
    exact (lowers_expr.1 h).usesClass
  | assign sp x v =>
    obtain ⟨b, o, k, -, hv, hstore⟩ := lowers_assign.1 h
    rcases hstore with ⟨s, rfl, rfl⟩ | ⟨-, rfl⟩
    · simp [operands, Instr.strayClasses, Operand.classes, Operand.plain,
        Expr.Lowers.usesClass hv, hv.mem_classes, or_comm]
    · have hdest : (varOperand true x.node b).classes = [] := by cases b <;> rfl
      simp [operands, Instr.strayClasses, hdest, Expr.Lowers.usesClass hv, hv.mem_classes, or_comm]
  | arrayAssign sp x i v =>
    obtain ⟨b, ty, y, t, p, c₁, k₁, j, c₂, k₂, o, k₃, -, -, hbase, hi, hv, rfl⟩ :=
      lowers_arrayAssign.1 h
    -- The array is a declared variable, which names no class.
    have hbase' : ¬UsesClass cl k₁ := by
      rw [Expr.Lowers.usesClass hbase]
      simp [Expr.operands, subtree, operandParts]
    rw [usesClass_append, usesClass_append, usesClass_append, usesClass_cons,
      Expr.Lowers.usesClass hi, Expr.Lowers.usesClass hv, operands]
    simp only [Instr.strayClasses, Operand.classes, List.mem_append, hi.mem_classes,
      hv.mem_classes, namesClass_cons, namesClass_append, usesClass_nil]
    tauto
  | ret sp v =>
    cases v with
    | none =>
      obtain ⟨-, rfl⟩ := lowers_ret_none.1 h
      simp [operands, Instr.strayClasses]
    | some v =>
      obtain ⟨o, k, hv, rfl⟩ := lowers_ret_some.1 h
      simp [operands, Instr.strayClasses, Expr.Lowers.usesClass hv, hv.mem_classes, or_comm]

end Stmt

/-! ## Programs -/

theorem MethodDecl.LowersTo.usesClass {table : SymbolTable} {types : TypeMap} {cls : ClassSymbols}
    {method : MethodSymbols} {d : MethodDecl} {m : Method} {cl : String}
    (h : d.LowersTo table types cls m) (hmethod : cls.method? d.name.node = some method)
    (hbody : Upheld types (Stmt.annotateAll (d.scope table cls method) d.body).notes) :
    UsesClass cl m.code ↔
      Expr.NamesClass (d.scope table cls method) cl (Stmt.operandsAll d.body) := by
  obtain ⟨c, c', events, hrun⟩ := h
  obtain ⟨method', body, hmethod', hlow, hcode, -, -⟩ := lower_ok hrun
  obtain rfl : method = method' := Option.some.inj (hmethod.symm.trans hmethod')
  have hfinal : ¬UsesClass cl d.finalReturn := by
    unfold finalReturn
    split <;> simp [Instr.strayClasses]
  rw [hcode, usesClass_append, or_iff_left hfinal]
  exact hlow.usesClass fun s hs => Stmt.Lowers.usesClass (Stmt.upheld_of_annotateAll hbody s hs)

theorem Ir.not_usesClass_defaultConstructor {cl : String} (className : String) :
    ¬UsesClass cl (Method.defaultConstructor className).code := by
  simp [Method.defaultConstructor, Instr.strayClasses, Operand.classes, Operand.this, Operand.plain]

namespace Program

variable {p : Program} {table : SymbolTable} {a : Annotation} {c : Counters}
  {units : List ClassUnit}

/-- **Where class names are values.** If a program passes the check and is lowered, then a class is
an operand of some instruction other than as the target of a static call exactly if its name is used
as a value somewhere in the program. -/
theorem strayClass_iff (h : p.checked table = .ok a)
    (hlow : ((p.lower table a.types).run c).result = .ok units) (cl : String) :
    (∃ u ∈ units, ∃ m ∈ u.methods, ∃ i ∈ m.code, cl ∈ i.strayClasses) ↔ p.UsesClass table cl := by
  have hcheck := (checked_ok_iff.1 h).2
  obtain ⟨c', events, hrun⟩ := Stage.run_of_result hlow
  constructor
  · rintro ⟨u, hu, m, hm, huses⟩
    obtain ⟨d, hd, cls, hcls, -, hmethods⟩ := lower_methods hrun hu
    rcases hmethods m hm with rfl | ⟨md, hmd, method, hmethod, hlowers⟩
    · exact absurd huses (not_usesClass_defaultConstructor u.name)
    · have hbody := upheld_body hcheck hd hcls hmd hmethod
      exact ⟨d, hd, cls, hcls, md, hmd, method, hmethod, (hlowers.usesClass hmethod hbody).1 huses⟩
  · rintro ⟨d, hd, cls, hcls, md, hmd, method, hmethod, hnames⟩
    obtain ⟨u, hu, cls', ms, hcls', -, hmethods, hto, -⟩ := (lower_ok hrun).1 d hd
    obtain rfl : cls = cls' := Option.some.inj (hcls.symm.trans hcls')
    obtain ⟨m, hm, hlowers⟩ := hto md hmd
    have hbody := upheld_body hcheck hd hcls hmd hmethod
    refine ⟨u, hu, m, ?_, (hlowers.usesClass hmethod hbody).2 hnames⟩
    rw [hmethods]
    exact List.mem_append_left _ hm

end Program

/-! A class that keeps the name of a class in a variable: `x = io;`. -/

namespace Desk

def take : MethodDecl where
  name := { node := "take" }
  returnTy := { node := .int }
  body :=
    [.assign .unknown { node := "x" } (.var { id := 0 } "io"),
      .ret .unknown (some (.var { id := 1 } "x"))]

def takeSymbols : MethodSymbols where
  name := "take"
  returnTy := .int
  locals := [⟨"x", .int⟩]

def symbols : ClassSymbols where
  name := "Desk"
  methods := [takeSymbols]

def table : SymbolTable where
  imports := ["io"]
  classes := [symbols]

def decl : ClassDecl where
  name := { node := "Desk" }
  methods := [take]

def program : Program where
  imports := [{ node := "io" }]
  classes := [decl]

theorem io_is_value : ∃ a units, program.checked table = .ok a ∧
    ((program.lower table a.types).run {}).result = .ok units ∧
    ∃ u ∈ units, ∃ m ∈ u.methods, ∃ i ∈ m.code, "io" ∈ i.strayClasses := by
  have hchecked : program.checked table = .ok (program.annotate table) :=
    Program.checked_ok_iff.2 ⟨Program.uniqueIds_iff_nodup.2 (by decide), rfl⟩
  have hlow : ∃ units, ((program.lower table (program.annotate table).types).run {}).result =
      .ok units := ⟨_, rfl⟩
  have huses : program.UsesClass table "io" :=
    ⟨decl, .head _, symbols, rfl, take, .head _, takeSymbols, rfl, _, .head _, rfl⟩
  obtain ⟨units, hunits⟩ := hlow
  exact ⟨_, units, hchecked, hunits, (Program.strayClass_iff hchecked hunits "io").2 huses⟩

end Desk

end MiniJava
