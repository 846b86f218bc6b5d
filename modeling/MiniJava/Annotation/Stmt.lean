import MiniJava.Annotation.Expr

/-!
# Statements

`Stmt.annotate` looks at the expressions of a statement and at how their types fit it. The value of
an assignment, of an element store or of a `return` is expected to have the type of its target.
-/

namespace MiniJava

namespace Stmt

def condition (sc : Scope) (keyword : String) (cond : Expr) : Noted Unit := do
  match ← cond.annotate sc with
  | some .bool => pure ()
  | some other => Noted.report (.condition keyword other) cond.span
  | none => Noted.report (.undeterminedCondition keyword) cond.span

/-- The declared type of an assigned variable. -/
def target (sc : Scope) (x : Located String) : Noted (Option Ty) :=
  match sc.resolve x.node with
  | some b => do
    Noted.reportIf (b.isField && sc.isStatic) (.staticFieldTarget x.node) x.span
    pure (some b.ty)
  | none => do
    Noted.report (.undeclaredTarget x.node) x.span
    pure none

/-- A value that goes where a type is expected; one that does not fit is a problem. -/
def fit (sc : Scope) (value : Expr) (expected : Ty) (fits : Ty → Bool) (problem : Ty → Problem)
    (span : Span) : Noted Unit := do
  match ← value.expect expected (value.annotate sc) with
  | some ty => Noted.reportIf (!fits ty) (problem ty) span
  | none => pure ()

def assignment (sc : Scope) (span : Span) (x : Located String) (value : Expr) : Noted Unit := do
  match ← target sc x with
  | some ty =>
    fit sc value ty (sc.assignable · ty) (.assignment · x.node ty) (span.merge value.span)
  | none => do
    let _ ← value.annotate sc

/-- The type of the elements of an assigned array. -/
def elementTy (x : Located String) : Option Ty → Noted (Option Ty)
  | some (.array element) => pure (some element)
  | some other => do
    Noted.report (.notArray x.node other) x.span
    pure none
  | none => pure none

def elementAssignment (sc : Scope) (x : Located String) (index value : Expr) : Noted Unit := do
  let array ← target sc x
  let place ← index.expect .int (index.annotate sc)
  Expr.wantInt .arrayIndex index.span place
  match ← elementTy x array with
  | some element => fit sc value element (· == element) (.elementStore · x.node element) value.span
  | none => do
    let _ ← value.annotate sc

def returned (sc : Scope) (span : Span) : Option Expr → Noted Unit
  | none => Noted.reportIf (sc.method.returnTy != .void) (.noReturnValue sc.method.returnTy) span
  | some value =>
    let ty := sc.method.returnTy
    if ty == .void then do
      let _ ← value.annotate sc
      Noted.report .voidReturn value.span
    else fit sc value ty (sc.assignable · ty) (.returnType ty) value.span

/-- An expression as a statement. A call without a type of its own yields nothing here. -/
def effect (sc : Scope) (e : Expr) : Noted Unit := do
  match ← e.annotate sc, e with
  | none, .call .. => e.adopt .void
  | _, _ => pure ()

mutual

def annotate (sc : Scope) : Stmt → Noted Unit
  | varDecl .. => pure ()
  | block _ body => annotateAll sc body
  | ifThen _ c t => do
    condition sc "if" c
    t.annotate sc
  | ifElse _ c t e => do
    condition sc "if" c
    t.annotate sc
    e.annotate sc
  | whileLoop _ c b => do
    condition sc "while" c
    b.annotate sc
  | expr _ e => effect sc e
  | assign s x v => assignment sc s x v
  | arrayAssign _ x i v => elementAssignment sc x i v
  | ret s v => returned sc s v

def annotateAll (sc : Scope) : List Stmt → Noted Unit
  | [] => pure ()
  | s :: ss => do
    s.annotate sc
    annotateAll sc ss

end

end Stmt

end MiniJava
