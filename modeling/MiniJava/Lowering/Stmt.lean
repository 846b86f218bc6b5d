import MiniJava.Lowering.Expr
import MiniJava.Syntax.Traversal

/-!
# Lowering statements

Branches and loops become labels and jumps:

    if (c) goto then_N; <else>; goto endif_N; then_N: <then>; endif_N:
    while_cond_N: if (c) goto while_body_N; goto while_end_N; while_body_N: <body>;
      goto while_cond_N; while_end_N:

A branch that always returns needs no jump behind it, and `endif_N` is not written when both do.
-/

namespace MiniJava

open Ir

namespace Stmt

variable {κ : Type} [Counting κ]

def thenLabel (n : Nat) : String := s!"then_{n}"

def endifLabel (n : Nat) : String := s!"endif_{n}"

def condLabel (n : Nat) : String := s!"while_cond_{n}"

def bodyLabel (n : Nat) : String := s!"while_body_{n}"

def endLabel (n : Nat) : String := s!"while_end_{n}"

/-- What an assigned variable stands for. -/
def resolveTarget (sc : Scope) (x : Located String) : LowerIn κ Binding :=
  match sc.resolve x.node with
  | some b => pure b
  | none => Stage.fail (.unknownVariable x.node x.span)

/-- A field is written through `this`, anything else is stored in its register. -/
def lowerAssign (sc : Scope) (types : TypeMap) (x : Located String) (value : Expr) :
    LowerIn κ Unit := do
  let b ← resolveTarget sc x
  let value ← value.lower sc types true
  match b with
  | .field s => Stage.emit (.putField (.plain x.node s.ty) value)
  | b => Stage.emit (.assign (Expr.varOperand true x.node b) b.ty (.value value))

/-- The type of the items of an assigned array. -/
def itemTy (x : Located String) (b : Binding) : LowerIn κ Ty :=
  match b.ty with
  | .array element => pure element
  | _ => Stage.fail (.notIndexable x.node x.span)

/-- The array that an item is stored in. One in a field is read first. -/
def arrayOperand (x : Located String) (b : Binding) : LowerIn κ Operand :=
  match b with
  | .field s => Expr.readField x.node s.ty
  | b => pure (Expr.varOperand true x.node b)

def lowerArrayAssign (sc : Scope) (types : TypeMap) (x : Located String) (index value : Expr) :
    LowerIn κ Unit := do
  let b ← resolveTarget sc x
  let ty ← itemTy x b
  let base ← arrayOperand x b
  let index ← index.lower sc types true
  let value ← value.lower sc types true
  let dest ← Expr.itemOf base index ty x.span
  Stage.emit (.assign dest ty (.value value))

/-- A return carries the declared type of the method. -/
def lowerReturn (sc : Scope) (types : TypeMap) : Option Expr → LowerIn κ Unit
  | none => Stage.emit (.ret sc.method.returnTy none)
  | some value => do
    let operand ← value.lower sc types false
    Stage.emit (.ret sc.method.returnTy (some operand))

mutual

def lower (sc : Scope) (types : TypeMap) : Stmt → LowerIn κ Unit
  | varDecl .. => pure ()
  | block _ body => lowerAll sc types body
  | ifThen _ c t => do
    let n ← Lower.freshLabel
    let cond ← c.lower sc types true
    Stage.emit (.branch cond (thenLabel n))
    Stage.emit (.goto (endifLabel n))
    Stage.emit (.label (thenLabel n))
    t.lower sc types
    Stage.emit (.label (endifLabel n))
  | ifElse _ c t e => do
    let n ← Lower.freshLabel
    let cond ← c.lower sc types true
    Stage.emit (.branch cond (thenLabel n))
    e.lower sc types
    if !e.definitelyReturns then Stage.emit (.goto (endifLabel n))
    Stage.emit (.label (thenLabel n))
    t.lower sc types
    if !(e.definitelyReturns && t.definitelyReturns) then Stage.emit (.label (endifLabel n))
  | whileLoop _ c b => do
    let n ← Lower.freshLabel
    Stage.emit (.label (condLabel n))
    let cond ← c.lower sc types true
    Stage.emit (.branch cond (bodyLabel n))
    Stage.emit (.goto (endLabel n))
    Stage.emit (.label (bodyLabel n))
    b.lower sc types
    Stage.emit (.goto (condLabel n))
    Stage.emit (.label (endLabel n))
  | expr _ e => e.lowerEffect sc types
  | assign _ x v => lowerAssign sc types x v
  | arrayAssign _ x i v => lowerArrayAssign sc types x i v
  | ret _ v => lowerReturn sc types v

def lowerAll (sc : Scope) (types : TypeMap) : List Stmt → LowerIn κ Unit
  | [] => pure ()
  | s :: ss => do
    s.lower sc types
    lowerAll sc types ss

end

end Stmt

end MiniJava
