import MiniJava.Lowering.Program

/-!
# Lowerers

A `Lowerer` lowers classes one after the other. Besides its counters it keeps its place: the class
and the method that it is at, and whether it is inside a return statement. Names are looked up from
the place that it is at. A fault stops it on the spot, so the place of a class that failed is still
kept when the next class comes.

`ClassDecl.lower` does the same work with the place handed down as a `Scope`.
-/

namespace MiniJava

open Ir

structure Lowerer (κ : Type := Nat) [Counting κ] where
  counters : Counters κ := {}
  cls : Option ClassSymbols := none
  method : Option MethodSymbols := none
  /-- Set while the expression of a return statement is lowered. -/
  returning : Bool := false

namespace Lowerer

variable {κ : Type} [Counting κ]

/-- A lowerer that has lowered nothing, with counters set by hand. -/
def startingAt (c : Counters κ) : Lowerer κ := { counters := c }

/-! ## Looking around -/

def resolve (l : Lowerer κ) (name : String) : Option Binding :=
  match l.cls, l.method with
  | some cls, some method => cls.resolve method name
  | _, _ => none

def isClassName (l : Lowerer κ) (table : SymbolTable) (name : String) : Bool :=
  table.isImported name || l.cls.any fun c => c.name == name || c.superName == some name

/-- The object that the method runs on. -/
def this (l : Lowerer κ) : Operand := .this ((l.cls.map ClassSymbols.name).getD "")

/-- The declared return type of the method. -/
def returnTy (l : Lowerer κ) : Ty := (l.method.map MethodSymbols.returnTy).getD .void

/-- The parameter types of a method of the class being lowered. -/
def declaredParams (l : Lowerer κ) (target : Operand) (method : String) (arity : Nat) :
    Option (List Ty) :=
  match l.cls with
  | none => none
  | some cls =>
    if target.ty == .cls cls.name then
      match cls.method? method with
      | some sig => if sig.params.length == arity then some (sig.params.map (·.ty)) else none
      | none => none
    else none

def callInstr (l : Lowerer κ) (target : Operand) (method : String) (args : List Operand) (ty : Ty) :
    Instr :=
  let kind := match target with
    | .cls _ => CallKind.static
    | _ => CallKind.virtual
  .call kind target method args (l.declaredParams target method args.length) ty

/-! ## Work -/

/-- A stage of a lowerer that writes instructions. -/
abbrev Work (κ : Type) [Counting κ] := Stage (Lowerer κ) Instr LowerError

/-- Work that only counts and writes, wherever the lowerer is. -/
def anywhere {α : Type} (x : LowerIn κ α) : Work κ α := fun l =>
  let o := x.run l.counters
  ⟨o.result, { l with counters := o.state }, o.output⟩

/-- The lowerer itself. -/
def here {ω : Type} : Stage (Lowerer κ) ω LowerError (Lowerer κ) := Stage.update fun l => (l, l)

/-- Goes to another place. -/
def move {ω : Type} (f : Lowerer κ → Lowerer κ) : Stage (Lowerer κ) ω LowerError Unit :=
  Stage.update fun l => ((), f l)

/-- Work inside a return statement, which is left in any case. -/
def inReturn {α : Type} (x : Work κ α) : Work κ α := fun l =>
  let o := x.run { l with returning := true }
  { o with state := { o.state with returning := false } }

/-! ## Expressions -/

/-- Parameters are marked outside return statements. -/
def lowerVar (table : SymbolTable) (name : String) (span : Span) : Work κ Operand := do
  let l ← here
  match l.resolve name with
  | some (.field s) => anywhere (Expr.readField name s.ty)
  | some b => pure (Expr.varOperand (!l.returning) name b)
  | none =>
    if l.isClassName table name then pure (.cls name)
    else Stage.fail (.unknownVariable name span)

mutual

def lowerExpr (table : SymbolTable) (types : TypeMap) : Expr → Work κ Operand
  | .int _ v => pure (.literal v .int)
  | .bool _ v => pure (.literal (if v then 1 else 0) .bool)
  | .var n x => lowerVar table x n.span
  | .this _ => do
    let l ← here
    pure l.this
  | .not _ e => do
    let operand ← lowerExpr table types e
    anywhere (Lower.temp .bool (.not operand .bool))
  | .binary n op l r => do
    let ty ← anywhere (Lower.typeOf types n)
    let left ← lowerExpr table types l
    let right ← lowerExpr table types r
    anywhere (Lower.temp ty (.binary op left right ty))
  | .call n r m args => do
    let ty ← anywhere (Lower.typeOf types n)
    if ty == .void then Stage.fail (.voidValue m.node n.span)
    else
      let args ← lowerExprs table types args
      let target ← lowerExpr table types r
      let l ← here
      anywhere (Lower.temp ty (l.callInstr target m.node args ty))
  | .newObject _ c => do
    let object ← anywhere (Lower.temp (.cls c.node) (.newObject c.node))
    Stage.emit (.call .special object "<init>" [] (some []) .void)
    pure object
  | .newArray n e => do
    let ty ← anywhere (Lower.typeOf types n)
    let size ← lowerExpr table types e
    anywhere (Lower.temp ty (.newArray size ty))
  | .length _ a => do
    let array ← lowerExpr table types a
    anywhere (Lower.temp .int (.length array))
  | .index n a i => do
    let ty ← anywhere (Lower.typeOf types n)
    let base ← lowerExpr table types a
    let place ← lowerExpr table types i
    let item ← anywhere (Expr.itemOf base place ty n.span)
    anywhere (Lower.temp ty (.value item))
  | .paren _ e => lowerExpr table types e

def lowerExprs (table : SymbolTable) (types : TypeMap) : List Expr → Work κ (List Operand)
  | [] => pure []
  | e :: es => do
    let operand ← lowerExpr table types e
    let operands ← lowerExprs table types es
    pure (operand :: operands)

end

def lowerEffect (table : SymbolTable) (types : TypeMap) : Expr → Work κ Unit
  | .call n r m args => do
    let args ← lowerExprs table types args
    let target ← lowerExpr table types r
    let l ← here
    Stage.emit (l.callInstr target m.node args ((types.get? n.id).getD .void))
  | .paren _ e => lowerEffect table types e
  | e => do
    let _ ← lowerExpr table types e

/-! ## Statements -/

def resolveTarget (x : Located String) : Work κ Binding := do
  let l ← here
  match l.resolve x.node with
  | some b => pure b
  | none => Stage.fail (.unknownVariable x.node x.span)

/-- The operand of an assigned local or parameter. -/
def targetOperand (x : Located String) (b : Binding) : Work κ Operand := do
  let l ← here
  pure (Expr.varOperand (!l.returning) x.node b)

def lowerAssign (table : SymbolTable) (types : TypeMap) (x : Located String) (value : Expr) :
    Work κ Unit := do
  let b ← resolveTarget x
  let value ← lowerExpr table types value
  match b with
  | .field s => Stage.emit (.putField (.plain x.node s.ty) value)
  | b => do
    let dest ← targetOperand x b
    Stage.emit (.assign dest b.ty (.value value))

def arrayOperand (x : Located String) (b : Binding) : Work κ Operand :=
  match b with
  | .field s => anywhere (Expr.readField x.node s.ty)
  | b => targetOperand x b

def lowerArrayAssign (table : SymbolTable) (types : TypeMap) (x : Located String)
    (index value : Expr) : Work κ Unit := do
  let b ← resolveTarget x
  let ty ← anywhere (Stmt.itemTy x b)
  let base ← arrayOperand x b
  let index ← lowerExpr table types index
  let value ← lowerExpr table types value
  let dest ← anywhere (Expr.itemOf base index ty x.span)
  Stage.emit (.assign dest ty (.value value))

def lowerReturn (table : SymbolTable) (types : TypeMap) : Option Expr → Work κ Unit
  | none => do
    let l ← here
    Stage.emit (.ret l.returnTy none)
  | some value => do
    let l ← here
    let operand ← inReturn (lowerExpr table types value)
    Stage.emit (.ret l.returnTy (some operand))

mutual

def lowerStmt (table : SymbolTable) (types : TypeMap) : Stmt → Work κ Unit
  | .varDecl .. => pure ()
  | .block _ body => lowerStmts table types body
  | .ifThen _ c t => do
    let n ← anywhere Lower.freshLabel
    let cond ← lowerExpr table types c
    Stage.emit (.branch cond (Stmt.thenLabel n))
    Stage.emit (.goto (Stmt.endifLabel n))
    Stage.emit (.label (Stmt.thenLabel n))
    lowerStmt table types t
    Stage.emit (.label (Stmt.endifLabel n))
  | .ifElse _ c t e => do
    let n ← anywhere Lower.freshLabel
    let cond ← lowerExpr table types c
    Stage.emit (.branch cond (Stmt.thenLabel n))
    lowerStmt table types e
    if !e.definitelyReturns then Stage.emit (.goto (Stmt.endifLabel n))
    Stage.emit (.label (Stmt.thenLabel n))
    lowerStmt table types t
    if !(e.definitelyReturns && t.definitelyReturns) then Stage.emit (.label (Stmt.endifLabel n))
  | .whileLoop _ c b => do
    let n ← anywhere Lower.freshLabel
    Stage.emit (.label (Stmt.condLabel n))
    let cond ← lowerExpr table types c
    Stage.emit (.branch cond (Stmt.bodyLabel n))
    Stage.emit (.goto (Stmt.endLabel n))
    Stage.emit (.label (Stmt.bodyLabel n))
    lowerStmt table types b
    Stage.emit (.goto (Stmt.condLabel n))
    Stage.emit (.label (Stmt.endLabel n))
  | .expr _ e => lowerEffect table types e
  | .assign _ x v => lowerAssign table types x v
  | .arrayAssign _ x i v => lowerArrayAssign table types x i v
  | .ret _ v => lowerReturn table types v

def lowerStmts (table : SymbolTable) (types : TypeMap) : List Stmt → Work κ Unit
  | [] => pure ()
  | s :: ss => do
    lowerStmt table types s
    lowerStmts table types ss

end

/-! ## Methods and classes -/

/-- The lowerer is at the method until the method is done. -/
def lowerMethod (table : SymbolTable) (types : TypeMap) (cls : ClassSymbols) (d : MethodDecl) :
    Stage (Lowerer κ) Event LowerError Method :=
  match cls.method? d.name.node with
  | none => Stage.fail (.missingMethod cls.name d.name.node)
  | some method => do
    move fun l => { l with method := some method }
    let body ← (lowerStmts table types d.body).collect (·.filterMap Instr.call?)
    let code := body ++ d.finalReturn
    move fun l => { l with method := none }
    Stage.emit (.loweredMethod cls.name d.name.node code.length)
    pure
      { name := d.name.node
        className := cls.name
        access := if d.isPublic then .pub else .package
        isStatic := d.isStatic
        params := method.params
        locals := method.locals
        returnTy := d.returnTy.node
        code }

def lowerMethods (table : SymbolTable) (types : TypeMap) (cls : ClassSymbols) :
    List MethodDecl → Stage (Lowerer κ) Event LowerError (List Method)
  | [] => pure []
  | d :: ds => do
    let m ← lowerMethod table types cls d
    let ms ← lowerMethods table types cls ds
    pure (m :: ms)

/-- The lowerer is at the class until the class is done. -/
def lowerClass (table : SymbolTable) (types : TypeMap) (imports : List String) (d : ClassDecl) :
    Stage (Lowerer κ) Event LowerError ClassUnit :=
  match table.class? d.name.node with
  | none => Stage.fail (.missingClass d.name.node)
  | some cls => do
    move fun l => { l with cls := some cls }
    let methods ← lowerMethods table types cls d.methods
    let methods := methods ++ [Method.defaultConstructor d.name.node]
    move fun l => { l with cls := none }
    let l ← here
    Stage.emit (.loweredClass d.name.node methods.length (Counting.number l.counters.temps))
    pure
      { imports
        name := d.name.node
        superName := d.superName.map (·.node)
        fields := d.fields.map fun f => { name := f.name.node, ty := f.ty.node, access := .pub }
        methods }

/-- A class to lower, with the imports of its program. -/
structure Job where
  imports : List String := []
  decl : ClassDecl

/-- What has come of several classes, and the lowerer afterwards. -/
structure Session (κ : Type := Nat) [Counting κ] where
  results : List (Except LowerError ClassUnit)
  lowerer : Lowerer κ

/-- Lowers classes one after the other and goes on after a fault. -/
def lowerEach (table : SymbolTable) (types : TypeMap) : List Job → Lowerer κ → Session κ
  | [], l => ⟨[], l⟩
  | j :: js, l =>
    let o := (lowerClass table types j.imports j.decl).run l
    let rest := lowerEach table types js o.state
    ⟨o.result :: rest.results, rest.lowerer⟩

end Lowerer

end MiniJava
