import MiniJava.Lowering.Basic

/-!
# Lowering expressions

`Expr.lower` writes the instructions that compute an expression and gives the operand that holds its
value afterwards. Parts are computed from left to right, except that the arguments of a call come
before its receiver. Literals, locals, parameters, `this` and class names need no instruction.
-/

namespace MiniJava

open Ir

namespace Expr

variable {κ : Type} [Counting κ]

/-- The operand of a local or parameter. Parameters are marked unless the program returns them. -/
def varOperand (marked : Bool) (name : String) (b : Binding) : Operand :=
  match b with
  | .param ordinal s => .var name s.ty (if marked then some ordinal else none)
  | .loc s | .field s => .var name s.ty none

/-- Reads a field of `this` into a temporary. -/
def readField (name : String) (ty : Ty) : LowerIn κ Operand :=
  Lower.temp ty (.getField (.plain name ty) ty)

def lowerVar (sc : Scope) (marked : Bool) (name : String) (span : Span) : LowerIn κ Operand :=
  match sc.resolve name with
  | some (.field s) => readField name s.ty
  | some b => pure (varOperand marked name b)
  | none =>
    if sc.isClassName name then pure (.cls name)
    else Stage.fail (.unknownVariable name span)

/-- The parameter types of a method of the class being compiled. Other methods are not known. -/
def declaredParams (sc : Scope) (target : Operand) (method : String) (arity : Nat) :
    Option (List Ty) :=
  if target.ty == sc.thisTy then
    match sc.cls.method? method with
    | some sig => if sig.params.length == arity then some (sig.params.map (·.ty)) else none
    | none => none
  else none

/-- The call of a method, static on the name of a class and virtual on anything else. -/
def callInstr (sc : Scope) (target : Operand) (method : String) (args : List Operand) (ty : Ty) :
    Instr :=
  let kind := match target with
    | .cls _ => CallKind.static
    | _ => CallKind.virtual
  .call kind target method args (declaredParams sc target method args.length) ty

/-- An item of an array that is held by a variable. -/
def itemOf (base index : Operand) (ty : Ty) (span : Span) : LowerIn κ Operand :=
  match base with
  | .var name _ param => pure (.item name index ty param)
  | other => Stage.fail (.notIndexable other.text span)

mutual

/-- Computes an expression and gives the operand with its value. -/
def lower (sc : Scope) (types : TypeMap) (marked : Bool) : Expr → LowerIn κ Operand
  | int _ v => pure (.literal v .int)
  | bool _ v => pure (.literal (if v then 1 else 0) .bool)
  | var n x => lowerVar sc marked x n.span
  | this _ => pure (.this sc.cls.name)
  | not _ e => do
    let operand ← e.lower sc types marked
    Lower.temp .bool (.not operand .bool)
  | binary n op l r => do
    let ty ← Lower.typeOf types n
    let left ← l.lower sc types marked
    let right ← r.lower sc types marked
    Lower.temp ty (.binary op left right ty)
  | call n r m args => do
    let ty ← Lower.typeOf types n
    if ty == .void then Stage.fail (.voidValue m.node n.span)
    else
      let args ← lowerAll sc types marked args
      let target ← r.lower sc types marked
      Lower.temp ty (callInstr sc target m.node args ty)
  | newObject _ c => do
    let object ← Lower.temp (.cls c.node) (.newObject c.node)
    Stage.emit (.call .special object "<init>" [] (some []) .void)
    pure object
  | newArray n e => do
    let ty ← Lower.typeOf types n
    let size ← e.lower sc types marked
    Lower.temp ty (.newArray size ty)
  | length _ a => do
    let array ← a.lower sc types marked
    Lower.temp .int (.length array)
  | index n a i => do
    let ty ← Lower.typeOf types n
    let base ← a.lower sc types marked
    let place ← i.lower sc types marked
    let item ← itemOf base place ty n.span
    Lower.temp ty (.value item)
  | paren _ e => e.lower sc types marked

def lowerAll (sc : Scope) (types : TypeMap) (marked : Bool) : List Expr → LowerIn κ (List Operand)
  | [] => pure []
  | e :: es => do
    let operand ← e.lower sc types marked
    let operands ← lowerAll sc types marked es
    pure (operand :: operands)

end

/-- Computes an expression for its effects. The result of a call is not stored. -/
def lowerEffect (sc : Scope) (types : TypeMap) : Expr → LowerIn κ Unit
  | call n r m args => do
    let args ← lowerAll sc types true args
    let target ← r.lower sc types true
    Stage.emit (callInstr sc target m.node args ((types.get? n.id).getD .void))
  | paren _ e => e.lowerEffect sc types
  | e => do
    let _ ← e.lower sc types true

end Expr

end MiniJava
