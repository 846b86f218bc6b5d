import MiniJava.Annotation.Note
import MiniJava.Symbols.Scope
import MiniJava.Syntax.Traversal

/-!
# Types of expressions

`Expr.annotate` finds the type of an expression from the types of its parts. A call into a class
that is not being compiled has no type of its own, nor has a bare class name; where the surroundings
expect a type, such an expression takes it (`Expr.expect`), and where they cannot, a call is
reported (`Expr.needType`).
-/

namespace MiniJava

namespace Expr

/-- Takes a type from the surroundings, parentheses from the inside out. -/
def adopt : Expr → Ty → Noted Unit
  | paren n e, ty => do
    e.adopt ty
    Noted.note (.adopted n.id ty)
  | e, ty => Noted.note (.adopted e.id ty)

/-- An expression where a type is expected: one without a type of its own takes it, another is left
to the caller to compare. -/
def expect (e : Expr) (ty : Ty) (found : Noted (Option Ty)) : Noted (Option Ty) := do
  match ← found with
  | some t => pure (some t)
  | none =>
    e.adopt ty
    pure none

/-- Reports a call, parenthesised or not, whose type would be needed to go on. -/
def needType (e : Expr) (position : String) : Noted Unit :=
  match e.strip with
  | call _ _ m _ => Noted.report (.undetermined m.node position) e.span
  | _ => pure ()

/-- Writes down the type that was found. -/
def settle (n : Node) : Option Ty → Noted (Option Ty)
  | some ty => do
    Noted.note (.typed n.id ty)
    pure (some ty)
  | none => pure none

/-- The type of a variable. A bare class name has none. -/
def varTy (sc : Scope) (name : String) (span : Span) : Noted (Option Ty) :=
  match sc.resolve name with
  | some b => do
    Noted.reportIf (b.isField && sc.isStatic) (.staticField name) span
    pure (some b.ty)
  | none => do
    Noted.reportIf (!sc.isClassName name) (.undeclaredVariable name) span
    pure none

/-! ## Calls -/

/-- The arguments of a call, each with what was found for it. -/
abbrev Args := List (Expr × Noted (Option Ty))

/-- Arguments from which nothing is wanted. -/
def freeArgs (args : Args) : Noted Unit :=
  Noted.all (args.map fun (_, found) => do
    let _ ← found)

/-- Arguments of a call with an unknown signature. One without a type of its own is an `int`. -/
def unknownArgs (args : Args) : Noted Unit :=
  Noted.all (args.map fun (e, found) => do
    let _ ← e.expect .int found)

/-- Arguments of a call of a declared method, against its parameters from an ordinal on. -/
def knownArgs (sc : Scope) (method : String) : Nat → Args → List Symbol → Noted Unit
  | i, (e, found) :: args, p :: ps => do
    match ← e.expect p.ty found with
    | some actual =>
      Noted.reportIf (!sc.assignable actual p.ty) (.argument i method p.ty actual) e.span
    | none => pure ()
    knownArgs sc method (i + 1) args ps
  | _, _, _ => pure ()

/-- A call, once its receiver has been looked at. Only methods of the class being compiled have a
known signature; a method that the class does not have may be inherited. -/
def callTy (sc : Scope) (span : Span) (receiver : Expr) (method : String) (args : Args) :
    Option Ty → Noted (Option Ty)
  | some (.cls name) =>
    if name == sc.cls.name then
      match sc.cls.method? method with
      | some sig => do
        if args.length == sig.params.length then
          knownArgs sc method 1 args sig.params
        else
          Noted.report (.arity method sig.params.length args.length) span
          freeArgs args
        pure (some sig.returnTy)
      | none => do
        unknownArgs args
        Noted.reportIf sc.cls.superName.isNone (.noMethod name method) span
        pure none
    else do
      unknownArgs args
      pure none
  | some other => do
    freeArgs args
    Noted.report (.callReceiver method other) receiver.span
    pure none
  | none => do
    receiver.needType "call receiver"
    unknownArgs args
    pure none

/-! ## Other rules -/

def notTy (span : Span) : Option Ty → Noted (Option Ty)
  | none | some .bool => pure (some .bool)
  | some other => do
    Noted.report (.notOperand other) span
    pure none

/-- Operands without a type of their own have the wanted one by now. -/
def binaryTy (span : Span) (op : BinOp) (left right : Option Ty) : Noted (Option Ty) := do
  let l := left.getD op.operandTy
  let r := right.getD op.operandTy
  if l == op.operandTy && r == op.operandTy then pure (some op.resultTy)
  else
    Noted.report (.binaryOperands op l r) span
    pure none

/-- A type other than `int`, if there is one, is a problem. -/
def wantInt (problem : Ty → Problem) (span : Span) : Option Ty → Noted Unit
  | some ty => Noted.reportIf (ty != .int) (problem ty) span
  | none => pure ()

def lengthTy (array : Expr) : Option Ty → Noted (Option Ty)
  | some ty => do
    Noted.reportIf (!ty.isArray) (.lengthOperand ty) array.span
    pure (some .int)
  | none => do
    array.needType "'length' operand"
    pure (some .int)

def indexTy (array : Expr) : Option Ty → Noted (Option Ty)
  | some (.array element) => pure (some element)
  | some other => do
    Noted.report (.indexedValue other) array.span
    pure none
  | none => do
    array.needType "indexed array"
    pure none

mutual

/-- The type of an expression, with the notes on it and on its parts. -/
def annotate (sc : Scope) : Expr → Noted (Option Ty)
  | int n _ => settle n (some .int)
  | bool n _ => settle n (some .bool)
  | var n x => do
    let ty ← varTy sc x n.span
    settle n ty
  | this n => do
    Noted.reportIf sc.isStatic .staticThis n.span
    settle n (some sc.thisTy)
  | not n e => do
    let found ← e.expect .bool (e.annotate sc)
    let ty ← notTy n.span found
    settle n ty
  | binary n op l r => do
    let left ← l.expect op.operandTy (l.annotate sc)
    let right ← r.expect op.operandTy (r.annotate sc)
    let ty ← binaryTy n.span op left right
    settle n ty
  | call n r m args => do
    let receiver ← r.annotate sc
    let ty ← callTy sc n.span r m.node (annotateEach sc args) receiver
    settle n ty
  | newObject n c => do
    Noted.reportIf (!sc.isClassName c.node) (.unknownClass c.node) c.span
    settle n (some (.cls c.node))
  | newArray n e => do
    let size ← e.expect .int (e.annotate sc)
    wantInt .arraySize e.span size
    settle n (some (.array .int))
  | length n a => do
    let array ← a.annotate sc
    let ty ← lengthTy a array
    settle n ty
  | index n a i => do
    let array ← a.annotate sc
    let place ← i.expect .int (i.annotate sc)
    wantInt .arrayIndex i.span place
    let ty ← indexTy a array
    settle n ty
  | paren n e => do
    let ty ← e.annotate sc
    settle n ty

/-- Each of the expressions with what is found for it. -/
def annotateEach (sc : Scope) : List Expr → Args
  | [] => []
  | e :: es => (e, e.annotate sc) :: annotateEach sc es

end

end Expr

end MiniJava
