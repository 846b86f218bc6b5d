import MiniJava.Diagnostic
import MiniJava.Syntax.Basic

/-!
# Semantic problems

What the annotator can find wrong with a program, each cause with its wording. All are errors except
an unused import.
-/

namespace MiniJava

inductive Problem where
  | missingClass (name : String)
  | missingMethod (method className : String)
  | missingReturn (method : String) (ty : Ty)
  | undeclaredVariable (name : String)
  | undeclaredTarget (name : String)
  | staticField (name : String)
  | staticFieldTarget (name : String)
  | staticThis
  | notOperand (found : Ty)
  | binaryOperands (op : BinOp) (left right : Ty)
  | unknownClass (name : String)
  | arraySize (found : Ty)
  | arrayIndex (found : Ty)
  | lengthOperand (found : Ty)
  | indexedValue (found : Ty)
  | noMethod (className method : String)
  | arity (method : String) (expected found : Nat)
  | argument (ordinal : Nat) (method : String) (expected found : Ty)
  | callReceiver (method : String) (found : Ty)
  /-- A call of unknown type where its type is needed. -/
  | undetermined (method position : String)
  | condition (keyword : String) (found : Ty)
  | undeterminedCondition (keyword : String)
  | assignment (found : Ty) (target : String) (expected : Ty)
  | notArray (target : String) (found : Ty)
  | elementStore (found : Ty) (target : String) (expected : Ty)
  | noReturnValue (ty : Ty)
  | voidReturn
  | returnType (expected found : Ty)
  | unusedImport (path : String)
deriving DecidableEq

namespace Problem

def severity : Problem → Severity
  | unusedImport _ => .warning
  | _ => .error

def message : Problem → String
  | missingClass c => s!"class '{c}' is missing from the symbol table"
  | missingMethod m c => s!"method '{m}' of class '{c}' is missing from the symbol table"
  | missingReturn m ty => s!"method '{m}' must return a value of type {ty.text}"
  | undeclaredVariable x | undeclaredTarget x => s!"undeclared variable '{x}'"
  | staticField x => s!"field '{x}' cannot be referenced from a static method"
  | staticFieldTarget x => s!"field '{x}' cannot be assigned in a static method"
  | staticThis => "'this' cannot be used in a static method"
  | notOperand ty => s!"operator '!' expects boolean, found {ty.text}"
  | binaryOperands op l r =>
    s!"operator '{op.symbol}' expects {op.operandTy.text} operands, found {l.text} and {r.text}"
  | unknownClass c => s!"unknown class '{c}'"
  | arraySize ty => s!"array size must be int, found {ty.text}"
  | arrayIndex ty => s!"array index must be int, found {ty.text}"
  | lengthOperand ty => s!"'length' requires an array, found {ty.text}"
  | indexedValue ty => s!"cannot index into a value of type {ty.text}"
  | noMethod c m => s!"class '{c}' has no method '{m}'"
  | arity m expected found => s!"method '{m}' expects {expected} arguments, found {found}"
  | argument i m expected found =>
    s!"argument {i} of '{m}': expected {expected.text}, found {found.text}"
  | callReceiver m ty => s!"cannot call method '{m}' on a value of type {ty.text}"
  | undetermined m position => s!"type of '{m}' used as {position} could not be determined"
  | condition keyword ty => s!"{keyword} condition must be boolean, found {ty.text}"
  | undeterminedCondition keyword => s!"type of {keyword} condition could not be determined"
  | assignment found x expected =>
    s!"cannot assign {found.text} to '{x}' of type {expected.text}"
  | notArray x ty => s!"'{x}' is not an array, found {ty.text}"
  | elementStore found x expected =>
    s!"cannot store {found.text} into an element of '{x}' of type {expected.text}"
  | noReturnValue ty => s!"missing return value of type {ty.text}"
  | voidReturn => "a void method cannot return a value"
  | returnType expected found =>
    s!"return type mismatch: expected {expected.text}, found {found.text}"
  | unusedImport path => s!"unused import '{path}'"

def help? : Problem → Option String
  | missingReturn .. =>
    some "end the body with a `return`, or an `if`/`else` whose branches both return"
  | undeclaredVariable _ => some "declare it as a local, a parameter or a field"
  | unknownClass _ =>
    some "only the current class, its superclass and imported classes can be instantiated"
  | undetermined .. => some "assign the result to a variable of the intended type first"
  | condition .. => some "compare with `<` or combine with `&&`"
  | returnType expected _ => some s!"the method is declared to return {expected.text}"
  | _ => none

/-- The report of the problem at a place. -/
def diagnostic (p : Problem) (span : Span) : Diagnostic :=
  { severity := p.severity, message := p.message, span, help := p.help? }

end Problem

end MiniJava
