import MiniJava.Annotation.TypeMap
import MiniJava.Counting
import MiniJava.Ir.Basic
import MiniJava.Stage
import MiniJava.Symbols.Scope

/-!
# Lowering

Method bodies become three-address code. The state of the stage are two counters, one for the
temporaries `tmp0`, `tmp1`, … and one for the labels of branches and loops; they run on through all
methods and classes of a program. What the stage writes are the instructions themselves. All of this
works in any numbers `κ`; where no others are named, they are natural numbers.

That the tree, the symbol table and the type map fit together is the work of the annotator. Where
they do not, lowering stops with a `LowerError`.
-/

namespace MiniJava

/-- The numbers of temporaries and of branches and loops handed out so far. -/
structure Counters (κ : Type := Nat) [Counting κ] where
  temps : κ := Counting.zero
  labels : κ := Counting.zero
deriving DecidableEq

inductive LowerError where
  /-- An expression whose value is needed has no type. -/
  | unresolved (span : Span)
  | voidValue (method : String) (span : Span)
  | unknownVariable (name : String) (span : Span)
  | notIndexable (name : String) (span : Span)
  | missingClass (name : String)
  | missingMethod (className method : String)
deriving DecidableEq

namespace LowerError

def span : LowerError → Span
  | unresolved s | voidValue _ s | unknownVariable _ s | notIndexable _ s => s
  | missingClass _ | missingMethod .. => Span.unknown

def message : LowerError → String
  | unresolved s => s!"expression at {s.text} has no resolved type"
  | voidValue m s => s!"call to '{m}' at {s.text} produces no value but is used as one"
  | unknownVariable x s => s!"'{x}' at {s.text} does not name a variable"
  | notIndexable x s => s!"'{x}' at {s.text} cannot be indexed"
  | missingClass c => s!"class '{c}' is missing from the symbol table"
  | missingMethod c m => s!"method '{m}' of class '{c}' is missing from the symbol table"

end LowerError

/-- A stage that writes instructions and counts in `κ`. -/
abbrev LowerIn (κ : Type) [Counting κ] := Stage (Counters κ) Ir.Instr LowerError

/-- A stage that writes instructions. -/
abbrev Lower := LowerIn Nat

namespace Lower

open Ir

variable {κ : Type} [Counting κ]

def tempName (k : Nat) : String := s!"tmp{k}"

/-- A new temporary. -/
def freshTemp : LowerIn κ String :=
  Stage.update fun c =>
    (tempName (Counting.number c.temps), { c with temps := Counting.next c.temps })

/-- A new number for the labels of a branch or loop. -/
def freshLabel : LowerIn κ Nat :=
  Stage.update fun c => (Counting.number c.labels, { c with labels := Counting.next c.labels })

/-- Stores what an instruction gives in a new temporary. -/
def temp (ty : Ty) (rhs : Instr) : LowerIn κ Operand := do
  let name ← freshTemp
  let dest := Operand.plain name ty
  Stage.emit (.assign dest ty rhs)
  pure dest

/-- The type of an expression whose value is needed. -/
def typeOf (types : TypeMap) (n : Node) : LowerIn κ Ty :=
  match types.get? n.id with
  | some ty => pure ty
  | none => Stage.fail (.unresolved n.span)

end Lower

end MiniJava
