import MiniJava.Proofs.Stage
import MiniJava.Syntax.Basic

/-!
# Values and the world

What the three languages of the compiler have in common when they run. A value is an integer or a
reference; booleans are the integers one and zero. Objects, arrays and other methods are out of
sight: whatever a program does with them is an operation that it asks a `World` to perform, with the
values that the operation needs, and the world answers with a value or a fault and with a new heap.

A computation is a stage (`Run`) that has the heap as its state and writes down the requests in the
order in which they are made. Nothing is assumed of a world, so two computations with the same
outcome in every world make the same requests.
-/

namespace MiniJava

/-- A value at run time, with references of type `R`. -/
inductive Value (R : Type) where
  | int (n : Int32)
  | ref (r : R)
deriving DecidableEq

/-- The integer that stands for a boolean. -/
def Value.ofBool {R : Type} (b : Bool) : Value R := .int (if b then 1 else 0)

/-- What is outside of a method: it performs the operations of type `O`. -/
structure World (O : Type) where
  Ref : Type
  Heap : Type
  Fault : Type
  perform : O → List (Value Ref) → Heap → Except Fault (Value Ref) × Heap

/-- Why a computation stops early. -/
inductive Halt (F : Type) where
  /-- An operation failed. -/
  | fault (f : F)
  | divisionByZero
  /-- The computation has no meaning, such as the sum of two references. -/
  | stuck

/-- An operation and the values it is asked for with. -/
structure Request (O R : Type) where
  op : O
  operands : List (Value R)
deriving DecidableEq

/-- The values of the variables. A variable that was never assigned has none. -/
abbrev Env {O : Type} (W : World O) : Type := String → Option (Value W.Ref)

/-- A computation in a world. -/
abbrev Run {O : Type} (W : World O) : Type → Type :=
  Stage W.Heap (Request O W.Ref) (Halt W.Fault)

section

variable {O : Type} (W : World O)

/-- Asks the world for an operation. -/
def World.request (op : O) (operands : List (Value W.Ref)) : Run W (Value W.Ref) := fun h =>
  match W.perform op operands h with
  | (.ok v, h') => ⟨.ok v, h', [⟨op, operands⟩]⟩
  | (.error f, h') => ⟨.error (.fault f), h', [⟨op, operands⟩]⟩

/-- The value of a variable. -/
def Env.read {W : World O} (ρ : Env W) (x : String) : Run W (Value W.Ref) :=
  match ρ x with
  | some v => pure v
  | none => Stage.fail .stuck

def Env.set {W : World O} (ρ : Env W) (x : String) (v : Value W.Ref) : Env W :=
  fun y => if y = x then some v else ρ y

/-! ## Operators

Integers have 32 bits and wrap around. Both operands of `&&` are computed, and it works on their
bits, as `!` does on the last bit; on ones and zeros these are the boolean operators. -/

/-- The value of an operator on two values. -/
def BinOp.apply : BinOp → Value W.Ref → Value W.Ref → Run W (Value W.Ref)
  | .add, .int a, .int b => pure (.int (a + b))
  | .sub, .int a, .int b => pure (.int (a - b))
  | .mul, .int a, .int b => pure (.int (a * b))
  | .div, .int a, .int b => if b = 0 then Stage.fail .divisionByZero else pure (.int (a / b))
  | .lt, .int a, .int b => pure (.ofBool (a < b))
  | .and, .int a, .int b => pure (.int (a &&& b))
  | _, _, _ => Stage.fail .stuck

/-- The value of `!`. -/
def Value.negated : Value W.Ref → Run W (Value W.Ref)
  | .int a => pure (.int (a ^^^ 1))
  | .ref _ => Stage.fail .stuck

/-- The value as a condition. -/
def Value.test : Value W.Ref → Run W Bool
  | .int a => pure (a != 0)
  | .ref _ => Stage.fail .stuck

end

section

variable {O : Type} {W : World O}

theorem Env.read_of_some {ρ : Env W} {x : String} {v : Value W.Ref} (h : ρ x = some v) :
    ρ.read x = pure v := by
  rw [Env.read, h]

@[simp] theorem Env.set_self (ρ : Env W) (x : String) (v : Value W.Ref) : ρ.set x v x = some v := by
  simp [Env.set]

theorem Env.set_of_ne (ρ : Env W) {x y : String} (v : Value W.Ref) (h : y ≠ x) :
    ρ.set x v y = ρ y := by
  simp [Env.set, h]

/-- On booleans, `!` is negation. -/
theorem Value.negated_ofBool (b : Bool) :
    Value.negated W (.ofBool b) = pure (.ofBool !b) := by
  cases b <;> rfl

/-- On booleans, `&&` is conjunction. -/
theorem BinOp.apply_and_ofBool (a b : Bool) :
    BinOp.apply W .and (.ofBool a) (.ofBool b) = pure (.ofBool (a && b)) := by
  cases a <;> cases b <;> rfl

theorem Value.test_ofBool (b : Bool) : Value.test W (.ofBool b) = pure b := by
  cases b <;> rfl

end

end MiniJava
