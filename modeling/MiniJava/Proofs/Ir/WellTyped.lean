import MiniJava.Ir.Unit
import MiniJava.Lowering.Basic
import Mathlib.Data.List.Forall2

/-!
# Well-typed code

Operands and instructions of three-address code carry their types, but nothing in the code makes
these agree. Code is well typed if they do: each instruction finds operands of the types it works
on, each variable is declared with the type that it shows, and what is stored somewhere may be
stored there (`Instr.WellTyped`).

The name of a class has no value. As an operand it meets every demand on its type.
-/

namespace MiniJava.Ir

/-! ## Operands -/

namespace Operand

/-- The operand names a class. -/
def isClass : Operand → Bool
  | cls _ => true
  | literal .. | var .. | item .. => false

/-- The operand is made of declared variables, an index is an `int`, and the type is as wanted. -/
def Typed (vars : List Symbol) (P : Ty → Prop) : Operand → Prop
  | literal _ t => P t
  | var x t _ => ⟨x, t⟩ ∈ vars ∧ P t
  | item x i t _ => ⟨x, .array t⟩ ∈ vars ∧ i.Typed vars (· = .int) ∧ P t
  | cls _ => True

/-- The operand is well typed, whatever its type is. -/
def Declared (vars : List Symbol) (o : Operand) : Prop := o.Typed vars fun _ => True

/-- The operand is well typed and holds an object of a class. -/
def IsObject (vars : List Symbol) (o : Operand) : Prop :=
  o.isClass = false ∧ o.Typed vars fun t => ∃ c, t = .cls c

variable {vars : List Symbol} {P : Ty → Prop} {o : Operand}

theorem typed_iff : o.Typed vars P ↔ o.Declared vars ∧ (o.isClass = false → P o.ty) := by
  cases o <;> simp [Declared, Typed, isClass, ty, and_assoc]

theorem declared_cls {c : String} : (cls c).Declared vars := trivial

theorem declared_literal {v : Int32} {t : Ty} : (literal v t).Declared vars := trivial

theorem declared_var {x : String} {t : Ty} {p : Option Nat} :
    (var x t p).Declared vars ↔ ⟨x, t⟩ ∈ vars := by
  simp [Declared, Typed]

end Operand

/-! ## Instructions -/

/-- A call goes to an object, or to a class if it is static. Arguments of a method whose parameters
are known are assignable to them, and a constructor takes none. -/
def CallTyped (sc : Scope) (vars : List Symbol) (target : Operand) (args : List Operand)
    (params : Option (List Ty)) : CallKind → Prop
  | .static => target.isClass = true ∧ ∀ a ∈ args, a.Declared vars
  | .virtual => target.IsObject vars ∧ (∀ a ∈ args, a.Declared vars) ∧
      ∀ ps, params = some ps →
        List.Forall₂ (fun a t => a.Typed vars (sc.assignable · t = true)) args ps
  | .special => target.IsObject vars ∧ args = [] ∧ params = some []

namespace Instr

/-- The instruction gives a value of the type it says, and its operands are well typed. -/
def Yields (sc : Scope) (vars : List Symbol) : Instr → Prop
  | value o => o.Declared vars
  | not o t => o.Typed vars (· = .bool) ∧ t = .bool
  | binary op l r t =>
    l.Typed vars (· = op.operandTy) ∧ r.Typed vars (· = op.operandTy) ∧ t = op.resultTy
  | call kind target _ args params t => t ≠ .void ∧ CallTyped sc vars target args params kind
  | newObject _ => True
  | newArray size t => size.Typed vars (· = .int) ∧ t.isArray = true
  | length a => a.Typed vars (·.isArray = true)
  | getField f t => ∃ x s, f = .plain x s.ty ∧ sc.resolve x = some (.field s) ∧ t = s.ty
  | assign .. | putField .. | goto _ | branch .. | label _ | ret .. => False

/-- A value of the instruction may be stored where a `ty` is wanted. A copy of an operand is what
the program itself assigns, to an item of an array or to the variable that a name stands for.
Everything else goes to a temporary, which has the very type of the value. -/
def Stored (sc : Scope) (vars : List Symbol) (dest : Operand) (ty : Ty) (rhs : Instr) : Prop :=
  match dest, rhs with
  | .item .., value o => o.Typed vars (· = ty)
  | .var x .., value (.item y i t p) => (∃ k, x = Lower.tempName k) ∧
      (value (.item y i t p)).ty = ty
  | .var x .., value o => (∃ b, sc.resolve x = some b ∧ b.isField = false ∧ b.ty = ty) ∧
      o.Typed vars (sc.assignable · ty = true)
  | .var x .., rhs => (∃ k, x = Lower.tempName k) ∧ rhs.ty = ty
  | .item .., _ | .literal .., _ | .cls _, _ => False

/-- The instruction is well typed in the body of a method whose variables are `vars`. -/
def WellTyped (sc : Scope) (vars : List Symbol) : Instr → Prop
  | assign dest ty rhs =>
    dest.Typed vars (· = ty) ∧ rhs.Yields sc vars ∧ rhs.Stored sc vars dest ty
  | call kind target _ args params _ => CallTyped sc vars target args params kind
  | putField f v => ∃ x s, f = .plain x s.ty ∧ sc.resolve x = some (.field s) ∧
      v.Typed vars (sc.assignable · s.ty = true)
  | goto _ | label _ => True
  | branch c _ => c.Typed vars (· = .bool)
  | ret ty none => ty = .void
  | ret ty (some o) => ty ≠ .void ∧ o.Typed vars (sc.assignable · ty = true)
  | rhs => rhs.Yields sc vars

@[simp] theorem wellTyped_goto {sc : Scope} {vars : List Symbol} {l : String} :
    (goto l).WellTyped sc vars := trivial

@[simp] theorem wellTyped_label {sc : Scope} {vars : List Symbol} {l : String} :
    (label l).WellTyped sc vars := trivial

/-- The instruction copies an operand, and not an item of an array. -/
def isCopy : Instr → Bool
  | value (.item ..) => false
  | value _ => true
  | _ => false

variable {sc : Scope} {vars : List Symbol} {x : String} {t ty : Ty} {p : Option Nat}

theorem stored_temp {k : Nat} {rhs : Instr} (hcopy : rhs.isCopy = false) (hty : rhs.ty = ty) :
    rhs.Stored sc vars (.plain (Lower.tempName k) ty) ty := by
  cases rhs with
  | value o =>
    cases o with
    | item y i t p => exact ⟨⟨k, rfl⟩, hty⟩
    | literal | var | cls => cases hcopy
  | _ => exact ⟨⟨k, rfl⟩, hty⟩

theorem stored_variable {b : Binding} {o : Operand} (hb : sc.resolve x = some b)
    (hfield : b.isField = false) (hcopy : (value o).isCopy = true)
    (ho : o.Typed vars (sc.assignable · b.ty = true)) :
    (value o).Stored sc vars (.var x t p) b.ty := by
  cases o with
  | item => cases hcopy
  | literal | var | cls => exact ⟨⟨b, hb, hfield, rfl⟩, ho⟩

end Instr

/-- All code of the method is well typed. -/
def Method.WellTyped (sc : Scope) (m : Method) : Prop :=
  ∀ i ∈ m.code, i.WellTyped sc m.declarations

end MiniJava.Ir
