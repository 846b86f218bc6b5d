import MiniJava.Assembly.Code
import MiniJava.Proofs.Semantics.Control

/-!
# How stack-machine code runs

The data of the machine are an operand stack and the registers. An instruction on objects, arrays or
methods takes its operands from the stack and asks the world for an operation (`Op`), which has the
name of the class, the descriptors and the kind of the call. A world need not see all of it; `view`
says what it sees.

Loads and stores for integers and for references do the same here: a register holds a value of
either kind. Items of arrays are another matter, since the kind is part of the operation.
-/

namespace MiniJava.Assembly

open Ir

/-- Integers and references have instructions of their own. -/
inductive Kind where
  | int
  | ref
deriving DecidableEq

/-- The items of a new array. -/
inductive Items where
  | ints
  | refs (name : String)
deriving DecidableEq

/-- An operation on objects, arrays or other methods, as the machine performs it. -/
inductive Op where
  | call (kind : CallKind) (owner method : String) (params : List Descriptor) (result : Descriptor)
  | newObject (path : String)
  | newArray (items : Items)
  | length
  | getField (owner name : String) (ty : Descriptor)
  | putField (owner name : String) (ty : Descriptor)
  | readItem (kind : Kind)
  | writeItem (kind : Kind)
deriving DecidableEq

/-- The label that an instruction sets. -/
def Asm.label? : Asm → Option String
  | .label l => some l
  | _ => none

/-- The operand stack, with the topmost value first, and the registers. -/
structure Memory {O : Type} (W : World O) where
  stack : List (Value W.Ref)
  registers : UInt16 → Option (Value W.Ref)

namespace Memory

variable {O : Type} {W : World O}

def push (d : Memory W) (v : Value W.Ref) : Memory W := { d with stack := v :: d.stack }

/-- Pushes a register. -/
def load (d : Memory W) (r : UInt16) : Run W (Flow W (Memory W)) :=
  match d.registers r with
  | some v => pure (.next (d.push v))
  | none => Stage.fail .stuck

/-- Pops into a register. -/
def store (d : Memory W) (r : UInt16) : Run W (Flow W (Memory W)) :=
  match d.stack with
  | v :: rest =>
    pure (.next ⟨rest, fun k => if k = r then some v else d.registers k⟩)
  | [] => Stage.fail .stuck

/-- Puts what `f` gives in place of the two topmost integers. -/
def arith (d : Memory W) (f : Int32 → Int32 → Run W (Value W.Ref)) : Run W (Flow W (Memory W)) :=
  match d.stack with
  | .int b :: .int a :: rest => do
    let v ← f a b
    pure (.next { d with stack := v :: rest })
  | _ => Stage.fail .stuck

/-- Pops `n` operands and asks the world for an operation. The answer is pushed if the instruction
leaves a value. -/
def ask (d : Memory W) (op : O) (n : Nat) (leaves : Bool) : Run W (Flow W (Memory W)) :=
  if n ≤ d.stack.length then do
    let v ← W.request op (d.stack.take n).reverse
    let rest := d.stack.drop n
    pure (.next { d with stack := if leaves then v :: rest else rest })
  else Stage.fail .stuck

end Memory

section

variable {O : Type} (view : Op → O) (W : World O)

/-- What an instruction does. -/
def Asm.exec (i : Asm) (d : Memory W) : Run W (Flow W (Memory W)) :=
  match i with
  | .ldc v => pure (.next (d.push (.int v)))
  | .iconst0 => pure (.next (d.push (.int 0)))
  | .iconst1 => pure (.next (d.push (.int 1)))
  | .iload r | .aload r => d.load r
  | .aload0 => d.load 0
  | .istore r | .astore r => d.store r
  | .iadd => d.arith fun a b => pure (.int (a + b))
  | .isub => d.arith fun a b => pure (.int (a - b))
  | .imul => d.arith fun a b => pure (.int (a * b))
  | .idiv => d.arith fun a b =>
    if b = 0 then Stage.fail .divisionByZero else pure (.int (a / b))
  | .iand => d.arith fun a b => pure (.int (a &&& b))
  | .ixor => d.arith fun a b => pure (.int (a ^^^ b))
  | .pop =>
    match d.stack with
    | _ :: rest => pure (.next { d with stack := rest })
    | [] => Stage.fail .stuck
  | .newObject path => d.ask (view (.newObject path)) 0 true
  | .newIntArray => d.ask (view (.newArray .ints)) 1 true
  | .newRefArray name => d.ask (view (.newArray (.refs name))) 1 true
  | .arraylength => d.ask (view .length) 1 true
  | .getfield owner field ty => d.ask (view (.getField owner field ty)) 1 true
  | .putfield owner field ty => d.ask (view (.putField owner field ty)) 2 false
  | .iaload => d.ask (view (.readItem .int)) 2 true
  | .aaload => d.ask (view (.readItem .ref)) 2 true
  | .iastore => d.ask (view (.writeItem .int)) 3 false
  | .aastore => d.ask (view (.writeItem .ref)) 3 false
  | .invoke kind owner method params result =>
    d.ask (view (.call kind owner method params result))
      ((if kind = .static then 0 else 1) + params.length) (result ≠ .void)
  | .goto l => pure (.jump l d)
  | .ifne l =>
    match d.stack with
    | .int a :: rest =>
      let d := { d with stack := rest }
      pure (if a ≠ 0 then .jump l d else .next d)
    | _ => Stage.fail .stuck
  | .ifIcmplt l =>
    match d.stack with
    | .int b :: .int a :: rest =>
      let d := { d with stack := rest }
      pure (if a < b then .jump l d else .next d)
    | _ => Stage.fail .stuck
  | .label _ => pure (.next d)
  | .ireturn | .areturn =>
    match d.stack with
    | v :: _ => pure (.done (some v))
    | [] => Stage.fail .stuck
  | .ret => pure (.done none)

/-- The machine that runs stack-machine code. -/
def machine : Machine W Asm (Memory W) where
  label? := Asm.label?
  exec := Asm.exec view W

end

/-! ## Labels -/

/-- The labels that the code sets, in order. -/
def labels (code : List Asm) : List String := code.filterMap Asm.label?

@[simp] theorem labels_nil : labels [] = [] := rfl

@[simp] theorem labels_append (p q : List Asm) : labels (p ++ q) = labels p ++ labels q :=
  List.filterMap_append

/-- The label that an instruction may jump to. -/
def Asm.jump? : Asm → Option String
  | .goto l | .ifne l | .ifIcmplt l => some l
  | _ => none

/-- The labels that the code may jump to, in order. -/
def jumps (code : List Asm) : List String := code.filterMap Asm.jump?

@[simp] theorem jumps_nil : jumps [] = [] := rfl

@[simp] theorem jumps_append (p q : List Asm) : jumps (p ++ q) = jumps p ++ jumps q :=
  List.filterMap_append

/-! ## Single instructions -/

section

variable {O : Type} {view : Op → O} {W : World O} {stk : List (Value W.Ref)}
  {regs : UInt16 → Option (Value W.Ref)}

theorem Memory.ask_eq (op : O) {vs : List (Value W.Ref)} {n : Nat} (hn : n = vs.length)
    (leaves : Bool) :
    Memory.ask ⟨vs.reverse ++ stk, regs⟩ op n leaves = W.request op vs >>= fun v =>
      pure (.next ⟨if leaves then v :: stk else stk, regs⟩) := by
  subst hn
  simp [Memory.ask]

theorem Memory.load_eq {r : UInt16} {v : Value W.Ref} (hv : regs r = some v) :
    Memory.load ⟨stk, regs⟩ r = pure (.next ⟨v :: stk, regs⟩) := by
  simp [Memory.load, hv, Memory.push]

theorem Asm.exec_load (ty : Ty) (r : UInt16) (d : Memory W) :
    (Asm.load ty r).exec view W d = d.load r := by
  rw [Asm.load]
  split <;> rfl

theorem Asm.exec_store (ty : Ty) (r : UInt16) (d : Memory W) :
    (Asm.store ty r).exec view W d = d.store r := by
  rw [Asm.store]
  split <;> rfl

theorem Asm.exec_returnOf (ty : Ty) (v : Value W.Ref) :
    (Asm.returnOf ty).exec view W ⟨v :: stk, regs⟩ = pure (.done (some v)) := by
  rw [Asm.returnOf]
  split <;> rfl

end

end MiniJava.Assembly
