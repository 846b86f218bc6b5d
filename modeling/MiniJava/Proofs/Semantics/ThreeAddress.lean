import MiniJava.Ir.Basic
import MiniJava.Proofs.Semantics.Control

/-!
# How three-address code runs

The data of the machine is an environment that gives each variable its value, with the object that a
method runs on under the name `this`. Operands are read when their instruction is reached: literals
and variables from the instruction and the environment, items of arrays by asking the world.

What an instruction asks for is an `Ir.Op`, which keeps everything that the instruction says about
the operation besides its operands: names, types, and how a method is called. A world need not see
all of it; `view` says what it sees.
-/

namespace MiniJava.Ir

/-- An operation on objects, arrays or other methods, as an instruction describes it. -/
inductive Op where
  | call (kind : CallKind) (target : Operand) (method : String) (params : List Ty) (ty : Ty)
  | newObject (className : String)
  | newArray (ty : Ty)
  | length
  | getField (name : String) (ty : Ty)
  | putField (name : String) (ty : Ty)
  | readItem (ty : Ty)
  | writeItem (ty : Ty)

/-- The label that an instruction sets. -/
def Instr.label? : Instr → Option String
  | .label l => some l
  | _ => none

theorem Instr.eq_label {i : Instr} {l : String} (h : i.label? = some l) : i = .label l := by
  cases i with
  | label l' => rw [Option.some.inj h]
  | _ => cases h

section

variable {O : Type} (view : Op → O) (W : World O)

/-- The value of an operand. A class name has none. -/
def Operand.read (ρ : Env W) : Operand → Run W (Value W.Ref)
  | .literal v _ => pure (.int v)
  | .var x _ _ => ρ.read x
  | .item x i ty _ => do
    let array ← ρ.read x
    let index ← i.read ρ
    W.request (view (.readItem ty)) [array, index]
  | .cls _ => Stage.fail .stuck

def Operand.readAll (ρ : Env W) : List Operand → Run W (List (Value W.Ref))
  | [] => pure []
  | o :: os => do
    let v ← o.read view W ρ
    let vs ← readAll ρ os
    pure (v :: vs)

/-- The object that a method is called on. A static method is called on none. -/
def receiver (ρ : Env W) (kind : CallKind) (target : Operand) : Run W (List (Value W.Ref)) :=
  if kind = .static then pure []
  else do
    let v ← target.read view W ρ
    pure [v]

/-- A call. Where nothing is declared, the parameters have the types of the arguments. -/
def invoke (ρ : Env W) (kind : CallKind) (target : Operand) (method : String) (args : List Operand)
    (params : Option (List Ty)) (ty : Ty) : Run W (Value W.Ref) := do
  let object ← receiver view W ρ kind target
  let vs ← Operand.readAll view W ρ args
  W.request (view (.call kind target method (params.getD (args.map Operand.ty)) ty)) (object ++ vs)

/-- The value that an instruction gives. -/
def Instr.compute (ρ : Env W) : Instr → Run W (Value W.Ref)
  | .value o => o.read view W ρ
  | .not o _ => do
    let v ← o.read view W ρ
    v.negated W
  | .binary op l r _ => do
    let a ← l.read view W ρ
    let b ← r.read view W ρ
    op.apply W a b
  | .call kind target method args params ty =>
    if ty = .void then Stage.fail .stuck else invoke view W ρ kind target method args params ty
  | .newObject c => W.request (view (.newObject c)) []
  | .newArray size ty => do
    let n ← size.read view W ρ
    W.request (view (.newArray ty)) [n]
  | .length a => do
    let v ← a.read view W ρ
    W.request (view .length) [v]
  | .getField field ty =>
    match field.name? with
    | some x => do
      let self ← ρ.read "this"
      W.request (view (.getField x ty)) [self]
    | none => Stage.fail .stuck
  | .assign .. | .putField .. | .goto _ | .branch .. | .label _ | .ret .. => Stage.fail .stuck

/-- Stores a value in a variable, or in an item whose array and index are read before. -/
def store (ρ : Env W) (dest : Operand) (ty : Ty) (rhs : Instr) : Run W (Env W) :=
  match dest with
  | .var x _ _ => do
    let v ← rhs.compute view W ρ
    pure (ρ.set x v)
  | .item x i _ _ => do
    let array ← ρ.read x
    let index ← i.read view W ρ
    let v ← rhs.compute view W ρ
    let _ ← W.request (view (.writeItem ty)) [array, index, v]
    pure ρ
  | .literal .. | .cls _ => Stage.fail .stuck

/-- What an instruction does. -/
def Instr.exec (i : Instr) (ρ : Env W) : Run W (Flow W (Env W)) :=
  match i with
  | .assign dest ty rhs => do
    let ρ' ← store view W ρ dest ty rhs
    pure (.next ρ')
  | .call kind target method args params ty => do
    let _ ← invoke view W ρ kind target method args params ty
    pure (.next ρ)
  | .putField field v =>
    match field with
    | .var x ty _ => do
      let self ← ρ.read "this"
      let v ← v.read view W ρ
      let _ ← W.request (view (.putField x ty)) [self, v]
      pure (.next ρ)
    | _ => Stage.fail .stuck
  | .goto l => pure (.jump l ρ)
  | .branch c l => do
    let v ← c.read view W ρ
    let b ← v.test W
    pure (if b then .jump l ρ else .next ρ)
  | .label _ => pure (.next ρ)
  | .ret .void _ => pure (.done none)
  | .ret _ none => Stage.fail .stuck
  | .ret _ (some o) => do
    let v ← o.read view W ρ
    pure (.done (some v))
  | .value _ | .not .. | .binary .. | .newObject _ | .newArray .. | .length _ | .getField .. => do
    let _ ← i.compute view W ρ
    pure (.next ρ)

/-- The machine that runs three-address code. -/
def machine : Machine W Instr (Env W) where
  label? := Instr.label?
  exec := Instr.exec view W

end

/-! ## Labels -/

/-- The labels that the code sets, in order. -/
def labels (code : List Instr) : List String := code.filterMap Instr.label?

@[simp] theorem labels_nil : labels [] = [] := rfl

@[simp] theorem labels_append (p q : List Instr) : labels (p ++ q) = labels p ++ labels q :=
  List.filterMap_append

@[simp] theorem labels_label (l : String) (p : List Instr) :
    labels (.label l :: p) = l :: labels p := rfl

theorem labels_cons {i : Instr} (hi : i.label? = none) (p : List Instr) :
    labels (i :: p) = labels p := by
  rw [labels, List.filterMap_cons, hi, labels]

theorem labels_cons_eq (i : Instr) (p : List Instr) :
    labels (i :: p) = i.label?.toList ++ labels p := by
  cases hi : i.label? with
  | none => simp [labels_cons hi]
  | some l => simp [labels, hi]

@[simp] theorem labels_goto (l : String) (p : List Instr) :
    labels (.goto l :: p) = labels p := labels_cons rfl p

@[simp] theorem labels_branch (o : Operand) (l : String) (p : List Instr) :
    labels (.branch o l :: p) = labels p := labels_cons rfl p

/-- The label that an instruction may jump to. -/
def Instr.jump? : Instr → Option String
  | .goto l | .branch _ l => some l
  | _ => none

/-- The labels that the code may jump to, in order. -/
def jumps (code : List Instr) : List String := code.filterMap Instr.jump?

@[simp] theorem jumps_nil : jumps [] = [] := rfl

@[simp] theorem jumps_append (p q : List Instr) : jumps (p ++ q) = jumps p ++ jumps q :=
  List.filterMap_append

@[simp] theorem jumps_goto (l : String) (p : List Instr) :
    jumps (.goto l :: p) = l :: jumps p := rfl

@[simp] theorem jumps_branch (o : Operand) (l : String) (p : List Instr) :
    jumps (.branch o l :: p) = l :: jumps p := rfl

theorem jumps_cons {i : Instr} (hi : i.jump? = none) (p : List Instr) :
    jumps (i :: p) = jumps p := by
  rw [jumps, List.filterMap_cons, hi, jumps]

theorem jumps_cons_eq (i : Instr) (p : List Instr) :
    jumps (i :: p) = i.jump?.toList ++ jumps p := by
  cases hi : i.jump? with
  | none => simp [jumps_cons hi]
  | some l => simp [jumps, hi]

@[simp] theorem jumps_label (l : String) (p : List Instr) : jumps (.label l :: p) = jumps p :=
  jumps_cons rfl p

end MiniJava.Ir
