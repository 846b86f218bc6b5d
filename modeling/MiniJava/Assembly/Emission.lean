import MiniJava.Assembly.Listing
import MiniJava.Counting
import MiniJava.Stage

/-!
# Emission

Three-address code becomes stack-machine code, one block of machine instructions for each
instruction. Operands are pushed, the operator works on the stack, and the result is stored in its
register or dropped. The comparison `<` needs two labels of its own, which are numbered by a counter
that runs through the whole class; it is the state of the stage. It counts in any numbers `κ`; where
no others are named, they are natural numbers.

Emission stops with an `EmitError` at an instruction that makes no sense.
-/

namespace MiniJava.Assembly

open Ir

inductive EmitError where
  | unknownOperand (name method : String)
  | invalidAssignTarget (dest method : String)
  | notAValue (instr method : String)
  | missingReturnValue (ty method : String)
  | invalidCallTarget (target method : String)
deriving DecidableEq

def EmitError.message : EmitError → String
  | unknownOperand x m => s!"unknown operand '{x}' in method '{m}'"
  | invalidAssignTarget d m => s!"assignment destination '{d}' in method '{m}' is not an operand"
  | notAValue i m => s!"'{i}' in method '{m}' does not produce a value"
  | missingReturnValue ty m => s!"non-void return of type {ty} without a value in method '{m}'"
  | invalidCallTarget t m => s!"call target '{t}' in method '{m}' is not an object"

/-- A stage that writes machine instructions and counts in `κ`. -/
abbrev EmitIn (κ : Type) := Stage κ Asm EmitError

/-- A stage that writes machine instructions. -/
abbrev Emit := EmitIn Nat

/-- Where an instruction stands: the class, its method and the registers of the method. -/
structure Frame where
  unit : ClassUnit
  method : Method
  registers : RegisterTable

def Frame.of (u : ClassUnit) (m : Method) : Frame := ⟨u, m, m.registers⟩

namespace Frame

/-- The register of a variable. -/
def register (f : Frame) (name : String) : Except EmitError UInt16 :=
  match f.registers.get? name with
  | some r => .ok r.index
  | none => .error (.unknownOperand name f.method.name)

/-- The code that pushes an operand. A class name pushes nothing. -/
def push (f : Frame) : Operand → Except EmitError (List Asm)
  | .literal v _ => .ok [.ldc v]
  | .var x t _ =>
    if x == "this" then .ok [.aload0]
    else do
      let r ← f.register x
      .ok [.load t r]
  | .item x i t _ => do
    let r ← f.register x
    let index ← f.push i
    .ok (.aload r :: (index ++ [.loadItem t]))
  | .cls _ => .ok []

def pushAll (f : Frame) : List Operand → Except EmitError (List Asm)
  | [] => .ok []
  | o :: os => do
    let code ← f.push o
    let more ← f.pushAll os
    .ok (code ++ more)

/-- The class that a call goes to. In a constructor the initialiser of `this` is the one of the
superclass. -/
def owner (f : Frame) (kind : CallKind) (target : Operand) : Except EmitError String :=
  match kind, target with
  | .static, .cls name => .ok (f.unit.classPath name)
  | kind, target =>
    if kind == .special && target.isThis && f.method.isConstructor then .ok f.unit.superPath
    else
      match target.ty with
      | .cls name => .ok (f.unit.classPath name)
      | _ => .error (.invalidCallTarget target.text f.method.name)

/-- The code of a call: the target unless the call is static, the arguments, the call itself. -/
def call (f : Frame) (kind : CallKind) (target : Operand) (method : String) (args : List Operand)
    (params : Option (List Ty)) (ty : Ty) : Except EmitError (List Asm) := do
  let owner ← f.owner kind target
  let object ← if kind == .static then .ok [] else f.push target
  let pushed ← f.pushAll args
  let params := params.getD (args.map Operand.ty)
  .ok (object ++ pushed
    ++ [.invoke kind owner method (params.map f.unit.descriptor) (f.unit.descriptor ty)])

end Frame

def trueLabel (n : Nat) : String := s!"cmp_true_{n}"

def doneLabel (n : Nat) : String := s!"cmp_end_{n}"

/-- The code that leaves one or zero for a comparison of the two topmost integers. -/
def comparison (n : Nat) : List Asm :=
  [.ifIcmplt (trueLabel n), .iconst0, .goto (doneLabel n), .label (trueLabel n), .iconst1,
    .label (doneLabel n)]

variable {κ : Type} [Counting κ]

def operator : BinOp → EmitIn κ Unit
  | .add => Stage.emit .iadd
  | .sub => Stage.emit .isub
  | .mul => Stage.emit .imul
  | .div => Stage.emit .idiv
  | .and => Stage.emit .iand
  | .lt => do
    let n ← Stage.update fun n => (Counting.number n, Counting.next n)
    Stage.emitAll (comparison n)

/-- Writes code, or stops with the fault in its place. -/
def write (code : Except EmitError (List Asm)) : EmitIn κ Unit := do
  let code ← Stage.ofExcept code
  Stage.emitAll code

/-- The instruction that makes an array of the given type. -/
def makeArray (u : ClassUnit) (ty : Ty) : Asm :=
  match ty with
  | .array .int | .array .bool => .newIntArray
  | .array e => .newRefArray (u.itemName e)
  | _ => .newIntArray

namespace Frame

/-- The code that leaves the value of an instruction on the stack. -/
def value (f : Frame) (i : Instr) : EmitIn κ Unit :=
  match i with
  | .value o => write (f.push o)
  | .not o _ => do
    write (f.push o)
    Stage.emitAll [.iconst1, .ixor]
  | .binary op l r _ => do
    write (f.push l)
    write (f.push r)
    operator op
  | .call kind target method args params ty =>
    if ty == .void then Stage.fail (.notAValue i.text f.method.name)
    else write (f.call kind target method args params ty)
  | .newObject c => Stage.emit (.newObject (f.unit.classPath c))
  | .newArray size ty => do
    write (f.push size)
    Stage.emit (makeArray f.unit ty)
  | .length a => do
    write (f.push a)
    Stage.emit .arraylength
  | .getField field ty =>
    Stage.emitAll
      [.aload0, .getfield (f.unit.classPath f.unit.name) (field.name?.getD "")
        (f.unit.descriptor ty)]
  | .assign .. | .putField .. | .goto _ | .branch .. | .label _ | .ret .. =>
    Stage.fail (.notAValue i.text f.method.name)

/-- The code of an assignment. For an item, array and index are pushed before the value. -/
def assign (f : Frame) (dest : Operand) (ty : Ty) (rhs : Instr) : EmitIn κ Unit :=
  match dest with
  | .var x _ _ => do
    f.value rhs
    let r ← Stage.ofExcept (f.register x)
    Stage.emit (.store ty r)
  | .item x index _ _ => do
    let r ← Stage.ofExcept (f.register x)
    Stage.emit (.aload r)
    write (f.push index)
    f.value rhs
    Stage.emit (.storeItem ty)
  | .literal .. | .cls _ => Stage.fail (.invalidAssignTarget dest.text f.method.name)

/-- The code of an instruction. A value that nothing uses is dropped. -/
def instr (f : Frame) (i : Instr) : EmitIn κ Unit :=
  match i with
  | .assign dest ty rhs => f.assign dest ty rhs
  | .call kind target method args params ty => do
    write (f.call kind target method args params ty)
    if ty != .void then Stage.emit .pop
  | .putField field v =>
    match field with
    | .var x ty _ => do
      Stage.emit .aload0
      write (f.push v)
      Stage.emit (.putfield (f.unit.classPath f.unit.name) x (f.unit.descriptor ty))
    | other => Stage.fail (.invalidAssignTarget other.text f.method.name)
  | .goto l => Stage.emit (.goto l)
  | .branch c l => do
    write (f.push c)
    Stage.emit (.ifne l)
  | .label l => Stage.emit (.label l)
  | .ret .void _ => Stage.emit .ret
  | .ret ty none => Stage.fail (.missingReturnValue ty.text f.method.name)
  | .ret ty (some o) => do
    write (f.push o)
    Stage.emit (.returnOf ty)
  | .value _ | .not .. | .binary .. | .newObject _ | .newArray .. | .length _ | .getField .. => do
    f.value i
    Stage.emit .pop

/-- One block of code for each instruction. -/
def blocks (f : Frame) : List Instr → Stage κ Piece EmitError Unit
  | [] => pure ()
  | i :: is => do
    let code ← (f.instr i).collect fun _ => []
    Stage.emit (.block i code)
    f.blocks is

end Frame

/-- The pieces of a method. -/
def methodPieces (u : ClassUnit) (m : Method) : Stage κ Piece EmitError Unit := do
  Stage.emit (.heading m)
  (Frame.of u m).blocks m.code
  Stage.emit .ending

def methodsPieces (u : ClassUnit) : List Method → Stage κ Piece EmitError Unit
  | [] => pure ()
  | m :: ms => do
    methodPieces u m
    methodsPieces u ms

end MiniJava.Assembly

namespace MiniJava.Ir.ClassUnit

/-- The methods in the order of the assembly: constructors first. -/
def emissionOrder (u : ClassUnit) : List Method :=
  u.methods.filter (·.isConstructor) ++ u.methods.filter (!·.isConstructor)

/-- The pieces of all methods of a class. -/
def pieces {κ : Type} [Counting κ] (u : ClassUnit) :
    Stage κ Assembly.Piece Assembly.EmitError Unit :=
  Assembly.methodsPieces u u.emissionOrder

end MiniJava.Ir.ClassUnit
