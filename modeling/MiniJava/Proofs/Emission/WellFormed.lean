import MiniJava.Proofs.Emission.Listing
import MiniJava.Proofs.Emission.Naming

/-!
# Emission succeeds exactly on well-formed code

Emission may be given any code at all. It stops at the first instruction that is not well formed,
and what is wrong there depends only on the instruction and the registers of its method.

**Theorem** (`build_ok_iff_wellFormed`). A class is emitted exactly if all of its instructions are
well formed. Otherwise the fault is the one of the first instruction that is not, constructors
first.
-/

namespace MiniJava

theorem findSome?_cons_or {α β : Type} {f : α → Option β} {a : α} {l : List α} :
    (a :: l).findSome? f = (f a).or (l.findSome? f) := by
  rw [List.findSome?_cons]
  cases f a <;> rfl

/-- The type is a class. -/
def Ty.isClass : Ty → Bool
  | cls _ => true
  | int | bool | str | void | array _ => false

theorem Ty.isClass_iff {t : Ty} : t.isClass = true ↔ ∃ c, t = .cls c := by
  cases t <;> simp [isClass]

namespace Ir

open Assembly (EmitError)

/-! ## Well-formed code -/

/-- What the code of a method may use. -/
structure Context where
  /-- The variables that can be pushed. -/
  vars : String → Prop
  /-- The variables whose items can be pushed. -/
  arrays : String → Prop
  /-- The variables that can be assigned to, as a whole or item by item. -/
  targets : String → Prop
  inConstructor : Bool

namespace Operand

/-- The operand can be pushed. -/
def Pushable (ctx : Context) : Operand → Prop
  | literal .. | cls _ => True
  | var x _ _ => ctx.vars x
  | item x i _ _ => ctx.arrays x ∧ i.Pushable ctx

/-- The operand can be assigned to. -/
def Assignable (ctx : Context) : Operand → Prop
  | literal .. | cls _ => False
  | var x _ _ => ctx.targets x
  | item x i _ _ => ctx.targets x ∧ i.Pushable ctx

/-- There is a class that a call on the operand goes to. -/
def Callable (inConstructor : Bool) (kind : CallKind) (target : Operand) : Prop :=
  (kind = .static ∧ target.isClass = true) ∨
  (kind = .special ∧ target.isThis = true ∧ inConstructor = true) ∨
  target.ty.isClass = true

instance (inConstructor : Bool) (kind : CallKind) (target : Operand) :
    Decidable (target.Callable inConstructor kind) :=
  inferInstanceAs (Decidable (_ ∨ _ ∨ _))

/-- The operands of a call are well formed. The target of a static call is not pushed. -/
def CallWellFormed (ctx : Context) (kind : CallKind) (target : Operand)
    (args : List Operand) : Prop :=
  target.Callable ctx.inConstructor kind ∧ (kind ≠ .static → target.Pushable ctx) ∧
    ∀ a ∈ args, a.Pushable ctx

end Operand

namespace Instr

/-- The instruction gives a value and is well formed as one. -/
def GivesValue (ctx : Context) : Instr → Prop
  | value o | not o _ | newArray o _ | length o => o.Pushable ctx
  | binary _ l r _ => l.Pushable ctx ∧ r.Pushable ctx
  | call kind target _ args _ ty => ty ≠ .void ∧ target.CallWellFormed ctx kind args
  | newObject _ | getField .. => True
  | assign .. | putField .. | goto _ | branch .. | label _ | ret .. => False

/-- The instruction is well formed. A `return` without a value may have an operand of any kind. -/
def WellFormed (ctx : Context) (i : Instr) : Prop :=
  match i with
  | assign dest _ rhs => dest.Assignable ctx ∧ rhs.GivesValue ctx
  | call kind target _ args _ _ => target.CallWellFormed ctx kind args
  | putField field v => (∃ x t p, field = .var x t p) ∧ v.Pushable ctx
  | goto _ | label _ => True
  | branch c _ => c.Pushable ctx
  | ret ty o => ty = .void ∨ ∃ v, o = some v ∧ v.Pushable ctx
  | value _ | not .. | binary .. | newObject _ | newArray .. | length _
      | getField .. => i.GivesValue ctx

end Instr

namespace Method

/-- The method has a register for the variable. -/
def hasRegister (m : Method) (x : String) : Bool := (m.registers.get? x).isSome

/-- What the code of the method may use: its registers. Where it stands for the object itself,
`this` needs none. -/
def context (m : Method) : Context where
  vars x := x = "this" ∨ m.hasRegister x = true
  arrays x := m.hasRegister x = true
  targets x := m.hasRegister x = true
  inConstructor := m.isConstructor

def WellFormed (m : Method) : Prop := ∀ i ∈ m.code, i.WellFormed m.context

/-! ## Faults -/

/-- The fault of a variable without a register. -/
def unknown? (m : Method) (x : String) : Option EmitError :=
  if m.hasRegister x then none else some (.unknownOperand x m.name)

theorem unknown?_eq_none_iff {m : Method} {x : String} :
    m.unknown? x = none ↔ m.hasRegister x = true := by
  rw [unknown?]
  split <;> simp_all

end Method

namespace Operand

/-- What is wrong with pushing the operand. -/
def fault? (m : Method) : Operand → Option EmitError
  | literal .. | cls _ => none
  | var x _ _ => if x = "this" then none else m.unknown? x
  | item x i _ _ => (m.unknown? x).or (i.fault? m)

/-- What is wrong with a call: the class is looked up first, then the operands are pushed. -/
def callFault? (m : Method) (kind : CallKind) (target : Operand) (args : List Operand) :
    Option EmitError :=
  (if target.Callable m.isConstructor kind then none
    else some (.invalidCallTarget target.text m.name)).or
    ((if kind = .static then none else target.fault? m).or (args.findSome? (fault? m)))

end Operand

namespace Instr

/-- What is wrong with the instruction as a value. -/
def valueFault? (m : Method) (i : Instr) : Option EmitError :=
  match i with
  | value o | not o _ | newArray o _ | length o => o.fault? m
  | binary _ l r _ => (l.fault? m).or (r.fault? m)
  | call kind target _ args _ ty =>
    if ty = .void then some (.notAValue i.text m.name) else target.callFault? m kind args
  | newObject _ | getField .. => none
  | assign .. | putField .. | goto _ | branch .. | label _
      | ret .. => some (.notAValue i.text m.name)

/-- What is wrong with the instruction: the first thing in the order of emission. A variable is
looked up after the value that it is given, an array before. -/
def fault? (m : Method) (i : Instr) : Option EmitError :=
  match i with
  | assign dest _ rhs =>
    match dest with
    | .var x _ _ => (rhs.valueFault? m).or (m.unknown? x)
    | .item x index _ _ => (m.unknown? x).or ((index.fault? m).or (rhs.valueFault? m))
    | .literal .. | .cls _ => some (.invalidAssignTarget dest.text m.name)
  | call kind target _ args _ _ => target.callFault? m kind args
  | putField field v =>
    match field with
    | .var .. => v.fault? m
    | other => some (.invalidAssignTarget other.text m.name)
  | goto _ | label _ => none
  | branch c _ => c.fault? m
  | ret .void _ => none
  | ret ty none => some (.missingReturnValue ty.text m.name)
  | ret _ (some o) => o.fault? m
  | value _ | not .. | binary .. | newObject _ | newArray .. | length _
      | getField .. => i.valueFault? m

end Instr

/-! ## Well-formed code has no faults -/

section

variable {m : Method}

theorem Operand.fault?_eq_none_iff {o : Operand} : o.fault? m = none ↔ o.Pushable m.context := by
  induction o with
  | literal | cls => exact iff_of_true rfl trivial
  | var x t p =>
    rw [fault?, Pushable, Method.context]
    by_cases hx : x = "this"
    · simp [hx]
    · simp [hx, Method.unknown?_eq_none_iff]
  | item x i t p ih =>
    rw [fault?, Option.or_eq_none_iff, Method.unknown?_eq_none_iff, ih]
    rfl

theorem Operand.callFault?_eq_none_iff {kind : CallKind} {target : Operand} {args : List Operand} :
    target.callFault? m kind args = none ↔ target.CallWellFormed m.context kind args := by
  have hclass : (if target.Callable m.isConstructor kind then none
      else some (EmitError.invalidCallTarget target.text m.name)) = none ↔
      target.Callable m.isConstructor kind := by
    split <;> simp_all
  have htarget : (if kind = .static then none else target.fault? m) = none ↔
      (kind ≠ .static → target.Pushable m.context) := by
    rw [← fault?_eq_none_iff]
    split <;> simp_all
  have hargs : args.findSome? (fault? m) = none ↔ ∀ a ∈ args, a.Pushable m.context := by
    simp only [List.findSome?_eq_none_iff, fault?_eq_none_iff]
  rw [callFault?, Option.or_eq_none_iff, Option.or_eq_none_iff, hclass, htarget, hargs]
  rfl

namespace Instr

theorem valueFault?_eq_none_iff {i : Instr} : i.valueFault? m = none ↔ i.GivesValue m.context := by
  cases i with
  | value o | not o t | newArray o t | length o => exact Operand.fault?_eq_none_iff
  | binary op l r t =>
    rw [valueFault?, Option.or_eq_none_iff, Operand.fault?_eq_none_iff, Operand.fault?_eq_none_iff]
    rfl
  | call kind target method args params ty =>
    rw [valueFault?, GivesValue, ← Operand.callFault?_eq_none_iff]
    by_cases hty : ty = .void
    · simp [hty]
    · simp [hty]
  | newObject | getField => exact iff_of_true rfl trivial
  | assign | putField | goto | branch | label | ret => simp [valueFault?, GivesValue]

theorem fault?_eq_none_iff {i : Instr} : i.fault? m = none ↔ i.WellFormed m.context := by
  cases i with
  | assign dest ty rhs =>
    cases dest with
    | literal | cls => simp [fault?, WellFormed, Operand.Assignable]
    | var x t p =>
      rw [fault?, Option.or_eq_none_iff, valueFault?_eq_none_iff, Method.unknown?_eq_none_iff]
      exact and_comm
    | item x index t p =>
      rw [fault?, Option.or_eq_none_iff, Option.or_eq_none_iff, valueFault?_eq_none_iff,
        Method.unknown?_eq_none_iff, Operand.fault?_eq_none_iff, ← and_assoc]
      rfl
  | call kind target method args params ty => exact Operand.callFault?_eq_none_iff
  | putField field v =>
    rw [WellFormed, ← Operand.fault?_eq_none_iff]
    cases field <;> simp [fault?]
  | branch c l => exact Operand.fault?_eq_none_iff
  | goto | label => exact iff_of_true rfl trivial
  -- At `void` the operand is not looked at.
  | ret ty o =>
    by_cases hty : ty = .void
    · subst hty
      simp [fault?, WellFormed]
    · cases o with
      | none => simp [fault?, WellFormed, hty]
      | some o => simp [fault?, WellFormed, hty, Operand.fault?_eq_none_iff]
  | value | not | binary | newObject | newArray | length | getField =>
    rw [fault?, WellFormed]
    exact valueFault?_eq_none_iff

end Instr

end

end Ir

namespace Assembly

open Ir

/-! ## Emission stops with these faults -/

namespace Frame

variable (u : ClassUnit) (m : Method)

theorem faultOf_register (x : String) : faultOf ((Frame.of u m).register x) = m.unknown? x := by
  cases hx : m.registers.get? x with
  | none => simp [register, Frame.of, Method.unknown?, Method.hasRegister, hx, faultOf]
  | some r => simp [register, Frame.of, Method.unknown?, Method.hasRegister, hx, faultOf]

theorem faultOf_push (o : Operand) : faultOf ((Frame.of u m).push o) = o.fault? m := by
  induction o with
  | literal | cls => rfl
  | var x t p =>
    rw [push, Operand.fault?]
    by_cases hx : x = "this"
    · simp [hx, faultOf]
    · rw [if_neg (by simpa using hx), if_neg hx, faultOf_map, faultOf_register]
  | item x i t p ih =>
    rw [push, Operand.fault?, ← ih, ← faultOf_register u m x]
    exact faultOf_bind fun r => faultOf_map

theorem faultOf_pushAll (os : List Operand) :
    faultOf ((Frame.of u m).pushAll os) = os.findSome? (Operand.fault? m) := by
  induction os with
  | nil => rfl
  | cons o os ih =>
    rw [pushAll, findSome?_cons_or, ← ih, ← faultOf_push u m o]
    exact faultOf_bind fun code => faultOf_map

theorem faultOf_owner (kind : CallKind) (target : Operand) :
    faultOf ((Frame.of u m).owner kind target) =
      if target.Callable m.isConstructor kind then none
      else some (.invalidCallTarget target.text m.name) := by
  -- The constructor of the superclass is called on the object itself, whose type is not asked then.
  cases hsuper : kind == .special && target.isThis && m.isConstructor with
  | true =>
    have hcallable : target.Callable m.isConstructor kind := by
      simp only [Bool.and_eq_true, beq_iff_eq, and_assoc] at hsuper
      exact .inr (.inl hsuper)
    rw [owner_of_super hsuper, if_pos hcallable]
    rfl
  | false =>
    by_cases hty : ∃ c, target.ty = .cls c
    · obtain ⟨c, hc⟩ := hty
      rw [owner_of_cls hsuper hc, if_pos (.inr (.inr (Ty.isClass_iff.2 ⟨c, hc⟩)))]
      rfl
    · have hcallable : ¬target.Callable m.isConstructor kind := by
        rintro (⟨-, hclass⟩ | ⟨hkind, hthis, hm⟩ | hclass)
        · cases target with
          | cls c => exact hty ⟨c, rfl⟩
          | literal | var | item => cases hclass
        · rw [hkind, hthis, hm] at hsuper
          cases hsuper
        · exact hty (Ty.isClass_iff.1 hclass)
      rw [owner_of_not_cls hsuper hty, if_neg hcallable]
      rfl

theorem faultOf_call (kind : CallKind) (target : Operand) (method : String) (args : List Operand)
    (params : Option (List Ty)) (ty : Ty) :
    faultOf ((Frame.of u m).call kind target method args params ty) =
      target.callFault? m kind args := by
  rw [call, Operand.callFault?, ← faultOf_owner u m, ← faultOf_pushAll u m args,
    ← faultOf_push u m target]
  refine faultOf_bind fun owner => ?_
  by_cases hkind : kind = .static
  · rw [if_pos (by simpa using hkind), if_pos hkind, Option.none_or]
    exact faultOf_map
  · rw [if_neg (by simpa using hkind), if_neg hkind]
    exact faultOf_bind fun object => faultOf_map

theorem write_failsWith (code : Except EmitError (List Asm)) :
    (write code : Emit Unit).FailsWith (faultOf code) :=
  (Stage.FailsWith.ofExcept code).before fun _ => .emitAll _

theorem write_push_failsWith (o : Operand) :
    (write ((Frame.of u m).push o) : Emit Unit).FailsWith (o.fault? m) := by
  rw [← faultOf_push u m o]
  exact write_failsWith _

theorem write_call_failsWith (kind : CallKind) (target : Operand) (method : String)
    (args : List Operand) (params : Option (List Ty)) (ty : Ty) :
    (write ((Frame.of u m).call kind target method args params ty) : Emit Unit).FailsWith
      (target.callFault? m kind args) := by
  rw [← faultOf_call u m kind target method args params ty]
  exact write_failsWith _

theorem register_failsWith (x : String) :
    (Stage.ofExcept ((Frame.of u m).register x) : Emit UInt16).FailsWith (m.unknown? x) := by
  rw [← faultOf_register u m x]
  exact .ofExcept _

theorem operator_failsWith (op : BinOp) : (operator op).FailsWith none := by
  cases op with
  | lt => exact .after (.update _) fun _ => .emitAll _
  | add | sub | mul | div | and => exact .emit _

theorem value_failsWith (i : Instr) : ((Frame.of u m).value i).FailsWith (i.valueFault? m) := by
  cases i with
  | value o => exact write_push_failsWith u m o
  | not o t => exact (write_push_failsWith u m o).before fun _ => .emitAll _
  | binary op l r t =>
    exact (write_push_failsWith u m l).bind fun _ =>
      (write_push_failsWith u m r).before fun _ => operator_failsWith op
  | call kind target method args params ty =>
    rw [value, Instr.valueFault?]
    by_cases hty : ty = .void
    · rw [if_pos (by simpa using hty), if_pos hty]
      exact .fail _
    · rw [if_neg (by simpa using hty), if_neg hty]
      exact write_call_failsWith u m _ _ _ _ _ _
  | newObject c => exact .emit _
  | newArray o t => exact (write_push_failsWith u m o).before fun _ => .emit _
  | length o => exact (write_push_failsWith u m o).before fun _ => .emit _
  | getField field t => exact .emitAll _
  | assign | putField | goto | branch | label | ret => exact .fail _

theorem instr_failsWith (i : Instr) : ((Frame.of u m).instr i).FailsWith (i.fault? m) := by
  cases i with
  -- The order matters: a variable is looked up behind its value, the array of an item before it.
  | assign dest ty rhs =>
    cases dest with
    | literal | cls => exact .fail _
    | var x t p =>
      exact (value_failsWith u m rhs).bind fun _ =>
        (register_failsWith u m x).before fun _ => .emit _
    | item x index t p =>
      exact (register_failsWith u m x).bind fun _ => .after (.emit _) fun _ =>
        (write_push_failsWith u m index).bind fun _ =>
          (value_failsWith u m rhs).before fun _ => .emit _
  | call kind target method args params ty =>
    refine (write_call_failsWith u m kind target method args params ty).before fun _ => ?_
    split
    · exact .emit _
    · exact .pure _
  | putField field v =>
    cases field with
    | var x t p =>
      exact .after (.emit _) fun _ => (write_push_failsWith u m v).before fun _ => .emit _
    | literal | item | cls => exact .fail _
  | goto | label => exact .emit _
  | branch c l => exact (write_push_failsWith u m c).before fun _ => .emit _
  | ret ty o =>
    by_cases hty : ty = .void
    · subst hty
      exact .emit _
    · cases o with
      | none =>
        simp only [instr, Instr.fault?]
        exact .fail _
      | some o =>
        simp only [instr, Instr.fault?]
        exact (write_push_failsWith u m o).before fun _ => .emit _
  | value | not | binary | newObject | newArray | length | getField =>
    exact (value_failsWith u m _).before fun _ => .emit _

theorem blocks_failsWith (is : List Instr) :
    ((Frame.of u m).blocks is).FailsWith (is.findSome? (Instr.fault? m)) := by
  induction is with
  | nil => exact .pure _
  | cons i is ih =>
    rw [findSome?_cons_or]
    exact (instr_failsWith u m i).collect.bind fun _ => .after (.emit _) fun _ => ih

end Frame

theorem methodPieces_failsWith (u : ClassUnit) (m : Method) :
    (methodPieces u m).FailsWith (m.code.findSome? (Instr.fault? m)) :=
  .after (.emit _) fun _ => (Frame.blocks_failsWith u m m.code).before fun _ => .emit _

theorem methodsPieces_failsWith (u : ClassUnit) (ms : List Method) :
    (methodsPieces u ms).FailsWith (ms.findSome? fun m => m.code.findSome? (Instr.fault? m)) := by
  induction ms with
  | nil => exact .pure _
  | cons m ms ih =>
    rw [findSome?_cons_or]
    exact (methodPieces_failsWith u m).bind fun _ => ih

/-- A new text is made unless there is a fault. -/
theorem Emitter.faultOf_build {e : Emitter} (he : e.text = none) : faultOf e.build.result =
    e.unit.emissionOrder.findSome? fun m => m.code.findSome? (Instr.fault? m) := by
  have hpieces := methodsPieces_failsWith e.unit e.unit.emissionOrder e.comparisons
  rw [← hpieces]
  show _ = faultOf (e.unit.pieces.run e.comparisons).result
  rcases hrun : e.unit.pieces.run e.comparisons with ⟨fault | _, n, out⟩
  · simp only [build, he, hrun, faultOf]
  · simp only [build, he, hrun, faultOf]

end Assembly

namespace Ir

open Assembly

/-! ## The first fault -/

/-- The instruction is the first of the class that is not well formed. Constructors come first, then
the other methods in order. -/
structure ClassUnit.FirstIllFormed (u : ClassUnit) (m : Method) (i : Instr) : Prop where
  method : ∃ before after, u.emissionOrder = before ++ m :: after ∧ ∀ m' ∈ before, m'.WellFormed
  instr : ∃ before after, m.code = before ++ i :: after ∧ ∀ j ∈ before, j.WellFormed m.context
  ill : ¬i.WellFormed m.context

theorem Method.findSome?_fault?_eq_none_iff {m : Method} :
    m.code.findSome? (Instr.fault? m) = none ↔ m.WellFormed := by
  simp only [List.findSome?_eq_none_iff, Instr.fault?_eq_none_iff, WellFormed]

theorem ClassUnit.findSome?_fault?_eq_some_iff {u : ClassUnit} {e : EmitError} :
    (u.emissionOrder.findSome? fun m => m.code.findSome? (Instr.fault? m)) = some e ↔
      ∃ m i, u.FirstIllFormed m i ∧ i.fault? m = some e := by
  constructor
  · intro h
    obtain ⟨before, m, after, hmethod, hm, hbefore⟩ := List.findSome?_eq_some_iff.1 h
    obtain ⟨first, i, rest, hinstr, hi, hfirst⟩ := List.findSome?_eq_some_iff.1 hm
    refine ⟨m, i, ⟨⟨before, after, hmethod, ?_⟩, ⟨first, rest, hinstr, ?_⟩, ?_⟩, hi⟩
    · exact fun m' hm' => Method.findSome?_fault?_eq_none_iff.1 (hbefore m' hm')
    · exact fun j hj => Instr.fault?_eq_none_iff.1 (hfirst j hj)
    · rw [← Instr.fault?_eq_none_iff, hi]
      exact Option.some_ne_none e
  · rintro ⟨m, i, ⟨⟨before, after, hmethod, hbefore⟩, ⟨first, rest, hinstr, hfirst⟩, -⟩, hi⟩
    have hm : m.code.findSome? (Instr.fault? m) = some e :=
      List.findSome?_eq_some_iff.2
        ⟨first, i, rest, hinstr, hi, fun j hj => Instr.fault?_eq_none_iff.2 (hfirst j hj)⟩
    exact List.findSome?_eq_some_iff.2
      ⟨before, m, after, hmethod, hm,
        fun m' hm' => Method.findSome?_fault?_eq_none_iff.2 (hbefore m' hm')⟩

/-- What a method assigns to has a register, unless its table was frozen before. -/
theorem Method.targets_of_fresh {m : Method} (hfresh : m.frozen = none) {dest : Operand} {ty : Ty}
    {rhs : Instr} (hi : .assign dest ty rhs ∈ m.code) {x : String} (hx : dest.name? = some x) :
    m.context.targets x := by
  have hassigned : ∃ t, (Instr.assign dest ty rhs).assigned? = some ⟨x, t⟩ := by
    cases dest with
    | var y t p => exact ⟨ty, by rw [Instr.assigned?, Option.some.inj hx]⟩
    | item y i t p => exact ⟨.array ty, by rw [Instr.assigned?, Option.some.inj hx]⟩
    | literal | cls => cases hx
  obtain ⟨t, ht⟩ := hassigned
  have hdeclared : (⟨x, t⟩ : Symbol) ∈ m.declarations :=
    List.mem_append_right _ (List.mem_filterMap.2 ⟨_, hi, ht⟩)
  show (m.registers.get? x).isSome = true
  rw [Method.registers, hfresh, Option.getD_none, RegisterTable.isSome_get?_ofDeclarations]
  exact List.mem_map.2 ⟨_, hdeclared, rfl⟩

end Ir

namespace Assembly

open Ir

/-- **Emission succeeds exactly on well-formed code.** Whatever a class is made of, an emitter that
has no text yet makes one exactly if all instructions of all methods are well formed. Otherwise it
stops with the fault of the first instruction that is not, constructors first. That a target of an
assignment needs a register matters only for methods whose registers were fixed before. -/
theorem build_ok_iff_wellFormed (u : ClassUnit) (limits : Limits) (n : Nat) :
    ((∃ text, (Emitter.build { unit := u, limits, comparisons := n }).result = .ok text) ↔
      ∀ m ∈ u.methods, ∀ i ∈ m.code, i.WellFormed m.context) ∧
    (∀ e, (Emitter.build { unit := u, limits, comparisons := n }).result = .error e ↔
      ∃ m i, u.FirstIllFormed m i ∧ i.fault? m = some e) ∧
    ∀ m ∈ u.methods, m.frozen = none → ∀ dest ty rhs, .assign dest ty rhs ∈ m.code →
      ∀ x, dest.name? = some x → m.context.targets x := by
  have hfault := Emitter.faultOf_build (e := { unit := u, limits, comparisons := n }) rfl
  refine ⟨?_, fun e => ?_, fun m _ hfresh dest ty rhs hi x hx =>
    Method.targets_of_fresh hfresh hi hx⟩
  · rw [← faultOf_eq_none_iff, hfault, List.findSome?_eq_none_iff]
    simp only [Method.findSome?_fault?_eq_none_iff, mem_emissionOrder]
    rfl
  · rw [← faultOf_eq_some_iff, hfault, ClassUnit.findSome?_fault?_eq_some_iff]

end Assembly

namespace Crate

open Ir Assembly

/-- A static method that pushes `this[0]`. -/
def peek : Method where
  name := "peek"
  className := "Crate"
  isStatic := true
  returnTy := .void
  code := [.value (.item "this" (.literal 0 .int) .int none)]

/-- A constructor that runs the one of the superclass and then returns no `int`. -/
def construct : Method where
  name := "<init>"
  className := "Crate"
  isConstructor := true
  returnTy := .void
  code := [.call .special (.this "Crate") "<init>" [] (some []) .void, .ret .int none]

/-- The constructor stands behind a method that cannot be emitted either. -/
def unit : ClassUnit where
  name := "Crate"
  methods := [peek, construct]

theorem constructor_fails_first : unit.FirstIllFormed construct (.ret .int none) ∧
    (Emitter.build { unit, comparisons := 3 }).result =
      .error (.missingReturnValue "int" "<init>") := by
  have hcall : (Instr.call .special (.this "Crate") "<init>" [] (some []) .void).WellFormed
      construct.context :=
    ⟨.inr (.inl ⟨rfl, rfl, rfl⟩), fun _ => .inl rfl, List.forall_mem_nil _⟩
  have hret : ¬(Instr.ret .int none).WellFormed construct.context := by
    simp [Instr.WellFormed]
  have hfirst : unit.FirstIllFormed construct (.ret .int none) :=
    ⟨⟨[], [peek], rfl, List.forall_mem_nil _⟩,
      ⟨_, [], rfl, List.forall_mem_singleton.2 hcall⟩, hret⟩
  exact ⟨hfirst, ((build_ok_iff_wellFormed unit {} 3).2.1 _).2 ⟨_, _, hfirst, rfl⟩⟩

end Crate

/-! ## What is not enough -/

namespace Ir

/-- The registers of a method, and more: also the items of `this` can be pushed without a register,
and every variable can be assigned to. -/
def Method.looseContext (m : Method) : Context where
  vars x := x = "this" ∨ m.hasRegister x = true
  arrays x := x = "this" ∨ m.hasRegister x = true
  targets _ := True
  inConstructor := m.isConstructor

end Ir

namespace Crate

open Ir Assembly

/-- A method that assigns `1` to a variable, after its registers were asked for without it. -/
def fill : Method where
  name := "fill"
  className := "Crate"
  isStatic := true
  returnTy := .void
  code := [.assign (.plain "x" .int) .int (.value (.literal 1 .int))]
  frozen := some .empty

/-- It is not enough that `this` or a register stands behind every name that is pushed and that
assignments go to variables and items: an item of `this` needs a register, and so does a target. -/
theorem loose_not_emitted :
    (∀ m ∈ [peek, fill], ∀ i ∈ m.code, i.WellFormed m.looseContext) ∧
    emit { name := "Crate", methods := [peek] } {} = .error (.unknownOperand "this" "peek") ∧
    emit { name := "Crate", methods := [fill] } {} = .error (.unknownOperand "x" "fill") := by
  refine ⟨?_, rfl, rfl⟩
  simp [peek, fill, Instr.WellFormed, Instr.GivesValue, Operand.Assignable, Operand.Pushable,
    Operand.plain, Method.looseContext]

end Crate

end MiniJava
