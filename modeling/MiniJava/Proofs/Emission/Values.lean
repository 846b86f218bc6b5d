import MiniJava.Proofs.Ir.Registers
import MiniJava.Proofs.Names
import MiniJava.Proofs.Semantics.Runtime

/-!
# Emitted code leaves values on the stack

The code of an operand pushes its value, the code of a call pops the object and the arguments, and
the code of an instruction that gives a value leaves it on the stack (`Frame.realizes_value`). What
was on the stack before stays below.

What the machine asks of the world are the operations of the code as they are at run time
(`Ir.Op.runtime`). This holds for each instruction that asks for one: the classes, the descriptors
and the kinds of items that the emitter writes are the right ones.
-/

namespace MiniJava.Assembly

open Ir

/-! ## Instructions for operations -/

/-- The instruction that the code of a call ends in. -/
def invocation (u : ClassUnit) (m : Method) (kind : CallKind) (target : Operand) (method : String)
    (params : List Ty) (ty : Ty) : Asm :=
  .invoke kind (calledClass u m kind target) method (params.map u.descriptor) (u.descriptor ty)

theorem descriptor_eq_void_iff {u : ClassUnit} {ty : Ty} :
    u.descriptor ty = .void ↔ ty = .void := by
  cases ty <;> simp [ClassUnit.descriptor]

theorem classPath_self (u : ClassUnit) : u.classPath u.name = u.name := by
  unfold ClassUnit.classPath
  split <;> simp

/-- The emitter finds the class that a call goes to. -/
theorem Frame.owner_eq {f : Frame} {kind : CallKind} {target : Operand} {owner : String}
    (h : f.owner kind target = .ok owner) : owner = calledClass f.unit f.method kind target := by
  unfold Frame.owner at h
  split at h
  · injection h with h
    simp [calledClass, Operand.ty, ← ClassUnit.classPath_eq_runtimeName, h]
  · split at h
    · next hsuper =>
      injection h with h
      simp only [Bool.and_eq_true, beq_iff_eq] at hsuper
      simp [calledClass, hsuper, ← ClassUnit.superPath_eq_runtimeSuper, h]
    · next hsuper =>
      have hplain : ¬(kind = .special ∧ target.isThis = true ∧ f.method.isConstructor = true) := by
        simpa [and_assoc] using hsuper
      split at h
      · next name hname =>
        injection h with h
        simp [calledClass, hplain, hname, ← ClassUnit.classPath_eq_runtimeName, h]
      · cases h

section

variable {O : Type} {view : Op → O} {W : World O}

theorem exec_invocation (u : ClassUnit) (m : Method) (kind : CallKind) (target : Operand)
    (method : String) (params : List Ty) (ty : Ty) (d : Memory W) :
    (invocation u m kind target method params ty).exec view W d =
      d.ask (view (Ir.Op.runtime u m (.call kind target method params ty)))
        ((if kind = .static then 0 else 1) + params.length) (ty ≠ .void) := by
  have hparams : params.map u.descriptor = params.map u.runtimeType :=
    List.map_congr_left fun t _ => u.descriptor_eq_runtimeType t
  simp only [invocation, Asm.exec, List.length_map, ne_eq, descriptor_eq_void_iff]
  rw [hparams, u.descriptor_eq_runtimeType, Ir.Op.runtime]

theorem exec_newObject (u : ClassUnit) (m : Method) (c : String) (d : Memory W) :
    (Asm.newObject (u.classPath c)).exec view W d =
      d.ask (view (Ir.Op.runtime u m (.newObject c))) 0 true := by
  rw [Asm.exec, u.classPath_eq_runtimeName, Ir.Op.runtime]

theorem exec_getfield (u : ClassUnit) (m : Method) (x : String) (ty : Ty) (d : Memory W) :
    (Asm.getfield (u.classPath u.name) x (u.descriptor ty)).exec view W d =
      d.ask (view (Ir.Op.runtime u m (.getField x ty))) 1 true := by
  rw [Asm.exec, classPath_self, u.descriptor_eq_runtimeType, Ir.Op.runtime]

theorem exec_putfield (u : ClassUnit) (m : Method) (x : String) (ty : Ty) (d : Memory W) :
    (Asm.putfield (u.classPath u.name) x (u.descriptor ty)).exec view W d =
      d.ask (view (Ir.Op.runtime u m (.putField x ty))) 2 false := by
  rw [Asm.exec, classPath_self, u.descriptor_eq_runtimeType, Ir.Op.runtime]

theorem exec_loadItem (u : ClassUnit) (m : Method) (ty : Ty) (d : Memory W) :
    (Asm.loadItem ty).exec view W d = d.ask (view (Ir.Op.runtime u m (.readItem ty))) 2 true := by
  cases ty <;> rfl

theorem exec_storeItem (u : ClassUnit) (m : Method) (ty : Ty) (d : Memory W) :
    (Asm.storeItem ty).exec view W d = d.ask
      (view (Ir.Op.runtime u m (.writeItem ty))) 3 false := by
  cases ty <;> rfl

theorem exec_makeArray (u : ClassUnit) (m : Method) (ty : Ty) (d : Memory W) :
    (makeArray u ty).exec view W d = d.ask (view (Ir.Op.runtime u m (.newArray ty))) 1 true := by
  have hitems : ∀ e, (u.descriptor e).text = (u.runtimeType e).text := fun e => by
    rw [u.descriptor_eq_runtimeType]
  cases ty with
  | int | bool | str | void | cls => rfl
  | array e =>
    cases e with
    | int | bool => rfl
    | cls name =>
      simp only [makeArray, Asm.exec, ClassUnit.itemName, u.classPath_eq_runtimeName]
      rfl
    | str | void | array =>
      simp only [makeArray, Asm.exec, ClassUnit.itemName, hitems]
      rfl

end

/-! ## Registers -/

/-- The registers hold the values of the variables. -/
def Represents {O : Type} {W : World O} (t : RegisterTable) (ρ : Env W)
    (regs : UInt16 → Option (Value W.Ref)) : Prop :=
  ∀ ⦃x r⦄, t.get? x = some r → regs r.index = ρ x

/-- A store in the register of a variable sets the variable and no other. -/
theorem Represents.set {O : Type} {W : World O} {t : RegisterTable} {isStatic : Bool} {ρ : Env W}
    {regs : UInt16 → Option (Value W.Ref)} {x : String} {r : Register} {v : Value W.Ref}
    (h : Represents t ρ regs) (ht : t.Sound isStatic) (hx : t.get? x = some r) :
    Represents t (ρ.set x v) fun k => if k = r.index then some v else regs k := by
  intro y s hy
  by_cases hxy : y = x
  · subst hxy
    obtain rfl : s = r := Option.some.inj (hy.symm.trans hx)
    simp
  · have hne : s.index ≠ r.index := fun heq => hxy (ht.index_inj hy hx heq)
    rw [Env.set_of_ne _ _ hxy, ← h hy]
    exact if_neg hne

end MiniJava.Assembly

namespace MiniJava.Ir

/-! ## Use of the object that a method runs on -/

/-- The operand names `this`. -/
def Operand.mentionsThis : Operand → Bool
  | .var x _ _ => x == "this"
  | .item x i _ _ => x == "this" || i.mentionsThis
  | .literal .. | .cls _ => false

/-- The instruction reads `this`, or reads or writes a field. -/
def Instr.usesObject : Instr → Bool
  | .assign (.item x i t p) _ rhs => (Operand.item x i t p).mentionsThis || rhs.usesObject
  | .assign _ _ rhs => rhs.usesObject
  | .value o | .not o _ | .newArray o _ | .length o | .branch o _
      | .ret _ (some o) => o.mentionsThis
  | .binary _ l r _ => l.mentionsThis || r.mentionsThis
  | .call _ target _ args _ _ => target.mentionsThis || args.any Operand.mentionsThis
  | .getField .. | .putField .. => true
  | .newObject _ | .goto _ | .label _ | .ret _ none => false

/-- Control goes on behind the instruction. -/
def Instr.goesOn : Instr → Bool
  | .goto _ | .branch .. | .ret .. => false
  | _ => true

/-- A call with declared parameters has an argument for each. -/
def Instr.arityFits : Instr → Bool
  | .assign _ _ rhs => rhs.arityFits
  | .call _ _ _ args (some ps) _ => ps.length == args.length
  | _ => true

end MiniJava.Ir

namespace MiniJava.Assembly

open Ir

/-! ## Operands -/

section

variable {O : Type} {view : Op → O} {W : World O} {f : Frame} {prog : List Asm} {pc : Nat}
  {ρ : Env W} {stk : List (Value W.Ref)} {regs : UInt16 → Option (Value W.Ref)}

/-- The state after `code` has left a value on the stack. -/
def Left (pc : Nat) (code : List Asm) (stk : List (Value W.Ref))
    (regs : UInt16 → Option (Value W.Ref)) (v : Value W.Ref) (s : Control (Memory W)) : Prop :=
  s = ⟨pc + code.length, v :: stk, regs⟩

theorem Left.of {code : List Asm} {v : Value W.Ref} {p : Nat} (hp : p = pc + code.length) :
    Left pc code stk regs v ⟨p, v :: stk, regs⟩ := by
  rw [Left, hp]

theorem realizes_load {i : Asm} {r : UInt16} {x : String} (hi : prog[pc]? = some i)
    (hexec : ∀ d, i.exec view W d = d.load r) (hr : regs r = ρ x) :
    (machine view W).Realizes prog ⟨pc, stk, regs⟩ (ρ.read x) (Left pc [i] stk regs) := by
  rcases hv : ρ x with _ | v
  · rw [Env.read, hv]
    exact .stuck
  · rw [Env.read_of_some hv]
    refine .of_reaches (fun h => .next hi ((hexec _).trans (Memory.load_eq ?_))) (.pure rfl)
    rw [hr, hv]

/-- An instruction that asks the world, with its operands on the stack. -/
theorem realizes_ask (vs : List (Value W.Ref)) {i : Asm} {op : O} {n : Nat} {leaves : Bool}
    (hi : prog[pc]? = some i) (hexec : ∀ d, i.exec view W d = d.ask op n leaves)
    (hn : n = vs.length) :
    (machine view W).Realizes prog ⟨pc, vs.reverse ++ stk, regs⟩ (W.request op vs)
      fun v s => s = ⟨pc + 1, if leaves then v :: stk else stk, regs⟩ :=
  .next hi ((hexec _).trans (Memory.ask_eq op hn leaves))

namespace Frame

theorem register_ok {x : String} {r : UInt16} (h : f.register x = .ok r) :
    ∃ reg, f.registers.get? x = some reg ∧ reg.index = r := by
  unfold register at h
  split at h
  · next reg hreg =>
    injection h with h
    exact ⟨reg, hreg, h⟩
  · cases h

theorem bind_ok {α β : Type} {x : Except EmitError α} {g : α → Except EmitError β} {b : β}
    (h : x >>= g = .ok b) : ∃ a, x = .ok a ∧ g a = .ok b := by
  cases x with
  | error e => cases h
  | ok a => exact ⟨a, rfl, h⟩

/-- The parts of the code of a call. -/
theorem call_ok {kind : CallKind} {target : Operand} {method : String} {args : List Operand}
    {params : Option (List Ty)} {ty : Ty} {code : List Asm}
    (h : f.call kind target method args params ty = .ok code) :
    ∃ object pushed, (if kind == .static then .ok [] else f.push target) = .ok object ∧
      f.pushAll args = .ok pushed ∧ code = object ++ (pushed ++
        [invocation f.unit f.method kind target method
          (params.getD (args.map Operand.ty)) ty]) := by
  obtain ⟨owner, howner, h⟩ := bind_ok h
  obtain rfl := owner_eq howner
  by_cases hkind : (kind == .static) = true
  all_goals
    simp only [hkind] at h ⊢
    obtain ⟨object, hobject, h⟩ := bind_ok h
    obtain ⟨pushed, hpushed, h⟩ := bind_ok h
    injection h with h
    exact ⟨object, pushed, hobject, hpushed, by rw [← h, List.append_assoc]; rfl⟩

variable (hf : f.registers.Sound f.method.isStatic) (hrep : Represents f.registers ρ regs)
include hf hrep

theorem realizes_this (hthis : f.method.isStatic = false) (hi : prog[pc]? = some .aload0) :
    (machine view W).Realizes prog ⟨pc, stk, regs⟩ (ρ.read "this")
    (Left pc [.aload0] stk regs) := by
  obtain ⟨r, hr, hzero⟩ := hf.this hthis
  refine realizes_load hi (fun _ => rfl) ?_
  rw [← hrep hr, hzero]

/-- The code of an operand pushes its value. -/
theorem realizes_push {o : Operand} {code : List Asm} (hpush : f.push o = .ok code)
    (hthis : o.mentionsThis = true → f.method.isStatic = false) (hcode : CodeAt prog pc code) :
    (machine view W).Realizes prog ⟨pc, stk, regs⟩
      (o.read (view ∘ Ir.Op.runtime f.unit f.method) W ρ) (Left pc code stk regs) := by
  induction o generalizing pc stk code with
  | literal v ty =>
    injection hpush with hpush
    subst hpush
    exact .of_reaches (fun h => .next hcode.head rfl) (.pure rfl)
  | var x ty p =>
    rw [push] at hpush
    -- The object of the method is not looked up: it is in register 0 by convention.
    split at hpush
    · next hx =>
      injection hpush with hpush
      subst hpush
      rw [Operand.read, beq_iff_eq.1 hx]
      exact realizes_this hf hrep (hthis hx) hcode.head
    · obtain ⟨r, hr, hpush⟩ := bind_ok hpush
      injection hpush with hpush
      subst hpush
      obtain ⟨reg, hreg, rfl⟩ := register_ok hr
      exact realizes_load hcode.head (Asm.exec_load ty _) (hrep hreg)
  | item x i ty p ih =>
    obtain ⟨r, hr, hpush⟩ := bind_ok hpush
    obtain ⟨index, hindex, hpush⟩ := bind_ok hpush
    injection hpush with hpush
    subst hpush
    obtain ⟨reg, hreg, rfl⟩ := register_ok hr
    rw [Operand.read]
    -- First the array, then the index, then the request for the item that takes both off the stack.
    refine (realizes_load hcode.head (fun _ => rfl) (hrep hreg)).bind ?_
    rintro array _ rfl
    have hi : i.mentionsThis = true → f.method.isStatic = false :=
      fun h => hthis (by simp [Operand.mentionsThis, h])
    refine (ih hindex hi hcode.tail.left).bind ?_
    rintro place _ rfl
    refine (realizes_ask [array, place] hcode.tail.right.head
      (exec_loadItem f.unit f.method ty) rfl).mono ?_
    rintro v _ rfl
    exact .of (by simp; omega)
  -- A class is no value: to read one is stuck, and nothing has to be shown.
  | cls c => exact .stuck

theorem realizes_pushAll {os : List Operand} {code : List Asm} (hpush : f.pushAll os = .ok code)
    (hthis : os.any Operand.mentionsThis = true → f.method.isStatic = false)
    (hcode : CodeAt prog pc code) :
    (machine view W).Realizes prog ⟨pc, stk, regs⟩
      (Operand.readAll (view ∘ Ir.Op.runtime f.unit f.method) W ρ os)
      fun vs s => s = ⟨pc + code.length, vs.reverse ++ stk, regs⟩ ∧ vs.length = os.length := by
  induction os generalizing pc stk code with
  | nil =>
    injection hpush with hpush
    subst hpush
    exact .pure ⟨rfl, rfl⟩
  | cons o os ih =>
    obtain ⟨k₁, hk₁, hpush⟩ := bind_ok hpush
    obtain ⟨k₂, hk₂, hpush⟩ := bind_ok hpush
    injection hpush with hpush
    subst hpush
    rw [Operand.readAll]
    refine (realizes_push hf hrep hk₁ (fun h => hthis (by simp [h])) hcode.left).bind ?_
    rintro v _ rfl
    refine (ih hk₂ (fun h => hthis (by rw [List.any_cons, h, Bool.or_true])) hcode.right).bind ?_
    rintro vs _ ⟨rfl, hlen⟩
    exact .pure ⟨by simp [Nat.add_assoc], by simp [hlen]⟩

theorem realizes_receiver {kind : CallKind} {target : Operand} {code : List Asm}
    (hobject : (if kind == .static then .ok [] else f.push target) = .ok code)
    (hthis : target.mentionsThis = true → f.method.isStatic = false) (hcode : CodeAt prog pc code) :
    (machine view W).Realizes prog ⟨pc, stk, regs⟩
      (receiver (view ∘ Ir.Op.runtime f.unit f.method) W ρ kind target)
      fun vs s => s = ⟨pc + code.length, vs.reverse ++ stk, regs⟩ ∧
        vs.length = if kind = .static then 0 else 1 := by
  rw [receiver]
  by_cases hkind : kind = .static
  · simp only [hkind, beq_self_eq_true, if_true, Except.ok.injEq] at hobject
    subst hobject
    simp only [hkind, if_true]
    exact .pure ⟨rfl, rfl⟩
  · simp only [hkind, beq_iff_eq, if_false] at hobject ⊢
    refine (realizes_push hf hrep hobject hthis hcode).bind ?_
    rintro v _ rfl
    exact .pure ⟨rfl, rfl⟩

/-- The code of a call pops the object and the arguments and leaves the result, if there is one. -/
theorem realizes_call {kind : CallKind} {target : Operand} {method : String} {args : List Operand}
    {params : Option (List Ty)} {ty : Ty} {code : List Asm}
    (hcall : f.call kind target method args params ty = .ok code)
    (hthis : (target.mentionsThis || args.any Operand.mentionsThis) = true →
      f.method.isStatic = false)
    (harity : (Instr.call kind target method args params ty).arityFits = true)
    (hcode : CodeAt prog pc code) :
    (machine view W).Realizes prog ⟨pc, stk, regs⟩
      (invoke (view ∘ Ir.Op.runtime f.unit f.method) W ρ kind target method args params ty)
      fun v s => s = ⟨pc + code.length, if ty = .void then stk else v :: stk, regs⟩ := by
  obtain ⟨object, pushed, hobject, hpushed, rfl⟩ := call_ok hcall
  -- As many values are taken off the stack as the descriptor has parameters.
  have hparams : (params.getD (args.map Operand.ty)).length = args.length := by
    cases params with
    | none => simp
    | some ps => simpa [Instr.arityFits] using harity
  refine (realizes_receiver hf hrep hobject (fun h => hthis (by simp [h])) hcode.left).bind ?_
  rintro os _ ⟨rfl, hos⟩
  refine (realizes_pushAll hf hrep hpushed (fun h => hthis (by rw [h, Bool.or_true]))
    hcode.right.left).bind ?_
  rintro vs _ ⟨rfl, hvs⟩
  -- The object lies below the arguments, so all of them together are popped in order.
  have hstack : vs.reverse ++ (os.reverse ++ stk) = (os ++ vs).reverse ++ stk := by simp
  rw [hstack]
  refine (realizes_ask (os ++ vs) hcode.right.right.head (exec_invocation _ _ _ _ _ _ _) ?_).mono ?_
  · rw [hparams, List.length_append, hos, hvs]
  · rintro v _ rfl
    by_cases hty : ty = .void <;> simp [hty, Nat.add_assoc]

end Frame

/-! ## Operators -/

theorem write_ok_iff {x : Except EmitError (List Asm)} {n n' : Nat} {code : List Asm} :
    (write x).run n = ⟨.ok (), n', code⟩ ↔ x = .ok code ∧ n' = n := by
  rw [write]
  cases x with
  | error e => simp
  | ok k =>
    simp only [Stage.ofExcept_ok, pure_bind, Stage.emitAll_run, Outcome.mk.injEq, Except.ok.injEq,
      true_and]
    grind

theorem write_bind_ok {x : Except EmitError (List Asm)} {g : Unit → Emit Unit} {n n' : Nat}
    {code : List Asm} (h : (write x >>= g).run n = ⟨.ok (), n', code⟩) :
    ∃ k rest, x = .ok k ∧ (g ()).run n = ⟨.ok (), n', rest⟩ ∧ code = k ++ rest := by
  obtain ⟨_, _, k, rest, hwrite, hg, rfl⟩ := Stage.bind_ok_iff.1 h
  obtain ⟨hx, rfl⟩ := write_ok_iff.1 hwrite
  exact ⟨k, rest, hx, hg, rfl⟩

section

variable (hlabels : (labels prog).Nodup)
include hlabels

/-- The label that stands at `pc` is found there. -/
theorem labelAt_of_getElem? {l : String} (hi : prog[pc]? = some (.label l)) :
    (machine view W).labelAt prog l = some pc :=
  Machine.labelAt_of_nodup hlabels hi rfl

theorem realizes_comparison {n : Nat} (hcode : CodeAt prog pc (comparison n)) (a b : Int32) :
    (machine view W).Realizes prog ⟨pc, .int b :: .int a :: stk, regs⟩ (pure (.ofBool (a < b)))
      (Left pc (comparison n) stk regs) := by
  -- The six lines are: the test, `0`, the jump to the end, the first label, `1`, the second label.
  have htrue : (machine view W).labelAt prog (trueLabel n) = some (pc + 3) :=
    labelAt_of_getElem? hlabels hcode.tail.tail.tail.head
  have hdone : (machine view W).labelAt prog (doneLabel n) = some (pc + 5) :=
    labelAt_of_getElem? hlabels hcode.tail.tail.tail.tail.tail.head
  -- Both ways meet at the last line.
  have hlast : ∀ d h, (machine view W).Reaches prog ⟨pc + 5, d⟩ h [] ⟨pc + 6, d⟩ h :=
    fun d h => .next hcode.tail.tail.tail.tail.tail.head rfl
  by_cases hlt : a < b
  · have hjump : (machine view W).exec (.ifIcmplt (trueLabel n)) ⟨.int b :: .int a :: stk, regs⟩ =
        pure (.jump (trueLabel n) ⟨stk, regs⟩) := by
      simp [machine, Asm.exec, hlt]
    refine .of_reaches (fun h => ((Machine.Reaches.jump hcode.head hjump htrue).skip
      (.next hcode.tail.tail.tail.head rfl)).skip
      ((Machine.Reaches.next hcode.tail.tail.tail.tail.head rfl).skip (hlast _ h))) (.pure ?_)
    rw [Value.ofBool, decide_eq_true hlt]
    rfl
  · have hnext : (machine view W).exec (.ifIcmplt (trueLabel n)) ⟨.int b :: .int a :: stk, regs⟩ =
        pure (.next ⟨stk, regs⟩) := by
      simp [machine, Asm.exec, hlt]
    refine .of_reaches (fun h => ((Machine.Reaches.next hcode.head hnext).skip
      (.next hcode.tail.head rfl)).skip
      ((Machine.Reaches.jump hcode.tail.tail.head rfl hdone).skip (hlast _ h))) (.pure ?_)
    rw [Value.ofBool, decide_eq_false hlt]
    rfl

/-- The code of an operator works on the two topmost values. -/
theorem realizes_operator {op : BinOp} {n n' : Nat} {code : List Asm}
    (hop : (operator op).run n = ⟨.ok (), n', code⟩) (hcode : CodeAt prog pc code)
    (a b : Value W.Ref) :
    (machine view W).Realizes prog ⟨pc, b :: a :: stk, regs⟩ (op.apply W a b)
    (Left pc code stk regs) := by
  -- Only integers have a sum, a comparison and so on.
  cases a with
  | ref r => cases op <;> exact .stuck
  | int a =>
    cases b with
    | ref r => cases op <;> exact .stuck
    | int b =>
      cases op with
      | lt =>
        injection hop with _ _ hcomparison
        subst hcomparison
        exact realizes_comparison hlabels hcode a b
      | add | sub | mul | div | and =>
        obtain ⟨-, rfl⟩ := Stage.emit_ok_iff.1 hop
        exact .next hcode.head rfl

/-! ## Values -/

/-- The code of an instruction that gives a value leaves the value on the stack. -/
theorem Frame.realizes_value (hf : f.registers.Sound f.method.isStatic)
    (hrep : Represents f.registers ρ regs) {i : Instr} {n n' : Nat} {code : List Asm}
    (hvalue : (f.value i).run n = ⟨.ok (), n', code⟩)
    (hthis : i.usesObject = true → f.method.isStatic = false) (harity : i.arityFits = true)
    (hcode : CodeAt prog pc code) :
    (machine view W).Realizes prog ⟨pc, stk, regs⟩
      (i.compute (view ∘ Ir.Op.runtime f.unit f.method) W ρ) (Left pc code stk regs) := by
  cases i with
  | value o => exact realizes_push hf hrep (write_ok_iff.1 hvalue).1 hthis hcode
  -- Only a number can be negated, so a reference leaves nothing to show.
  | not o ty =>
    obtain ⟨k, _, hpush, hrest, rfl⟩ := write_bind_ok hvalue
    injection hrest with _ _ hrest
    subst hrest
    refine (realizes_push hf hrep hpush hthis hcode.left).bind ?_
    rintro v _ rfl
    cases v with
    | ref r => exact .stuck
    | int a =>
      refine .of_reaches (fun h => (Machine.Reaches.next hcode.right.head rfl).skip
        (.next hcode.right.tail.head rfl)) (.pure (.of ?_))
      simp [Nat.add_assoc]
  | binary op l r ty =>
    obtain ⟨k₁, _, hl, hrest, rfl⟩ := write_bind_ok hvalue
    obtain ⟨k₂, k₃, hr, hop, rfl⟩ := write_bind_ok hrest
    refine (realizes_push hf hrep hl (fun h => hthis (by simp [Instr.usesObject, h]))
      hcode.left).bind ?_
    rintro a _ rfl
    refine (realizes_push hf hrep hr (fun h => hthis (by simp [Instr.usesObject, h]))
      hcode.right.left).bind ?_
    rintro b _ rfl
    refine (realizes_operator hlabels hop hcode.right.right a b).mono ?_
    rintro v _ rfl
    exact .of (by simp [Nat.add_assoc])
  | call kind target method args params ty =>
    -- A call that gives nothing is no value, and the emitter fails on it.
    by_cases hty : ty = .void
    · simp [value, hty] at hvalue
    · simp only [value, hty, beq_iff_eq, if_false] at hvalue
      simp only [Instr.compute, hty, if_false]
      refine (realizes_call hf hrep (write_ok_iff.1 hvalue).1 hthis harity hcode).mono ?_
      rintro v _ rfl
      rw [if_neg hty]
      exact .of rfl
  | newObject c =>
    obtain ⟨-, rfl⟩ := Stage.emit_ok_iff.1 hvalue
    exact realizes_ask [] hcode.head (exec_newObject f.unit f.method c) rfl
  | newArray size ty =>
    obtain ⟨k, _, hpush, hrest, rfl⟩ := write_bind_ok hvalue
    obtain ⟨-, rfl⟩ := Stage.emit_ok_iff.1 hrest
    refine (realizes_push hf hrep hpush hthis hcode.left).bind ?_
    rintro v _ rfl
    refine (realizes_ask [v] hcode.right.head (exec_makeArray f.unit f.method ty) rfl).mono ?_
    rintro v _ rfl
    exact .of (by simp [Nat.add_assoc])
  | length a =>
    obtain ⟨k, _, hpush, hrest, rfl⟩ := write_bind_ok hvalue
    obtain ⟨-, rfl⟩ := Stage.emit_ok_iff.1 hrest
    refine (realizes_push hf hrep hpush hthis hcode.left).bind ?_
    rintro v _ rfl
    refine (realizes_ask [v] hcode.right.head (fun _ => rfl) rfl).mono ?_
    rintro v _ rfl
    exact .of (by simp [Nat.add_assoc])
  | getField field ty =>
    injection hvalue with _ _ hvalue
    subst hvalue
    rw [Instr.compute]
    -- The name of the field is needed for the request; without one the operation is stuck.
    cases hx : field.name? with
    | none => exact .stuck
    | some x =>
      refine (realizes_this hf hrep (hthis rfl) hcode.head).bind ?_
      rintro self _ rfl
      rw [hx] at hcode
      exact realizes_ask [self] hcode.tail.head (exec_getfield f.unit f.method x ty) rfl
  | assign | putField | goto | branch | label | ret => exact absurd hvalue Stage.fail_ne_ok

end

end

end MiniJava.Assembly
