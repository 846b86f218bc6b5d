import MiniJava.Assembly.Emitter
import MiniJava.Proofs.Emission.Kinds

/-!
# Emission simulates the three-address code

Started with an empty stack and registers that represent the environment, the block of an
instruction does what the instruction does, and ends with an empty stack, registers that represent
the new environment, and control at the block of the instruction that comes next (`Simulated`). From
that it follows that whole runs are the same (`Simulated.runs`).

**Theorem** (`emission_simulates`). The assembly text of a class consists of blocks that simulate
the instructions of its methods.
-/

namespace MiniJava.Assembly

open Ir

/-! ## Instructions that go on -/

section

variable {O : Type} {view : Op → O} {W : World O} {f : Frame} {prog : List Asm} {pc : Nat}
  {ρ : Env W} {regs : UInt16 → Option (Value W.Ref)} {i : Instr} {n n' : Nat} {k : List Asm}

/-- The state behind the block of an instruction that goes on. -/
def Moved (t : RegisterTable) (stop : Nat) (flow : Flow W (Env W))
    (s : Control (Memory W)) : Prop :=
  ∃ ρ' regs', flow = .next ρ' ∧ s = ⟨stop, [], regs'⟩ ∧ Represents t ρ' regs'

theorem Frame.realizes_goesOn (hlabels : (labels prog).Nodup)
    (hf : f.registers.Sound f.method.isStatic) (hrep : Represents f.registers ρ regs)
    (hinstr : (f.instr i).run n = ⟨.ok (), n', k⟩) (hon : i.goesOn = true)
    (hthis : i.usesObject = true → f.method.isStatic = false) (harity : i.arityFits = true)
    (hcode : CodeAt prog pc k) :
    (machine view W).Realizes prog ⟨pc, [], regs⟩
      (i.exec (view ∘ Ir.Op.runtime f.unit f.method) W ρ) (Moved f.registers (pc + k.length)) := by
  -- Every block starts with the empty stack, and one that goes on leaves it empty.
  cases i with
  | goto | branch | ret => cases hon
  | label l =>
    obtain ⟨-, rfl⟩ := Stage.emit_ok_iff.1 hinstr
    exact .of_reaches (fun h => .next hcode.head rfl) (.pure ⟨ρ, regs, rfl, rfl, hrep⟩)
  | assign dest ty rhs =>
    cases dest with
    | var x t p =>
      -- The value is computed and stored: the register of the variable changes, and no other.
      obtain ⟨k, reg, hvalue, hreg, rfl⟩ := assign_var_ok hinstr
      simp only [Instr.exec, Ir.store, bind_assoc, pure_bind]
      refine (realizes_value hlabels hf hrep hvalue hthis harity hcode.left).bind ?_
      rintro v _ rfl
      refine .of_reaches (fun h => .next hcode.right.head (Asm.exec_store ..)) (.pure ?_)
      refine ⟨_, _, rfl, ?_, hrep.set hf hreg⟩
      simp [Nat.add_assoc]
    | item x index t p =>
      obtain ⟨reg, k₁, k₂, hreg, hpush, hvalue, rfl⟩ := assign_item_ok hinstr
      -- Array, index and value are pushed in this order, and one request takes all three.
      have hindex : index.mentionsThis = true → f.method.isStatic = false :=
        fun h => hthis (by simp [Instr.usesObject, Operand.mentionsThis, h])
      have hrhs : rhs.usesObject = true → f.method.isStatic = false :=
        fun h => hthis (by simp [Instr.usesObject, h])
      simp only [Instr.exec, Ir.store, bind_assoc, pure_bind]
      refine (realizes_load hcode.head (fun _ => rfl) (hrep hreg)).bind ?_
      rintro array _ rfl
      refine (realizes_push hf hrep hpush hindex hcode.tail.left).bind ?_
      rintro place _ rfl
      refine (realizes_value hlabels hf hrep hvalue hrhs harity hcode.tail.right.left).bind ?_
      rintro v _ rfl
      refine (realizes_ask [array, place, v] hcode.tail.right.right.head
        (exec_storeItem f.unit f.method ty) rfl).bind ?_
      rintro _ _ rfl
      exact .pure ⟨ρ, regs, rfl, by simp; omega, hrep⟩
    | literal | cls => exact absurd hinstr Stage.fail_ne_ok
  | call kind target method args params ty =>
    obtain ⟨k, hcall, -, rfl⟩ := instr_call_ok hinstr
    refine (realizes_call hf hrep hcall hthis harity hcode.left).bind ?_
    rintro v _ rfl
    -- What a call gives is not used here, so it is popped again, unless there is nothing.
    by_cases hty : ty = .void
    · simp only [hty, if_true, List.append_nil]
      exact .pure ⟨ρ, regs, rfl, rfl, hrep⟩
    · simp only [hty, if_false] at hcode ⊢
      refine .of_reaches (fun h => .next hcode.right.head rfl) (.pure ⟨ρ, regs, rfl, ?_, hrep⟩)
      simp [Nat.add_assoc]
  | putField field v =>
    cases field with
    | var x ty p =>
      obtain ⟨k, hpush, -, rfl⟩ := instr_putField_ok hinstr
      simp only [Instr.exec]
      refine (realizes_this hf hrep (hthis rfl) hcode.head).bind ?_
      rintro self _ rfl
      refine (realizes_push hf hrep hpush (fun _ => hthis rfl) hcode.tail.left).bind ?_
      rintro v _ rfl
      refine (realizes_ask [self, v] hcode.tail.right.head (exec_putfield f.unit f.method x ty)
        rfl).bind ?_
      rintro _ _ rfl
      exact .pure ⟨ρ, regs, rfl, by simp; omega, hrep⟩
    | literal | item | cls => exact absurd hinstr Stage.fail_ne_ok
  -- A value that no one keeps is computed for its requests, and popped.
  | value | not | binary | newObject | newArray | length | getField =>
    obtain ⟨k, hvalue, rfl⟩ := pop_ok hinstr
    refine (realizes_value hlabels hf hrep hvalue hthis harity hcode.left).bind ?_
    rintro v _ rfl
    refine .of_reaches (fun h => .next hcode.right.head rfl) (.pure ⟨ρ, regs, rfl, ?_, hrep⟩)
    simp [Nat.add_assoc]

end

/-! ## Steps -/

section

variable {O : Type} {view : Op → O} {W : World O} {f : Frame} {is : List Instr}
  {code : List (List Asm)} {n n' j : Nat} {ρ : Env W}
  {regs : UInt16 → Option (Value W.Ref)} {i : Instr}

/-- The state that the block of an instruction ends in: the start of the block that comes next, or a
return of the same result. -/
inductive Arrived (view : Op → O) (t : RegisterTable) (code : List (List Asm)) :
    Next W (Env W) → Control (Memory W) → Prop
  | go {j : Nat} {ρ : Env W} {regs : UInt16 → Option (Value W.Ref)} :
      Represents t ρ regs → Arrived view t code (.go ⟨j, ρ⟩) ⟨blockStart code j, [], regs⟩
  | done {v : Result W} {s : Control (Memory W)} :
      (∀ h, (machine view W).Runs code.flatten s h ⟨.ok v, h, []⟩) →
        Arrived view t code (.done v) s

/-- What emitted code relies on: the register table is sound, the instructions use `this` only if
there is one, calls fit their parameters, and the labels of the whole code are all different. -/
structure Frame.Emits (f : Frame) (is : List Instr) (code : List (List Asm)) : Prop where
  registers : f.registers.Sound f.method.isStatic
  object : ∀ i ∈ is, i.usesObject = true → f.method.isStatic = false
  arity : ∀ i ∈ is, i.arityFits = true
  labels : (labels code.flatten).Nodup
  blocks : ∃ n n', Emitted f is n code n'

namespace Frame.Emits

variable (h : f.Emits is code)
include h

theorem block (hi : is[j]? = some i) :
    ∃ k n₁ n₂, code[j]? = some k ∧ (f.instr i).run n₁ = ⟨.ok (), n₂, k⟩ := by
  obtain ⟨n, n', hemitted⟩ := h.blocks
  exact hemitted.block hi

/-- A jump leads to the block of the label. -/
theorem labelAt_block {see : Ir.Op → O} {l : String}
    (hl : (Ir.machine see W).labelAt is l = some j) :
    (machine view W).labelAt code.flatten l = some (blockStart code j) := by
  obtain ⟨hj, hset, -⟩ := List.findIdx?_eq_some_iff_getElem.1 hl
  have hlabel : is[j] = .label l := Instr.eq_label (by simpa [Ir.machine] using hset)
  obtain ⟨k, n₁, n₂, hk, hinstr⟩ := h.block (List.getElem?_eq_some_iff.2 ⟨hj, hlabel⟩)
  obtain ⟨-, rfl⟩ := Stage.emit_ok_iff.1 hinstr
  exact labelAt_of_getElem? h.labels (codeAt_block hk).head

/-- Control that has left for a label arrives at its block. -/
theorem realizes_jump {see : Ir.Op → O} {s : Control (Memory W)} {l : String}
    (hrep : Represents f.registers ρ regs)
    (hreach : ∀ {k}, (machine view W).labelAt code.flatten l = some k → ∀ hp,
      (machine view W).Reaches code.flatten s hp [] ⟨k, [], regs⟩ hp) :
    (machine view W).Realizes code.flatten s ((Ir.machine see W).follow is j (.jump l ρ))
      (Arrived view f.registers code) := by
  rw [Machine.follow]
  cases hl : (Ir.machine see W).labelAt is l with
  | none => exact .stuck
  | some j' => exact .of_reaches (hreach (h.labelAt_block hl)) (.pure (.go hrep))

/-- A conditional jump, when its condition is on the stack, takes the same way as the branch. -/
theorem realizes_branch {see : Ir.Op → O} {k : List Asm} {v : Value W.Ref} {l : String}
    (hrep : Represents f.registers ρ regs) (hk : code[j]? = some (k ++ [.ifne l])) :
    (machine view W).Realizes code.flatten ⟨blockStart code j + k.length, [v], regs⟩
      (v.test W >>= fun b => (Ir.machine see W).follow is j (if b then .jump l ρ else .next ρ))
      (Arrived view f.registers code) := by
  have hjump := (codeAt_block hk).right.head
  cases v with
  | ref r => exact .stuck
  | int a =>
    simp only [Value.test, pure_bind]
    -- Zero falls through to the next block, anything else jumps.
    by_cases ha : a = 0
    · have hexec : Asm.exec view W (.ifne l) ⟨[.int a], regs⟩ = pure (.next ⟨[], regs⟩) := by
        simp [Asm.exec, ha]
      have hstart : blockStart code (j + 1) = blockStart code j + k.length + 1 := by
        rw [blockStart_succ hk, List.length_append, Nat.add_assoc]
        rfl
      rw [if_neg (by simp [ha])]
      refine .of_reaches (fun _ => .next hjump hexec) ?_
      rw [← hstart]
      exact .pure (.go hrep)
    · have hexec : Asm.exec view W (.ifne l) ⟨[.int a], regs⟩ = pure (.jump l ⟨[], regs⟩) := by
        simp [Asm.exec, ha]
      rw [if_pos (by simp [ha])]
      exact h.realizes_jump hrep fun hl _ => .jump hjump hexec hl

/-- The block of a return gives back the same result. -/
theorem realizes_return {ty : Ty} {o : Option Operand} (hrep : Represents f.registers ρ regs)
    (hi : is[j]? = some (.ret ty o)) :
    (machine view W).Realizes code.flatten ⟨blockStart code j, [], regs⟩
      (Instr.exec (view ∘ Ir.Op.runtime f.unit f.method) W (.ret ty o) ρ >>=
        (Ir.machine (view ∘ Ir.Op.runtime f.unit f.method) W).follow is j)
        (Arrived view f.registers code) := by
  obtain ⟨k, n₁, n₂, hk, hinstr⟩ := h.block hi
  have hcode := codeAt_block hk
  -- The type of the return decides, not the operand: at `void` an operand is not even pushed.
  by_cases hty : ty = .void
  · subst hty
    obtain ⟨-, rfl⟩ := Stage.emit_ok_iff.1 hinstr
    exact .pure (.done fun _ => .return hcode.head rfl)
  · cases o with
    | none =>
      cases ty with
      | void => exact absurd rfl hty
      | int | bool | str | cls | array => exact absurd hinstr Stage.fail_ne_ok
    | some o =>
      obtain ⟨k, hpush, -, rfl⟩ := instr_ret_ok hty hinstr
      have hexec : Instr.exec (view ∘ Ir.Op.runtime f.unit f.method) W (.ret ty (some o)) ρ =
          o.read (view ∘ Ir.Op.runtime f.unit f.method) W ρ >>= fun v => pure (.done (some v)) := by
        cases ty with
        | void => exact absurd rfl hty
        | int | bool | str | cls | array => rfl
      rw [hexec, bind_assoc]
      refine (realizes_push h.registers hrep hpush (h.object _ (List.mem_of_getElem? hi))
        hcode.left).bind ?_
      rintro v _ rfl
      exact .pure (.done fun _ => .return hcode.right.head (Asm.exec_returnOf ty v))

/-- The block of an instruction does what a step does. -/
theorem realizes_step (hrep : Represents f.registers ρ regs) :
    (machine view W).Realizes code.flatten ⟨blockStart code j, [], regs⟩
      ((Ir.machine (view ∘ Ir.Op.runtime f.unit f.method) W).step is ⟨j, ρ⟩)
      (Arrived view f.registers code) := by
  cases hi : is[j]? with
  | none =>
    simp only [Machine.step, hi]
    exact .stuck
  | some i =>
    obtain ⟨k, n₁, n₂, hk, hinstr⟩ := h.block hi
    have hcode := codeAt_block hk
    have hmem := List.mem_of_getElem? hi
    simp only [Machine.step, hi]
    -- An instruction that goes on ends where the next block starts. The other three leave the block
    -- by themselves.
    by_cases hon : i.goesOn = true
    · refine (realizes_goesOn h.labels h.registers hrep hinstr hon (h.object i hmem)
        (h.arity i hmem) hcode).bind ?_
      rintro _ _ ⟨ρ', regs', rfl, rfl, hrep'⟩
      rw [← blockStart_succ hk]
      exact .pure (.go hrep')
    · cases i with
      | goto l =>
        obtain ⟨-, rfl⟩ := Stage.emit_ok_iff.1 hinstr
        simp only [Ir.machine, Instr.exec, pure_bind]
        exact h.realizes_jump hrep fun hl _ => .jump hcode.head rfl hl
      | branch c l =>
        obtain ⟨k, hpush, -, rfl⟩ := instr_branch_ok hinstr
        simp only [Ir.machine, Instr.exec, bind_assoc, pure_bind]
        refine (realizes_push h.registers hrep hpush (h.object _ hmem) hcode.left).bind ?_
        rintro v _ rfl
        exact h.realizes_branch hrep hk
      | ret ty o => exact h.realizes_return hrep hi
      | assign | value | not | binary | call | newObject | newArray | length | getField | putField
      | label => exact absurd rfl hon

end Frame.Emits

end

/-! ## Simulation -/

/-- The blocks simulate the instructions of the method: started at a block with an empty stack and
registers that represent the environment, the machine makes the requests of the instruction, and
gets to the block of the next instruction with an empty stack and registers that represent the
environment then, or returns or stops early as the instruction does. The instruction asks for its
operations as they are at run time. -/
structure Simulated (u : ClassUnit) (m : Method) (code : List (List Asm)) {O : Type} (view : Op → O)
    (W : World O) : Prop where
  go : ∀ {i i' : Nat} {ρ ρ' : Env W} {regs : UInt16 → Option (Value W.Ref)} {h h' : W.Heap}
    {t : List (Request O W.Ref)}, Represents m.registers ρ regs →
    ((Ir.machine (view ∘ Ir.Op.runtime u m) W).step m.code ⟨i, ρ⟩).run h =
      ⟨.ok (.go ⟨i', ρ'⟩), h', t⟩ →
    ∃ regs', Represents m.registers ρ' regs' ∧
      (machine view W).Reaches code.flatten ⟨blockStart code i, [], regs⟩ h t
        ⟨blockStart code i', [], regs'⟩ h'
  done : ∀ {i : Nat} {ρ : Env W} {regs : UInt16 → Option (Value W.Ref)} {h h' : W.Heap}
    {t : List (Request O W.Ref)} {v : Result W}, Represents m.registers ρ regs →
    ((Ir.machine (view ∘ Ir.Op.runtime u m) W).step m.code ⟨i, ρ⟩).run h =
      ⟨.ok (.done v), h', t⟩ →
    (machine view W).Runs code.flatten ⟨blockStart code i, [], regs⟩ h ⟨.ok v, h', t⟩
  halt : ∀ {i : Nat} {ρ : Env W} {regs : UInt16 → Option (Value W.Ref)} {h h' : W.Heap}
    {t : List (Request O W.Ref)} {e : Halt W.Fault}, Represents m.registers ρ regs →
    ((Ir.machine (view ∘ Ir.Op.runtime u m) W).step m.code ⟨i, ρ⟩).run h = ⟨.error e, h', t⟩ →
    e ≠ .stuck →
    (machine view W).Runs code.flatten ⟨blockStart code i, [], regs⟩ h ⟨.error e, h', t⟩

section

variable {O : Type} {view : Op → O} {W : World O} {u : ClassUnit} {m : Method}
  {code : List (List Asm)}

theorem Frame.Emits.simulated (h : (Frame.of u m).Emits m.code code) (view : Op → O) (W : World O) :
    Simulated u m code view W where
  go hrep hstep := by
    obtain ⟨_, harrived, hreach⟩ := (h.realizes_step hrep).ok hstep
    cases harrived with
    | go hrep' => exact ⟨_, hrep', hreach⟩
  done hrep hstep := by
    obtain ⟨_, harrived, hreach⟩ := (h.realizes_step hrep).ok hstep
    cases harrived with
    | done hdone =>
      have hruns := hreach.runs (hdone _)
      rwa [List.append_nil] at hruns
  halt hrep hstep hne := (h.realizes_step hrep).error hstep hne

/-- Whole runs are the same, from any instruction on. -/
theorem Simulated.runs (hsim : Simulated u m code view W) {s : Control (Env W)} {h : W.Heap}
    {o : Outcome W.Heap (Request O W.Ref) (Halt W.Fault) (Result W)}
    (hruns : (Ir.machine (view ∘ Ir.Op.runtime u m) W).Runs m.code s h o)
    (hmean : o.result ≠ .error .stuck) {regs : UInt16 → Option (Value W.Ref)}
    (hrep : Represents m.registers s.data regs) :
    (machine view W).Runs code.flatten ⟨blockStart code s.pc, [], regs⟩ h o := by
  induction hruns generalizing regs with
  | done hstep => exact hsim.done hrep hstep
  | halt hstep => exact hsim.halt hrep hstep fun he => hmean (congrArg _ he)
  | step hstep _ ih =>
    obtain ⟨regs', hrep', hreach⟩ := hsim.go hrep hstep
    exact hreach.runs (ih hmean hrep')

end

/-! ## The text of a class -/

section

variable {u : ClassUnit} {m : Method} {n n' : Nat} {out : List Piece}

theorem Frame.blocks_ok {f : Frame} {is : List Instr}
    (h : (f.blocks is).run n = ⟨.ok (), n', out⟩) :
    ∃ code, Emitted f is n code n' ∧ out = List.zipWith Piece.block is code := by
  induction is generalizing n out with
  | nil =>
    obtain ⟨-, rfl, rfl⟩ := Stage.pure_ok_iff.1 h
    exact ⟨[], .nil, rfl⟩
  | cons i is ih =>
    obtain ⟨k, n₁, _, _, hcollect, hrest, rfl⟩ := Stage.bind_ok_iff.1 h
    obtain ⟨hinstr, rfl⟩ := Stage.collect_ok_iff.1 hcollect
    obtain ⟨_, hblocks, rfl⟩ := Stage.emit_bind_ok_iff.1 hrest
    obtain ⟨code, hemitted, rfl⟩ := ih hblocks
    exact ⟨k :: code, .cons hinstr hemitted, rfl⟩

theorem methodPieces_ok (h : (methodPieces u m).run n = ⟨.ok (), n', out⟩) :
    ∃ code, Emitted (.of u m) m.code n code n' ∧
      out = .heading m :: (List.zipWith Piece.block m.code code ++ [.ending]) := by
  obtain ⟨_, hbody, rfl⟩ := Stage.emit_bind_ok_iff.1 h
  obtain ⟨_, _, _, _, hblocks, hend, rfl⟩ := Stage.bind_ok_iff.1 hbody
  obtain ⟨code, hemitted, rfl⟩ := Frame.blocks_ok hblocks
  obtain ⟨rfl, rfl⟩ := Stage.emit_ok_iff.1 hend
  exact ⟨code, hemitted, rfl⟩

/-- Every method has its pieces among those of the class. -/
theorem methodsPieces_ok {ms : List Method} (h : (methodsPieces u ms).run n = ⟨.ok (), n', out⟩)
    (hm : m ∈ ms) :
    ∃ before after code n₁ n₂, Emitted (.of u m) m.code n₁ code n₂ ∧
      out = before ++ .heading m :: (List.zipWith Piece.block m.code code ++ .ending :: after) := by
  induction ms generalizing n out with
  | nil => cases hm
  | cons m' ms ih =>
    obtain ⟨_, n₁, o₁, o₂, hfirst, hrest, rfl⟩ := Stage.bind_ok_iff.1 h
    rcases List.mem_cons.1 hm with rfl | hm
    · obtain ⟨code, hemitted, rfl⟩ := methodPieces_ok hfirst
      exact ⟨[], o₂, code, n, n₁, hemitted, by simp⟩
    · obtain ⟨before, after, code, n₂, n₃, hemitted, rfl⟩ := ih hrest hm
      exact ⟨o₁ ++ before, after, code, n₂, n₃, hemitted, by simp⟩

theorem Emitter.build_ok {e : Emitter} {text : String} (hnew : e.text = none)
    (h : e.build.result = .ok text) :
    ∃ n out, e.unit.pieces.run e.comparisons = ⟨.ok (), n, out⟩ ∧
      text = classText e.unit e.limits out := by
  rw [Emitter.build, hnew] at h
  rcases hrun : e.unit.pieces.run e.comparisons with ⟨fault | _, n, out⟩ <;> rw [hrun] at h
  · cases h
  · exact ⟨n, out, rfl, (Except.ok.inj h).symm⟩

theorem mem_emissionOrder : m ∈ u.emissionOrder ↔ m ∈ u.methods := by
  cases h : m.isConstructor <;> simp [ClassUnit.emissionOrder, h]

end

/-- **Emission simulates the three-address code.** A class has been emitted. Take a method of it
whose variables have registers of their own, which uses `this` and fields only if it is not static,
whose calls have an argument for each declared parameter, and whose labels are different from each
other and from those of comparisons. The text holds a block for each of its instructions, which
loads, stores and returns integers as integers and references as references. The blocks simulate the
instructions in every world, and a whole run that means something is the one run of the blocks from
the first one on. Both ask for the same operations in the same order: the machine for those of its
instructions, the method for those that its own are at run time. The world sees all of an operation,
or whatever a view leaves of it. -/
theorem emission_simulates {e : Emitter} {text : String} (hnew : e.text = none)
    (hbuild : e.build.result = .ok text) {m : Method} (hm : m ∈ e.unit.methods)
    (hregisters : m.Registered)
    (hobject : ∀ i ∈ m.code, i.usesObject = true → m.isStatic = false)
    (harity : ∀ i ∈ m.code, i.arityFits = true) (hdistinct : (Ir.labels m.code).Nodup)
    (hother : ∀ l ∈ Ir.labels m.code, ∀ k, l ≠ trueLabel k ∧ l ≠ doneLabel k) :
    ∃ before after code,
      text = classText e.unit e.limits
        (before ++ .heading m :: (List.zipWith Piece.block m.code code ++ .ending :: after)) ∧
      code.length = m.code.length ∧ code.map kinds = m.code.map Instr.kinds ∧
      ∀ {O : Type} (view : Op → O) (W : World O), Simulated e.unit m code view W ∧
        ∀ (ρ : Env W) (regs : UInt16 → Option (Value W.Ref)) (h : W.Heap)
          (o : Outcome W.Heap (Request O W.Ref) (Halt W.Fault) (Result W)),
          Represents m.registers ρ regs →
          (Ir.machine (view ∘ Ir.Op.runtime e.unit m) W).Runs m.code ⟨0, ρ⟩ h o →
          o.result ≠ .error .stuck →
          ∀ o', (machine view W).Runs code.flatten ⟨0, [], regs⟩ h o' ↔ o' = o := by
  obtain ⟨n, out, hpieces, rfl⟩ := Emitter.build_ok hnew hbuild
  obtain ⟨before, after, code, n₁, n₂, hemitted, rfl⟩ :=
    methodsPieces_ok hpieces (mem_emissionOrder.2 hm)
  -- The labels of comparisons are made per class, so they are apart from each other in the method;
  -- that they are apart from its own labels is asked for.
  have hemits : (Frame.of e.unit m).Emits m.code code :=
    ⟨hregisters.sound, hobject, harity, hemitted.nodup_labels hdistinct hother, n₁, n₂, hemitted⟩
  refine ⟨before, after, code, rfl, hemitted.length_eq, hemitted.kinds_eq, ?_⟩
  intro O view W
  refine ⟨hemits.simulated view W, ?_⟩
  intro ρ regs h o hrep hruns hmean o'
  -- The simulation gives one run with this end, and a machine has no other.
  have hmachine := (hemits.simulated view W).runs hruns hmean hrep
  exact ⟨fun h' => h'.unique hmachine, fun h' => h' ▸ hmachine⟩

/-! A method that counts up to its parameter, keeps the count in a field, and then makes an
array. -/

namespace Meter

def level : Operand := .plain "level" .int

def log : Operand := .plain "log" (.array .int)

def tick : Method where
  name := "tick"
  className := "Meter"
  params := [⟨"goal", .int⟩]
  locals := [⟨"level", .int⟩, ⟨"log", .array .int⟩]
  returnTy := .int
  code :=
    [.assign level .int (.value (.literal 0 .int)),
      .label "again",
      .assign level .int (.binary .add level (.literal 1 .int) .int),
      .putField (.plain "seen" .int) level,
      .assign (.plain "tmp0" .bool) .bool (.binary .lt level (.var "goal" .int (some 1)) .bool),
      .branch (.plain "tmp0" .bool) "again",
      .assign log (.array .int) (.newArray level (.array .int)),
      .ret .int (some level)]

def unit : ClassUnit where
  name := "Meter"
  fields := [⟨"seen", .int, .package⟩]
  methods := [tick]

/-- A world that counts the requests. -/
def world : World Op where
  Ref := Unit
  Heap := Nat
  Fault := Unit
  perform := fun _ _ h => (.ok (.ref ()), h + 1)

/-- The registers at the start: the object and the goal. -/
def regs : UInt16 → Option (Value world.Ref)
  | 0 => some (.ref ())
  | 1 => some (.int 2)
  | _ => none

def env : Env world := fun x => (tick.registers.get? x).bind fun r => regs r.index

def seen (v : Int32) : Request Op world.Ref :=
  ⟨.putField "Meter" "seen" .int, [.ref (), .int v]⟩

/-- The meter ticks twice, and asks for an array of two integers. -/
def outcome : Outcome world.Heap (Request Op world.Ref) (Halt world.Fault) (Result world) :=
  ⟨.ok (some (.int 2)), (3 : Nat), [seen 1, seen 2, ⟨.newArray .ints, [.int 2]⟩]⟩

theorem tick_simulated :
    ∃ before after code, emit unit {} = .ok (classText unit {}
        (before ++ .heading tick ::
          (List.zipWith Piece.block tick.code code ++ .ending :: after))) ∧
      ∀ o, (machine id world).Runs code.flatten ⟨0, [], regs⟩ (0 : Nat) o ↔ o = outcome := by
  obtain ⟨text, htext⟩ : ∃ text, emit unit {} = .ok text := ⟨_, rfl⟩
  have hregisters : tick.Registered := Method.registered_of_fresh rfl (by decide)
  have hlabels : ∀ l ∈ Ir.labels tick.code, l.toList.head? ≠ some 'c' := by decide
  have hrep : Represents tick.registers env regs := by
    intro x r hr
    simp [env, hr]
  have hruns : (Ir.machine (id ∘ Ir.Op.runtime unit tick) world).Runs tick.code ⟨0, env⟩ (0 : Nat)
      outcome := Machine.runs_iff.2 ⟨13, rfl⟩
  obtain ⟨before, after, code, rfl, -, -, hsim⟩ := emission_simulates (e := { unit }) rfl htext
    (.head _) hregisters (by decide) (by decide) (by decide)
    fun l hl => ne_comparisonLabel (hlabels l hl)
  exact ⟨before, after, code, htext, (hsim id world).2 env regs _ _ hrep hruns nofun⟩

end Meter

end MiniJava.Assembly
