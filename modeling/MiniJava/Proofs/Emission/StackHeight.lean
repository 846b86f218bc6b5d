import MiniJava.Proofs.Emission.ControlFlow
import MiniJava.Proofs.Emission.Output
import MiniJava.Proofs.Lowering.ClassNames
import MiniJava.Proofs.Lowering.Declarations
import MiniJava.Proofs.Lowering.Operands
import MiniJava.Proofs.Semantics.StackHeight

/-!
# The operand stack of emitted code

Between two instructions of three-address code the operand stack is empty: the block of an
instruction pushes its operands, works on them and stores or drops what is left. How high the stack
gets on the way can be read off the instruction (`Instr.depth`), and this bounds the whole block,
both ways of a comparison included (`Frame.instr_balanced`).

Lowered code has simple operands, so three values are enough for all instructions but calls, which
need one for each argument and one for the object.

**Theorem** (`operand_stack_disciplined`). In every program that compiles and uses no class name as
a value, the stack of every method has one height in each line, whichever way control takes. It is
never too low, it is zero wherever a block starts, and it is at most three or, if that is more, one
more than the largest number of arguments of a call.
-/

namespace MiniJava.Ir

/-! ## Depth -/

/-- How high a stack gets when the operand is pushed. -/
def Operand.depth : Operand → Nat
  | .literal .. | .var .. => 1
  | .item _ i _ _ => 1 + i.depth
  | .cls _ => 0

/-- How high a stack gets when the operands are pushed one after the other. -/
def Operand.depthAll : List Operand → Nat
  | [] => 0
  | o :: os => max o.depth (1 + depthAll os)

/-- The operands that a call pushes. -/
def CallKind.operands (kind : CallKind) (target : Operand) (args : List Operand) : List Operand :=
  if kind = .static then args else target :: args

/-- How high a stack gets in the block of the instruction. -/
def Instr.depth : Instr → Nat
  | .assign (.item _ i _ _) _ rhs => max (1 + i.depth) (2 + rhs.depth)
  | .assign _ _ rhs => rhs.depth
  | .value o | .newArray o _ | .length o | .branch o _ | .ret _ (some o) => o.depth
  | .not o _ => max o.depth 2
  | .binary _ l r _ => max l.depth (1 + r.depth)
  | .call kind target _ args _ _ => max 1 (Operand.depthAll (kind.operands target args))
  | .newObject _ | .getField .. => 1
  | .putField _ v => 1 + v.depth
  | .goto _ | .label _ | .ret _ none => 0

/-- How many arguments the instruction passes. -/
def Instr.argCount : Instr → Nat
  | .assign _ _ rhs => rhs.argCount
  | .call _ _ _ args _ _ => args.length
  | _ => 0

/-- The largest number of arguments of a call in the code. -/
def argCount (code : List Instr) : Nat := code.foldr (fun i n => max i.argCount n) 0

theorem argCount_le {code : List Instr} {i : Instr} (hi : i ∈ code) :
    i.argCount ≤ argCount code := by
  induction code with
  | nil => cases hi
  | cons j code ih =>
    rw [argCount, List.foldr_cons, ← argCount]
    rcases List.mem_cons.1 hi with rfl | hi
    · exact Nat.le_max_left ..
    · exact Nat.le_trans (ih hi) (Nat.le_max_right ..)

/-! Flat code is shallow. -/

theorem Operand.depth_le_of_isFlat {o : Operand} (h : o.isFlat = true) : o.depth ≤ 1 := by
  cases o with
  | item => cases h
  | literal | var | cls => simp [depth]

theorem Operand.depthAll_le_of_isFlat {os : List Operand} (h : os.all isFlat = true) :
    depthAll os ≤ os.length := by
  induction os with
  | nil => exact Nat.le_refl 0
  | cons o os ih =>
    rw [List.all_cons, Bool.and_eq_true] at h
    have ho := depth_le_of_isFlat h.1
    have hos := ih h.2
    rw [depthAll, List.length_cons]
    omega

theorem Instr.depth_le_of_givesFlat {i : Instr} (h : i.givesFlat = true) :
    i.depth ≤ max 2 (1 + i.argCount) := by
  cases i with
  | value o =>
    cases o with
    | item x j ty p =>
      have hj := Operand.depth_le_of_isFlat (o := j) h
      rw [depth, Operand.depth]
      omega
    | literal | var | cls => simp [depth, Operand.depth]
  | not o ty =>
    have ho := Operand.depth_le_of_isFlat (o := o) h
    rw [depth]
    omega
  | newArray o ty | length o =>
    have ho := Operand.depth_le_of_isFlat (o := o) h
    rw [depth]
    omega
  | binary op l r ty =>
    rw [givesFlat, Bool.and_eq_true] at h
    have hl := Operand.depth_le_of_isFlat h.1
    have hr := Operand.depth_le_of_isFlat h.2
    rw [depth]
    omega
  | call kind target m args params ty =>
    rw [givesFlat, Bool.and_eq_true] at h
    have htarget := Operand.depth_le_of_isFlat h.1
    have hargs := Operand.depthAll_le_of_isFlat h.2
    rw [depth, argCount, CallKind.operands]
    split
    · omega
    · rw [Operand.depthAll]
      omega
  | newObject | getField => simp [depth]
  | assign | putField | goto | branch | label | ret => cases h

theorem Instr.depth_le_of_isFlat {i : Instr} (h : i.isFlat = true) :
    i.depth ≤ max 3 (1 + i.argCount) := by
  have hgives : i.givesFlat = true → i.depth ≤ max 3 (1 + i.argCount) := by
    intro hi
    have := depth_le_of_givesFlat hi
    omega
  cases i with
  | assign dest ty rhs =>
    cases dest with
    | item x j t p =>
      cases rhs with
      | value o =>
        rw [isFlat, Bool.and_eq_true] at h
        have hj := Operand.depth_le_of_isFlat h.1
        have ho := Operand.depth_le_of_isFlat h.2
        rw [depth, depth]
        omega
      | _ => cases h
    | literal | var | cls =>
      have hrhs := depth_le_of_givesFlat (i := rhs) h
      rw [depth, argCount]
      · omega
      · simp
  | putField f o | branch o l =>
    have ho := Operand.depth_le_of_isFlat (o := o) h
    rw [depth]
    omega
  | ret ty o =>
    cases o with
    | none => simp [depth]
    | some o =>
      have ho := Operand.depth_le_of_isFlat (o := o) h
      rw [depth]
      omega
  | goto | label => simp [depth]
  | value | not | binary | call | newObject | newArray | length | getField => exact hgives h

end MiniJava.Ir

namespace MiniJava.Assembly

open Ir

/-! ## Balanced code -/

/-- Run with a stack of height `h`, the code leaves one of height `h'`, and on the way it never gets
higher than `bound`. -/
def Balanced (outer : String → Prop) (bound h : Nat) (code : List Asm) (h' : Nat) : Prop :=
  ∃ lines, lines.map Prod.snd = code ∧ (levels lines h')[0]? = some h ∧ Steady outer bound lines h'

namespace Balanced

variable {outer : String → Prop} {bound h h₁ h' : Nat} {a : Asm} {k₁ k₂ : List Asm}

theorem nil : Balanced outer bound h [] h := ⟨[], rfl, rfl, .nil h⟩

theorem append (hfirst : Balanced outer bound h k₁ h₁) (hsecond : Balanced outer bound h₁ k₂ h') :
    Balanced outer bound h (k₁ ++ k₂) h' := by
  obtain ⟨first, rfl, hentry, hfirst⟩ := hfirst
  obtain ⟨second, rfl, hmid, hsecond⟩ := hsecond
  refine ⟨first ++ second, List.map_append, ?_, hfirst.append hsecond hmid⟩
  rw [getElem?_levels_left hmid (Nat.zero_le _), hentry]

theorem line (hpops : a.pops ≤ h) (hle : h ≤ bound)
    (hjump : ∀ l, a.jump? = some l → outer l ∧ a.after h = 0)
    (hlabel : ∀ l, a = .label l → outer l → h = 0) : Balanced outer bound h [a] (a.after h) := by
  refine ⟨[(h, a)], rfl, rfl, ⟨?_, ?_, ?_, ?_, ?_⟩⟩
  · intro x b hmem
    cases List.mem_singleton.1 hmem
    exact hpops
  · intro x b hmem
    cases List.mem_singleton.1 hmem
    exact hle
  · intro j x b hj _
    cases j with
    | zero =>
      cases hj
      rfl
    | succ j => cases hj
  · intro x b l hmem hl
    cases List.mem_singleton.1 hmem
    exact .inl (hjump l hl)
  · intro x l hmem hl
    cases List.mem_singleton.1 hmem
    exact hlabel l rfl hl

/-- A line that is neither a label nor a jump. -/
theorem plain (ha : a.isPlain = true) (hpops : a.pops ≤ h) (hle : h ≤ bound) :
    Balanced outer bound h [a] (a.after h) := by
  obtain ⟨hlabel, hjump⟩ := Bool.and_eq_true_iff.1 ha
  rw [Option.isNone_iff_eq_none] at hlabel hjump
  refine line hpops hle ?_ ?_
  · intro l hl
    rw [hjump] at hl
    cases hl
  · rintro l rfl
    cases hlabel

/-- The lines of a comparison. Both ways leave one value for the two compared. -/
theorem comparison (hinner : ∀ k, ¬outer (trueLabel k) ∧ ¬outer (doneLabel k)) (n : Nat)
    (hle : h + 2 ≤ bound) : Balanced outer bound (h + 2) (comparison n) (h + 1) := by
  -- The heights before the six lines. Both ways through bring one value to the last label.
  refine ⟨[(h + 2, .ifIcmplt (trueLabel n)), (h, .iconst0), (h + 1, .goto (doneLabel n)),
    (h, .label (trueLabel n)), (h, .iconst1), (h + 1, .label (doneLabel n))], rfl, rfl,
    ⟨?_, ?_, ?_, ?_, ?_⟩⟩
  · intro x a hmem
    simp only [List.mem_cons, Prod.mk.injEq, List.not_mem_nil, or_false] at hmem
    rcases hmem with ⟨rfl, rfl⟩ | ⟨rfl, rfl⟩ | ⟨rfl, rfl⟩ | ⟨rfl, rfl⟩ | ⟨rfl, rfl⟩ | ⟨rfl, rfl⟩ <;>
      simp [Asm.pops]
  · intro x a hmem
    simp only [List.mem_cons, Prod.mk.injEq, List.not_mem_nil, or_false] at hmem
    omega
  · intro j x a hj hgoes
    rcases j with _ | _ | _ | _ | _ | _ | j <;> cases hj <;> first | rfl | cases hgoes
  · intro x a l hmem hl
    simp only [List.mem_cons, Prod.mk.injEq, List.not_mem_nil, or_false] at hmem
    rcases hmem with ⟨rfl, rfl⟩ | ⟨rfl, rfl⟩ | ⟨rfl, rfl⟩ | ⟨rfl, rfl⟩ | ⟨rfl, rfl⟩ | ⟨rfl, rfl⟩ <;>
      cases hl <;> simp [Asm.after, Asm.pops, Asm.pushes]
  · intro x l hmem hl
    simp only [List.mem_cons, Prod.mk.injEq, reduceCtorEq, and_false, false_or, or_false,
      List.not_mem_nil, Asm.label.injEq] at hmem
    rcases hmem with ⟨-, rfl⟩ | ⟨-, rfl⟩
    · exact absurd hl (hinner n).1
    · exact absurd hl (hinner n).2

end Balanced

/-! ## Blocks -/

section

variable {outer : String → Prop} {bound h : Nat} {f : Frame} {code : List Asm}

theorem one_le_depth {o : Operand} (h : o.classes = []) : 1 ≤ o.depth := by
  cases o with
  | item => rw [Operand.depth]; omega
  | cls => cases h
  | literal | var => exact Nat.le_refl 1

theorem length_le_depthAll {os : List Operand} (h : os.flatMap Operand.classes = []) :
    os.length ≤ Operand.depthAll os := by
  induction os with
  | nil => exact Nat.le_refl 0
  | cons o os ih =>
    rw [List.flatMap_cons, List.append_eq_nil_iff] at h
    have hos := ih h.2
    rw [Operand.depthAll, List.length_cons]
    omega

/-- A line that is chosen from two. -/
theorem Balanced.ite {c : Prop} [Decidable c] {a b : Asm} {h' : Nat}
    (ha : Balanced outer bound h [a] h') (hb : Balanced outer bound h [b] h') :
    Balanced outer bound h [if c then a else b] h' := by
  split
  · exact ha
  · exact hb

theorem Balanced.load (ty : Ty) (r : UInt16) (hle : h ≤ bound) :
    Balanced outer bound h [.load ty r] (h + 1) :=
  .ite (.plain rfl (Nat.zero_le _) hle) (.plain rfl (Nat.zero_le _) hle)

theorem Balanced.store (ty : Ty) (r : UInt16) (hle : h + 1 ≤ bound) :
    Balanced outer bound (h + 1) [.store ty r] h :=
  .ite (.plain rfl (Nat.le_add_left ..) hle) (.plain rfl (Nat.le_add_left ..) hle)

theorem Balanced.loadItem (ty : Ty) (hle : h + 2 ≤ bound) :
    Balanced outer bound (h + 2) [.loadItem ty] (h + 1) :=
  .ite (.plain rfl (Nat.le_add_left ..) hle) (.plain rfl (Nat.le_add_left ..) hle)

theorem Balanced.storeItem (ty : Ty) (hle : h + 3 ≤ bound) :
    Balanced outer bound (h + 3) [.storeItem ty] h :=
  .ite (.plain rfl (Nat.le_add_left ..) hle) (.plain rfl (Nat.le_add_left ..) hle)

theorem Balanced.returnOf (ty : Ty) (hle : h + 1 ≤ bound) :
    Balanced outer bound (h + 1) [.returnOf ty] h :=
  .ite (.plain rfl (Nat.le_add_left ..) hle) (.plain rfl (Nat.le_add_left ..) hle)

theorem Balanced.makeArray (u : ClassUnit) (ty : Ty) (hle : h + 1 ≤ bound) :
    Balanced outer bound (h + 1) [makeArray u ty] (h + 1) := by
  unfold Assembly.makeArray
  split <;> exact .plain rfl (Nat.le_add_left ..) hle

namespace Frame

/-- An operand that is not a class leaves one value. -/
theorem push_balanced {o : Operand} (hpush : f.push o = .ok code) (hcls : o.classes = [])
    (hle : h + o.depth ≤ bound) : Balanced outer bound h code (h + 1) := by
  induction o generalizing code h with
  | literal v ty =>
    cases hpush
    exact .plain rfl (Nat.zero_le _) (by omega)
  | var x ty p =>
    rw [push] at hpush
    split at hpush
    · cases hpush
      exact .plain rfl (Nat.zero_le _) (by omega)
    · obtain ⟨r, -, hload⟩ := bind_ok hpush
      cases hload
      exact .load ty r (by omega)
  | item x i ty p ih =>
    obtain ⟨r, -, hrest⟩ := bind_ok hpush
    obtain ⟨index, hindex, hcode⟩ := bind_ok hrest
    cases hcode
    rw [Operand.depth] at hle
    have hi : 1 ≤ i.depth := one_le_depth hcls
    have harray : Balanced outer bound h [.aload r] (h + 1) := .plain rfl (Nat.zero_le _) (by omega)
    exact harray.append ((ih hindex hcls (by omega)).append (.loadItem ty (by omega)))
  | cls c => cases hcls

theorem pushAll_balanced {os : List Operand} (hpush : f.pushAll os = .ok code)
    (hcls : os.flatMap Operand.classes = []) (hle : h + Operand.depthAll os ≤ bound) :
    Balanced outer bound h code (h + os.length) := by
  induction os generalizing code h with
  | nil =>
    cases hpush
    exact .nil
  | cons o os ih =>
    obtain ⟨k₁, hk₁, hrest⟩ := bind_ok hpush
    obtain ⟨k₂, hk₂, hcode⟩ := bind_ok hrest
    cases hcode
    rw [List.flatMap_cons, List.append_eq_nil_iff] at hcls
    rw [Operand.depthAll] at hle
    have hmore := ih (h := h + 1) hk₂ hcls.2 (by omega)
    rw [List.length_cons, Nat.add_comm os.length, ← Nat.add_assoc]
    exact (push_balanced hk₁ hcls.1 (by omega)).append hmore

/-- The target of a call, unless the call is static, and its arguments. -/
theorem operands_balanced {kind : CallKind} {target : Operand} {args : List Operand}
    {object pushed : List Asm}
    (hobject : (if kind == .static then .ok [] else f.push target) = .ok object)
    (hpushed : f.pushAll args = .ok pushed)
    (hcls : (kind.operands target args).flatMap Operand.classes = [])
    (hle : h + Operand.depthAll (kind.operands target args) ≤ bound) :
    Balanced outer bound h (object ++ pushed) (h + (kind.operands target args).length) := by
  by_cases hstatic : kind = .static
  · simp only [hstatic, beq_self_eq_true, if_true, CallKind.operands] at hobject hcls hle ⊢
    cases hobject
    exact pushAll_balanced hpushed hcls hle
  · simp only [hstatic, beq_iff_eq, if_false, CallKind.operands] at hobject hcls hle ⊢
    have hall : f.pushAll (target :: args) = .ok (object ++ pushed) := by
      rw [pushAll, hobject, hpushed]
      rfl
    exact pushAll_balanced hall hcls hle

/-- A call takes the operands that were pushed for it, and leaves a value unless it is void. -/
theorem call_balanced {kind : CallKind} {target : Operand} {method : String} {args : List Operand}
    {params : Option (List Ty)} {ty : Ty}
    (hcall : f.call kind target method args params ty = .ok code)
    (hcls : (Instr.call kind target method args params ty).strayClasses = [])
    (harity : (Instr.call kind target method args params ty).arityFits = true)
    (hle : h + (Instr.call kind target method args params ty).depth ≤ bound) :
    Balanced outer bound h code (if ty = .void then h else h + 1) := by
  obtain ⟨object, pushed, hobject, hpushed, rfl⟩ := call_ok hcall
  have hstray : (kind.operands target args).flatMap Operand.classes = [] := by
    cases kind <;> exact hcls
  rw [Instr.depth] at hle
  have hparams : (params.getD (args.map Operand.ty)).length = args.length := by
    cases params with
    | none => exact List.length_map ..
    | some ps => exact eq_of_beq harity
  -- The invocation takes what has been pushed, no more: one value for each operand that is no
  -- class.
  have hmany := length_le_depthAll hstray
  have hpops : (invocation f.unit f.method kind target method (params.getD (args.map Operand.ty))
      ty).pops = (kind.operands target args).length := by
    rw [invocation, Asm.pops, List.length_map, hparams, CallKind.operands]
    split
    · rw [Nat.zero_add]
    · rw [List.length_cons, Nat.add_comm]
  have hafter : (invocation f.unit f.method kind target method (params.getD (args.map Operand.ty))
      ty).after (h + (kind.operands target args).length) = if ty = .void then h else h + 1 := by
    rw [Asm.after, hpops, Nat.add_sub_cancel, invocation, Asm.pushes]
    simp only [descriptor_eq_void_iff]
    split <;> rfl
  rw [← List.append_assoc, ← hafter]
  exact (operands_balanced hobject hpushed hstray (by omega)).append
    (.plain rfl (by omega) (by omega))

/-- An operator takes two values and leaves one. -/
theorem operator_balanced (hinner : ∀ k, ¬outer (trueLabel k) ∧ ¬outer (doneLabel k)) {op : BinOp}
    {n n' : Nat} (hop : (operator op).run n = ⟨.ok (), n', code⟩) (hle : h + 2 ≤ bound) :
    Balanced outer bound (h + 2) code (h + 1) := by
  cases op with
  | lt =>
    cases hop
    exact .comparison hinner n hle
  | add | sub | mul | div | and =>
    obtain ⟨-, rfl⟩ := Stage.emit_ok_iff.1 hop
    exact .plain rfl (Nat.le_add_left ..) hle

/-- The code of a value leaves one value. -/
theorem value_balanced (hinner : ∀ k, ¬outer (trueLabel k) ∧ ¬outer (doneLabel k)) {i : Instr}
    {n n' : Nat} (hvalue : (f.value i).run n = ⟨.ok (), n', code⟩) (hcls : i.strayClasses = [])
    (harity : i.arityFits = true) (hle : h + i.depth ≤ bound) :
    Balanced outer bound h code (h + 1) := by
  cases i with
  | value o =>
    obtain ⟨hpush, -⟩ := write_ok_iff.1 hvalue
    exact push_balanced hpush hcls hle
  | not o ty =>
    obtain ⟨k, _, hpush, hrest, rfl⟩ := write_bind_ok hvalue
    cases hrest
    rw [Instr.depth] at hle
    have hone : Balanced outer bound (h + 1) [.iconst1] (h + 2) :=
      .plain rfl (Nat.zero_le _) (by omega)
    have hxor : Balanced outer bound (h + 2) [.ixor] (h + 1) :=
      .plain rfl (Nat.le_add_left ..) (by omega)
    exact (push_balanced hpush hcls (by omega)).append (hone.append hxor)
  | binary op l r ty =>
    obtain ⟨k₁, _, hl, hrest, rfl⟩ := write_bind_ok hvalue
    obtain ⟨k₂, k₃, hr, hop, rfl⟩ := write_bind_ok hrest
    rw [Instr.strayClasses, List.append_eq_nil_iff] at hcls
    rw [Instr.depth] at hle
    -- The right operand is computed above the left one.
    have hdepth := one_le_depth hcls.2
    have hleft : Balanced outer bound h k₁ (h + 1) := push_balanced hl hcls.1 (by omega)
    have hright : Balanced outer bound (h + 1) k₂ (h + 2) := push_balanced hr hcls.2 (by omega)
    exact hleft.append (hright.append (operator_balanced hinner hop (by omega)))
  | call kind target method args params ty =>
    have hvoid : ty ≠ .void := by
      rintro rfl
      exact absurd hvalue Stage.fail_ne_ok
    obtain ⟨hcall, -⟩ := value_call_ok hvalue
    have hbalanced : Balanced outer bound h code (if ty = .void then h else h + 1) :=
      call_balanced hcall hcls harity hle
    rwa [if_neg hvoid] at hbalanced
  | newObject c =>
    obtain ⟨-, rfl⟩ := Stage.emit_ok_iff.1 hvalue
    exact .plain rfl (Nat.zero_le _) (by omega)
  | newArray size ty =>
    obtain ⟨k, _, hpush, hrest, rfl⟩ := write_bind_ok hvalue
    obtain ⟨-, rfl⟩ := Stage.emit_ok_iff.1 hrest
    have hdepth : 1 ≤ size.depth := one_le_depth hcls
    rw [Instr.depth] at hle
    exact (push_balanced hpush hcls hle).append (.makeArray _ ty (by omega))
  | length a =>
    obtain ⟨k, _, hpush, hrest, rfl⟩ := write_bind_ok hvalue
    obtain ⟨-, rfl⟩ := Stage.emit_ok_iff.1 hrest
    have hdepth : 1 ≤ a.depth := one_le_depth hcls
    rw [Instr.depth] at hle
    exact (push_balanced hpush hcls hle).append (.plain rfl (Nat.le_add_left ..) (by omega))
  | getField field ty =>
    cases hvalue
    rw [Instr.depth] at hle
    have hthis : Balanced outer bound h [.aload0] (h + 1) := .plain rfl (Nat.zero_le _) (by omega)
    exact hthis.append (.plain rfl (Nat.le_add_left ..) (by omega))
  | assign | putField | goto | branch | label | ret => exact absurd hvalue Stage.fail_ne_ok

theorem one_le_depth_of_value {i : Instr} {n n' : Nat}
    (hvalue : (f.value i).run n = ⟨.ok (), n', code⟩) (hcls : i.strayClasses = []) :
    1 ≤ i.depth := by
  cases i with
  | value o | newArray o ty | length o => exact one_le_depth hcls
  | not | binary | call => rw [Instr.depth]; omega
  | newObject | getField => exact Nat.le_refl 1
  | assign | putField | goto | branch | label | ret => exact absurd hvalue Stage.fail_ne_ok

/-- **Blocks.** The block of an instruction starts and ends with an empty stack. -/
theorem instr_balanced (hinner : ∀ k, ¬outer (trueLabel k) ∧ ¬outer (doneLabel k)) {i : Instr}
    {n n' : Nat} (hinstr : (f.instr i).run n = ⟨.ok (), n', code⟩) (hcls : i.strayClasses = [])
    (harity : i.arityFits = true) (hjump : ∀ l, i.jump? = some l → outer l)
    (hle : i.depth ≤ bound) :
    Balanced outer bound 0 code 0 := by
  -- A value that was computed on an empty stack, and what is done with it.
  have hvalued : ∀ {rhs : Instr} {k : List Asm}, (f.value rhs).run n = ⟨.ok (), n', k⟩ →
      rhs.strayClasses = [] → rhs.arityFits = true → rhs.depth ≤ bound →
      1 ≤ bound ∧ Balanced outer bound 0 k 1 := by
    intro rhs k hvalue hcls harity hle
    have hdepth := one_le_depth_of_value hvalue hcls
    exact ⟨by omega, value_balanced hinner hvalue hcls harity (by omega)⟩
  cases i with
  | assign dest ty rhs =>
    rw [Instr.strayClasses, List.append_eq_nil_iff] at hcls
    cases dest with
    | var x t p =>
      obtain ⟨k, reg, hvalue, -, rfl⟩ := assign_var_ok hinstr
      obtain ⟨hbound, hk⟩ := hvalued hvalue hcls.2 harity hle
      exact hk.append (.store ty reg.index hbound)
    | item x index t p =>
      obtain ⟨reg, k₁, k₂, -, hpush, hvalue, rfl⟩ := assign_item_ok hinstr
      have hindex := one_le_depth (o := index) hcls.1
      have hrhs := one_le_depth_of_value hvalue hcls.2
      rw [Instr.depth] at hle
      have harray : Balanced outer bound 0 [.aload reg.index] 1 :=
        .plain rfl (Nat.zero_le _) (by omega)
      have hk₁ : Balanced outer bound 1 k₁ 2 := push_balanced hpush hcls.1 (by omega)
      have hk₂ : Balanced outer bound 2 k₂ 3 :=
        value_balanced hinner hvalue hcls.2 harity (by omega)
      exact harray.append (hk₁.append (hk₂.append (.storeItem ty (by omega))))
    | literal | cls => exact absurd hinstr Stage.fail_ne_ok
  | call kind target method args params ty =>
    obtain ⟨k, hcall, -, rfl⟩ := instr_call_ok hinstr
    have hk : Balanced outer bound 0 k (if ty = .void then 0 else 0 + 1) :=
      call_balanced hcall hcls harity (by omega)
    rw [Instr.depth] at hle
    refine hk.append ?_
    split
    · exact .nil
    · exact .plain rfl (Nat.le_refl 1) (by omega)
  | putField field v =>
    rw [Instr.strayClasses, List.append_eq_nil_iff] at hcls
    cases field with
    | var x ty p =>
      obtain ⟨k, hpush, -, rfl⟩ := instr_putField_ok hinstr
      have hv := one_le_depth hcls.2
      rw [Instr.depth] at hle
      have hthis : Balanced outer bound 0 [.aload0] 1 := .plain rfl (Nat.zero_le _) (by omega)
      have hk : Balanced outer bound 1 k 2 := push_balanced hpush hcls.2 (by omega)
      exact hthis.append (hk.append (.plain rfl (Nat.le_refl 2) (by omega)))
    | literal | item | cls => exact absurd hinstr Stage.fail_ne_ok
  | goto l =>
    obtain ⟨-, rfl⟩ := Stage.emit_ok_iff.1 hinstr
    refine .line (Nat.le_refl 0) (Nat.zero_le _) ?_ (by simp)
    rintro l' ⟨⟩
    exact ⟨hjump l rfl, rfl⟩
  | branch c l =>
    obtain ⟨k, hpush, -, rfl⟩ := instr_branch_ok hinstr
    have hc : 1 ≤ c.depth := one_le_depth hcls
    rw [Instr.depth] at hle
    have hk : Balanced outer bound 0 k 1 := push_balanced hpush hcls (by omega)
    refine hk.append (.line (a := .ifne l) (Nat.le_refl 1) (by omega) ?_ (by simp))
    rintro l' ⟨⟩
    exact ⟨hjump l rfl, rfl⟩
  | label l =>
    obtain ⟨-, rfl⟩ := Stage.emit_ok_iff.1 hinstr
    exact .line (Nat.le_refl 0) (Nat.zero_le _) (by simp [Asm.jump?]) fun _ _ _ => rfl
  | ret ty o =>
    by_cases hty : ty = .void
    · subst hty
      obtain ⟨-, rfl⟩ := Stage.emit_ok_iff.1 hinstr
      exact .plain rfl (Nat.le_refl 0) (Nat.zero_le _)
    · cases o with
      | none => cases ty <;> first | exact absurd rfl hty | exact absurd hinstr Stage.fail_ne_ok
      | some o =>
        obtain ⟨k, hpush, -, rfl⟩ := instr_ret_ok hty hinstr
        have ho : 1 ≤ o.depth := one_le_depth hcls
        rw [Instr.depth] at hle
        have hk : Balanced outer bound 0 k 1 := push_balanced hpush hcls (by omega)
        exact hk.append (.returnOf ty (by omega))
  | value | not | binary | newObject | newArray | length | getField =>
    obtain ⟨k, hvalue, rfl⟩ := pop_ok hinstr
    obtain ⟨hbound, hk⟩ := hvalued hvalue hcls harity hle
    exact hk.append (.plain rfl (Nat.le_refl 1) hbound)

end Frame

end

/-! ## Methods -/

/-- The blocks of a method in a row. Before each of them the stack is empty. -/
theorem Emitted.leveled {outer : String → Prop} {bound : Nat} {f : Frame}
    {is : List Instr} {n n' : Nat} {code : List (List Asm)} (h : Emitted f is n code n')
    (hinner : ∀ k, ¬outer (trueLabel k) ∧ ¬outer (doneLabel k))
    (his : ∀ i ∈ is, i.strayClasses = [] ∧ i.arityFits = true ∧ (∀ l, i.jump? = some l → outer l) ∧
      i.depth ≤ bound) :
    ∃ lines, lines.map Prod.snd = code.flatten ∧ Steady outer bound lines 0 ∧
      ∀ j ≤ code.length, (levels lines 0)[blockStart code j]? = some 0 := by
  induction h with
  | nil =>
    refine ⟨[], rfl, .nil 0, fun j _ => ?_⟩
    simp [blockStart, levels]
  | @cons i is n n₁ n' k ks hinstr hrest ih =>
    rw [List.forall_mem_cons] at his
    obtain ⟨⟨hcls, harity, hjump, hdepth⟩, his⟩ := his
    obtain ⟨first, hfirst, hentry, hsteady⟩ :=
      Frame.instr_balanced hinner hinstr hcls harity hjump hdepth
    obtain ⟨second, hsecond, hsteady', hblocks⟩ := ih his
    -- Every block starts and ends with an empty stack, so the levels of the blocks fit together.
    have hmid : (levels second 0)[0]? = some 0 := hblocks 0 (Nat.zero_le _)
    refine ⟨first ++ second, ?_, hsteady.append hsteady' hmid, fun j hj => ?_⟩
    · rw [List.map_append, hfirst, hsecond, List.flatten_cons]
    · cases j with
      | zero => exact (getElem?_levels_left hmid (Nat.zero_le _)).trans hentry
      | succ j =>
        have hstart : blockStart (k :: ks) (j + 1) = first.length + blockStart ks j := by
          rw [blockStart, List.take_succ_cons, List.flatten_cons, List.length_append, ← hfirst,
            List.length_map, blockStart]
        rw [hstart, getElem?_levels_right]
        exact hblocks j (Nat.le_of_succ_le_succ hj)

/-- What the stack is like along all paths through the code of a method, which is given in blocks.
The labels of the method itself, and not those of its comparisons, are `own`. -/
structure Disciplined (bound : Nat) (own : List String) (code : List (List Asm)) : Prop where
  /-- It is never below zero, also while a line is taken. -/
  enough : ∀ {pc : Nat} {h : Int}, Path code.flatten pc h →
    0 ≤ h ∧ ∀ a, code.flatten[pc]? = some a → (a.pops : Int) ≤ h
  /-- It does not depend on the path. -/
  same : ∀ {pc : Nat} {h h' : Int}, Path code.flatten pc h → Path code.flatten pc h' → h = h'
  block : ∀ {j : Nat} {h : Int}, j < code.length → Path code.flatten (blockStart code j) h → h = 0
  label : ∀ {pc : Nat} {h : Int} {l : String}, Path code.flatten pc h →
    code.flatten[pc]? = some (.label l) → l ∈ own → h = 0
  goto : ∀ {pc : Nat} {h : Int} {l : String}, Path code.flatten pc h →
    code.flatten[pc]? = some (.goto l) → l ∈ own → h = 0
  bounded : ∀ {pc : Nat} {h : Int}, Path code.flatten pc h → h ≤ bound
  /-- The machine keeps to the bound, too. -/
  runs : ∀ {O : Type} {view : Op → O} {W : World O} {registers : UInt16 → Option (Value W.Ref)}
    {heap heap' : W.Heap} {t : List (Request O W.Ref)} {s : Control (Memory W)},
    (machine view W).Reaches code.flatten ⟨0, [], registers⟩ heap t s heap' →
      s.data.stack.length ≤ bound

theorem Disciplined.mono {bound bound' : Nat} {own : List String} {code : List (List Asm)}
    (h : Disciplined bound own code) (hle : bound ≤ bound') : Disciplined bound' own code where
  enough := h.enough
  same := h.same
  block := h.block
  label := h.label
  goto := h.goto
  bounded hpath := Int.le_trans (h.bounded hpath) (Int.ofNat_le.2 hle)
  runs hreach := Nat.le_trans (h.runs hreach) hle

/-- **Methods.** Code whose instructions are not deeper than the bound keeps to it. -/
theorem Emitted.disciplined {bound : Nat} {f : Frame} {is : List Instr} {n n' : Nat}
    {code : List (List Asm)} (h : Emitted f is n code n') (hclosed : Closed is)
    (hdistinct : (Ir.labels is).Nodup)
    (hother : ∀ l ∈ Ir.labels is, ∀ k, l ≠ trueLabel k ∧ l ≠ doneLabel k)
    (his : ∀ i ∈ is, i.strayClasses = [] ∧ i.arityFits = true ∧ i.depth ≤ bound) :
    Disciplined bound (Ir.labels is) code := by
  have hinner : ∀ k, trueLabel k ∉ Ir.labels is ∧ doneLabel k ∉ Ir.labels is := fun k =>
    ⟨fun hk => (hother _ hk k).1 rfl, fun hk => (hother _ hk k).2 rfl⟩
  -- All that is claimed about paths is read off one assignment of heights to lines.
  obtain ⟨lines, hcode, hsteady, hblocks⟩ := h.leveled hinner fun i hi =>
    ⟨(his i hi).1, (his i hi).2.1,
      fun l hl => hclosed (List.mem_filterMap.2 ⟨i, hi, hl⟩), (his i hi).2.2⟩
  have hentry := hblocks 0 (Nat.zero_le _)
  have hlabels := h.nodup_labels hdistinct hother
  have hlevel : ∀ {pc : Nat} {x : Int}, Path code.flatten pc x →
      ∃ m : Nat, x = m ∧ (levels lines 0)[pc]? = some m :=
        hsteady.level_of_path hcode hentry hlabels
  have hline : ∀ {pc : Nat} {x : Int} {a : Asm}, Path code.flatten pc x →
      code.flatten[pc]? = some a → ∃ m : Nat, x = m ∧ (m, a) ∈ lines :=
    hsteady.line_of_path hcode hentry hlabels
  have hbounded : ∀ {pc : Nat} {x : Int}, Path code.flatten pc x → x ≤ bound :=
    hsteady.le_of_path hcode hentry hlabels (Nat.zero_le _)
  constructor
  case enough =>
    intro pc x hpath
    constructor
    · obtain ⟨m, rfl, -⟩ := hlevel hpath
      exact Int.natCast_nonneg m
    · intro a ha
      obtain ⟨m, rfl, hmem⟩ := hline hpath ha
      exact Int.ofNat_le.2 (hsteady.pops hmem)
  case same =>
    intro pc x y hx hy
    obtain ⟨m, rfl, hm⟩ := hlevel hx
    obtain ⟨m', rfl, hm'⟩ := hlevel hy
    rw [Option.some.inj (hm.symm.trans hm')]
  case block =>
    intro j x hj hpath
    obtain ⟨m, rfl, hm⟩ := hlevel hpath
    rw [Option.some.inj (hm.symm.trans (hblocks j (Nat.le_of_lt hj)))]
    rfl
  case label =>
    intro pc x l hpath hset hl
    obtain ⟨m, rfl, hmem⟩ := hline hpath hset
    rw [hsteady.label hmem hl]
    rfl
  case goto =>
    intro pc x l hpath hgoto hl
    obtain ⟨m, rfl, hmem⟩ := hline hpath hgoto
    rw [hsteady.goto hmem hl]
    rfl
  case bounded => exact hbounded
  case runs =>
    intro O view W registers heap heap' t s hreach
    exact Int.ofNat_le.1 (hbounded (Path.of_reaches hreach .start))

/-! ## Programs -/

/-- How high the stack of a method may get: three values, or an object and all arguments of a
call. -/
def stackBound (m : Method) : Nat := max 3 (1 + argCount m.code)

/-- The method keeps to its bound. The standard limit is enough if no call has more than 98
arguments; constructors have no limit in their heading, and need but one value. -/
structure KeepsBound (u : ClassUnit) (m : Method) (code : List (List Asm)) : Prop where
  length_eq : code.length = m.code.length
  disciplined : Disciplined (stackBound m) (Ir.labels m.code) code
  standard : argCount m.code ≤ 98 →
    Disciplined ({} : Limits).stack.toNat (Ir.labels m.code) code
  constructed : m.isConstructor = true → Disciplined 1 (Ir.labels m.code) code ∧
    ∀ limits, heading u limits m = ";default constructor\n.method public <init>()V\n"

/-- What is needed of the code of a method, and is so in all lowered methods. -/
structure Orderly (m : Method) : Prop where
  flat : Flat m.code
  closed : Closed m.code
  distinct : (Ir.labels m.code).Nodup
  other : ∀ l ∈ Ir.labels m.code, ∀ k, l ≠ trueLabel k ∧ l ≠ doneLabel k
  constructed : m.isConstructor = true → ∀ i ∈ m.code, i.depth ≤ 1

theorem EmittedAll.keepsBound {u : ClassUnit} {ms : List Method} {n n' : Nat}
    {codes : List (List (List Asm))} (h : EmittedAll u ms n codes n') (hms : ∀ m ∈ ms, Orderly m)
    (hcls : ∀ m ∈ ms, ∀ i ∈ m.code, i.strayClasses = []) :
    List.Forall₂ (KeepsBound u) ms codes := by
  induction h with
  | nil => exact .nil
  | @cons m ms n n₁ n' code codes hemitted _ ih =>
    obtain ⟨hm, hrest⟩ := List.forall_mem_cons.1 hms
    obtain ⟨hclsm, hclsrest⟩ := List.forall_mem_cons.1 hcls
    refine .cons ?_ (ih hrest hclsrest)
    -- One statement for all three bounds, which differ only in how deep instructions may be.
    have hkeeps : ∀ {bound : Nat}, (∀ i ∈ m.code, i.depth ≤ bound) →
        Disciplined bound (Ir.labels m.code) code := fun hdepth =>
      hemitted.disciplined hm.closed hm.distinct hm.other fun i hi =>
        ⟨hclsm i hi, (hm.flat i hi).2, hdepth i hi⟩
    have hbound : Disciplined (stackBound m) (Ir.labels m.code) code := by
      refine hkeeps fun i hi => ?_
      have hdepth := Instr.depth_le_of_isFlat (hm.flat i hi).1
      have hargs := argCount_le hi
      rw [stackBound]
      omega
    refine ⟨hemitted.length_eq, hbound, fun hargs => hbound.mono ?_, fun hctor => ⟨?_, ?_⟩⟩
    · have hlimit : ({} : Limits).stack.toNat = 99 := rfl
      rw [stackBound, hlimit]
      omega
    · exact hkeeps (hm.constructed hctor)
    · intro limits
      rw [heading, if_pos hctor]

variable {p : Program} {table : SymbolTable} {a : Annotation} {units : List ClassUnit}

theorem orderly_of_lower {c : Counters} (h : p.checked table = .ok a)
    (hlow : ((p.lower table a.types).run c).result = .ok units) {u : ClassUnit} (hu : u ∈ units)
    {m : Method} (hm : m ∈ u.methods) : Orderly m := by
  obtain ⟨c', events, hrun⟩ := Stage.run_of_result hlow
  have hlabelled : Labelled c c' m.code :=
    ((Program.lower_labelled hrun).of_sublist
      (List.sublist_flatten_of_mem (List.mem_map_of_mem hu))).of_sublist
      (List.sublist_flatten_of_mem (List.mem_map_of_mem hm))
  have hother : ∀ l ∈ Ir.labels m.code, ∀ k, l ≠ trueLabel k ∧ l ≠ doneLabel k := by
    intro l hl
    obtain ⟨k, -, -, hk⟩ := hlabelled.numbered l hl
    exact ne_comparisonLabel_of_labelOf hk
  have hclosed := (Program.lower_methods_closed (Program.checked_ok_iff.1 h).2 hrun hu hm).1
  obtain ⟨d, -, cls, -, -, hmethods⟩ := Program.lower_methods hrun hu
  -- The only constructor is the one that lowering adds: it pushes its object and nothing else.
  rcases hmethods m hm with hctor | ⟨md, -, method, -, hto⟩
  · refine ⟨hctor ▸ Method.flat_defaultConstructor u.name, hclosed, hlabelled.nodup, hother, ?_⟩
    rw [hctor]
    intro _ i hi
    simp only [Method.defaultConstructor, List.mem_cons, List.not_mem_nil, or_false] at hi
    rcases hi with rfl | rfl
    · exact Nat.le_refl 1
    · exact Nat.zero_le 1
  · have hflat := hto.flat
    obtain ⟨c₁, c₂, events', hmrun⟩ := hto
    obtain ⟨-, -, -, hnot, -⟩ := MethodDecl.lower_heading hmrun
    refine ⟨hflat, hclosed, hlabelled.nodup, hother, fun hctor => ?_⟩
    rw [hnot] at hctor
    cases hctor

/-- **The operand stack is disciplined.** Let a program be compiled, and let its three-address code
have no class as an operand but for targets of static calls. The text of each class lists its
methods with a block of lines for each instruction. Along all paths through the lines of a method,
the stack has one height in each line. It is never less than what the line takes, it is zero before
each block, label and goto of the method, and it is at most three or, if that is more, one more than
the largest number of arguments of a call. -/
theorem operand_stack_disciplined {options : Options} {out : Output}
    (h : p.compiled table options = .ok out) :
    ∃ units, p.lowered table = .ok units ∧
      ((∀ u ∈ units, ∀ m ∈ u.methods, ∀ i ∈ m.code, i.strayClasses = []) →
        List.Forall₂ (fun u c => ∃ codes,
            c.assembly = classText u options.limits (listings u.emissionOrder codes) ∧
            List.Forall₂ (KeepsBound u) u.emissionOrder codes)
          units out.classes) := by
  obtain ⟨a, units, hchecked, hlow, hclasses⟩ := Program.compiled_ok h
  refine ⟨units, Program.lowered_ok_iff.2 ⟨a, hchecked, hlow⟩, fun hcls => ?_⟩
  refine List.Forall₂.imp ?_
    ((List.forall₂_and_left units out.classes).2 ⟨fun u hu => hu, hclasses⟩)
  rintro u c ⟨hu, hc⟩
  obtain ⟨codes, n, hemitted, htext⟩ := Emitter.build_listed rfl hc.assembly
  refine ⟨codes, htext, hemitted.keepsBound ?_ ?_⟩
  · intro m hm
    exact orderly_of_lower hchecked hlow hu (mem_emissionOrder.1 hm)
  · intro m hm
    exact hcls u hu m (mem_emissionOrder.1 hm)

/-! A loop that stores what a call gives into an array, and a call of a static method. -/

namespace Loom

/-- `while (n < top) { rows[n] = this.fill(rows, n + 1, top); n = n + 1; }`. -/
def weave : Stmt :=
  .whileLoop .unknown (.binary { id := 0 } .lt (.var { id := 1 } "n") (.var { id := 2 } "top"))
    (.block .unknown
      [.arrayAssign .unknown { node := "rows" } (.var { id := 3 } "n")
        (.call { id := 4 } (.this { id := 5 }) { node := "fill" }
          [.var { id := 6 } "rows",
            .binary { id := 7 } .add (.var { id := 8 } "n") (.int { id := 9 } 1),
            .var { id := 10 } "top"]),
        .assign .unknown { node := "n" }
          (.binary { id := 11 } .add (.var { id := 12 } "n") (.int { id := 13 } 1))])

/-- `io.put(n);`. -/
def report : Stmt :=
  .expr .unknown
    (.call { id := 14 } (.var { id := 15 } "io") { node := "put" } [.var { id := 16 } "n"])

def fill : MethodDecl where
  name := { node := "fill" }
  returnTy := { node := .int }
  params := [⟨{ node := "rows" }, { node := .array .int }⟩, ⟨{ node := "n" }, { node := .int }⟩,
    ⟨{ node := "top" }, { node := .int }⟩]
  body := [weave, report, .ret .unknown (some (.var { id := 17 } "n"))]

def program : Program where
  imports := [{ node := "io" }]
  classes := [{ name := { node := "Loom" }, methods := [fill] }]

theorem fill_disciplined : ∃ u m c codes out, program.lowered (.ofProgram program) = .ok [u] ∧
    program.compiled (.ofProgram program) {} = .ok out ∧ out.classes = [c] ∧
    (∀ m ∈ u.methods, ∀ i ∈ m.code, i.strayClasses = []) ∧
    u.emissionOrder = [.defaultConstructor "Loom", m] ∧ stackBound m = 4 ∧
    c.assembly = classText u {} (listings u.emissionOrder codes) ∧
    List.Forall₂ (KeepsBound u) u.emissionOrder codes := by
  have hchecked : program.checked (.ofProgram program) =
      .ok (program.annotate (.ofProgram program)) :=
    Program.checked_ok_iff.2 ⟨Program.uniqueIds_iff_nodup.2 (by decide), rfl⟩
  have hlow : ∃ u m, ((program.lower (.ofProgram program)
      (program.annotate (.ofProgram program)).types).run {}).result = .ok [u] ∧
      (∀ m ∈ u.methods, ∀ i ∈ m.code, i.strayClasses = []) ∧
      u.emissionOrder = [.defaultConstructor "Loom", m] ∧ stackBound m = 4 :=
    ⟨_, _, rfl, by decide, rfl, rfl⟩
  obtain ⟨u, m, hunits, hcls, horder, hbound⟩ := hlow
  obtain ⟨classes, hcompiled, hclasses⟩ := Program.compiled_of_lower {} hchecked hunits
  obtain ⟨c, rest, -, hrest, rfl⟩ := List.forall₂_cons_left_iff.1 hclasses
  cases hrest
  have hlowered := Program.lowered_ok_iff.2 ⟨_, hchecked, hunits⟩
  obtain ⟨units, hunits', hkeeps⟩ := operand_stack_disciplined hcompiled
  cases hlowered.symm.trans hunits'
  obtain ⟨⟨codes, htext, hcodes⟩, -⟩ := List.forall₂_cons.1 (hkeeps (by simpa using hcls))
  exact ⟨u, m, c, codes, _, hlowered, hcompiled, rfl, hcls, horder, hbound, htext, hcodes⟩

end Loom

end MiniJava.Assembly
