import MiniJava.Proofs.Emission.Blocks

/-!
# Instructions fit the types

Integers and references are loaded, stored and returned by instructions of their own. The machine of
`Semantics.StackMachine` does not tell them apart as long as they stay in registers and on the
stack, so nothing in a simulation says that the right ones are emitted. Here is what does: the kinds
of a block, in order, are the kinds of what its instruction reads and writes (`Frame.instr_kinds`).
-/

namespace MiniJava.Ir

open Assembly (Kind)

/-- The kinds that are loaded when an operand is read. An item is loaded from an array, which is a
reference. -/
def Operand.kinds : Operand → List Kind
  | .literal .. | .cls _ => []
  | .var x t _ => [if x = "this" then .ref else kindOf t]
  | .item _ i t _ => .ref :: (i.kinds ++ [kindOf t])

/-- The kinds that an instruction loads, and then stores or returns. -/
def Instr.kinds : Instr → List Kind
  | .value o | .not o _ | .newArray o _ | .length o | .branch o _ => o.kinds
  | .binary _ l r _ => l.kinds ++ r.kinds
  | .call kind target _ args _ _ =>
    (if kind = .static then [] else target.kinds) ++ args.flatMap Operand.kinds
  | .getField .. => [.ref]
  | .putField _ v => .ref :: v.kinds
  | .assign (.item _ i _ _) ty rhs => .ref :: (i.kinds ++ (rhs.kinds ++ [kindOf ty]))
  | .assign _ ty rhs => rhs.kinds ++ [kindOf ty]
  | .ret .void _ | .ret _ none => []
  | .ret ty (some o) => o.kinds ++ [kindOf ty]
  | .newObject _ | .goto _ | .label _ => []

end MiniJava.Ir

namespace MiniJava.Assembly

open Ir

/-- The kind of what an instruction loads, stores or returns. -/
def Asm.kind? : Asm → Option Kind
  | .iload _ | .istore _ | .iaload | .iastore | .ireturn => some .int
  | .aload _ | .aload0 | .astore _ | .aaload | .aastore | .areturn => some .ref
  | _ => none

/-- The kinds of the instructions that have one, in order. -/
def kinds (code : List Asm) : List Kind := code.filterMap Asm.kind?

@[simp] theorem kinds_nil : kinds [] = [] := rfl

@[simp] theorem kinds_append (p q : List Asm) : kinds (p ++ q) = kinds p ++ kinds q :=
  List.filterMap_append

@[simp] theorem kinds_load (ty : Ty) (r : UInt16) : kinds [.load ty r] = [kindOf ty] := by
  cases ty <;> rfl

@[simp] theorem kinds_store (ty : Ty) (r : UInt16) : kinds [.store ty r] = [kindOf ty] := by
  cases ty <;> rfl

@[simp] theorem kinds_loadItem (ty : Ty) : kinds [.loadItem ty] = [kindOf ty] := by
  cases ty <;> rfl

@[simp] theorem kinds_storeItem (ty : Ty) : kinds [.storeItem ty] = [kindOf ty] := by
  cases ty <;> rfl

@[simp] theorem kinds_returnOf (ty : Ty) : kinds [.returnOf ty] = [kindOf ty] := by
  cases ty <;> rfl

@[simp] theorem kinds_makeArray (u : ClassUnit) (ty : Ty) : kinds [makeArray u ty] = [] := by
  unfold makeArray
  split <;> rfl

theorem kinds_aload (r : UInt16) (code : List Asm) :
    kinds (.aload r :: code) = .ref :: kinds code :=
  rfl

theorem kinds_aload0 (code : List Asm) : kinds (.aload0 :: code) = .ref :: kinds code := rfl

namespace Frame

variable {f : Frame} {n n' : Nat} {code : List Asm}

theorem push_kinds {o : Operand} (h : f.push o = .ok code) : kinds code = o.kinds := by
  induction o generalizing code with
  | literal | cls =>
    injection h with h
    subst h
    rfl
  | var x ty p =>
    rw [push] at h
    split at h
    · next hx =>
      injection h with h
      subst h
      rw [Operand.kinds, if_pos (beq_iff_eq.1 hx)]
      rfl
    · next hx =>
      obtain ⟨r, -, h⟩ := bind_ok h
      injection h with h
      subst h
      rw [Operand.kinds, if_neg fun heq => hx (beq_iff_eq.2 heq), kinds_load]
  | item x i ty p ih =>
    obtain ⟨r, -, h⟩ := bind_ok h
    obtain ⟨index, hindex, h⟩ := bind_ok h
    injection h with h
    subst h
    rw [kinds_aload, kinds_append, ih hindex, kinds_loadItem, Operand.kinds]

theorem pushAll_kinds {os : List Operand} (h : f.pushAll os = .ok code) :
    kinds code = os.flatMap Operand.kinds := by
  induction os generalizing code with
  | nil =>
    injection h with h
    subst h
    rfl
  | cons o os ih =>
    obtain ⟨k₁, hk₁, h⟩ := bind_ok h
    obtain ⟨k₂, hk₂, h⟩ := bind_ok h
    injection h with h
    subst h
    rw [kinds_append, push_kinds hk₁, ih hk₂, List.flatMap_cons]

theorem call_kinds {kind : CallKind} {target : Operand} {method : String} {args : List Operand}
    {params : Option (List Ty)} {ty : Ty}
    (h : f.call kind target method args params ty = .ok code) :
    kinds code = (Instr.call kind target method args params ty).kinds := by
  obtain ⟨object, pushed, hobject, hpushed, rfl⟩ := call_ok h
  have hreceiver : kinds object = if kind = .static then [] else target.kinds := by
    by_cases hkind : kind = .static
    · simp only [hkind, beq_self_eq_true, if_true, Except.ok.injEq] at hobject ⊢
      subst hobject
      rfl
    · simp only [hkind, beq_iff_eq, if_false] at hobject ⊢
      exact push_kinds hobject
  have hinvoke : kinds [invocation f.unit f.method kind target method
      (params.getD (args.map Operand.ty)) ty] = [] := rfl
  rw [kinds_append, kinds_append, hreceiver, pushAll_kinds hpushed, hinvoke, List.append_nil,
    Instr.kinds]

theorem operator_kinds {op : BinOp} (h : (operator op).run n = ⟨.ok (), n', code⟩) :
    kinds code = [] := by
  cases op with
  | lt =>
    injection h with _ _ hcode
    subst hcode
    rfl
  | add | sub | mul | div | and =>
    obtain ⟨-, rfl⟩ := Stage.emit_ok_iff.1 h
    rfl

theorem value_kinds {i : Instr} (h : (f.value i).run n = ⟨.ok (), n', code⟩) :
    kinds code = i.kinds := by
  cases i with
  | value o => exact push_kinds (write_ok_iff.1 h).1
  | not o ty =>
    obtain ⟨k, _, hpush, hrest, rfl⟩ := write_bind_ok h
    injection hrest with _ _ hrest
    subst hrest
    rw [kinds_append, push_kinds hpush]
    exact List.append_nil _
  | binary op l r ty =>
    obtain ⟨k₁, _, hl, hrest, rfl⟩ := write_bind_ok h
    obtain ⟨k₂, k₃, hr, hop, rfl⟩ := write_bind_ok hrest
    rw [kinds_append, kinds_append, push_kinds hl, push_kinds hr, operator_kinds hop,
      List.append_nil, Instr.kinds]
  | call kind target method args params ty => exact call_kinds (value_call_ok h).1
  | newObject c =>
    obtain ⟨-, rfl⟩ := Stage.emit_ok_iff.1 h
    rfl
  | newArray size ty =>
    obtain ⟨k, _, hpush, hrest, rfl⟩ := write_bind_ok h
    obtain ⟨-, rfl⟩ := Stage.emit_ok_iff.1 hrest
    rw [kinds_append, push_kinds hpush, kinds_makeArray, List.append_nil, Instr.kinds]
  | length a =>
    obtain ⟨k, _, hpush, hrest, rfl⟩ := write_bind_ok h
    obtain ⟨-, rfl⟩ := Stage.emit_ok_iff.1 hrest
    rw [kinds_append, push_kinds hpush]
    exact List.append_nil _
  | getField field ty =>
    injection h with _ _ hcode
    subst hcode
    rfl
  | assign | putField | goto | branch | label | ret => exact absurd h Stage.fail_ne_ok

/-- **Instructions fit the types.** The block of an instruction loads, stores and returns integers
as integers and references as references. -/
theorem instr_kinds {i : Instr} (h : (f.instr i).run n = ⟨.ok (), n', code⟩) :
    kinds code = i.kinds := by
  cases i with
  | assign dest ty rhs =>
    cases dest with
    | var x t p =>
      obtain ⟨k, reg, hvalue, -, rfl⟩ := assign_var_ok h
      rw [kinds_append, value_kinds hvalue, kinds_store]
      rfl
    | item x index t p =>
      obtain ⟨reg, k₁, k₂, -, hpush, hvalue, rfl⟩ := assign_item_ok h
      -- An array is a reference whatever its items are; the kind of the store is that of the item.
      rw [kinds_aload, kinds_append, kinds_append, push_kinds hpush, value_kinds hvalue,
        kinds_storeItem, Instr.kinds]
    | literal | cls => exact absurd h Stage.fail_ne_ok
  | call kind target method args params ty =>
    obtain ⟨k, hcall, -, rfl⟩ := instr_call_ok h
    have hpop : kinds (if ty = .void then [] else [.pop]) = [] := by
      split <;> rfl
    rw [kinds_append, call_kinds hcall, hpop, List.append_nil]
  | putField field v =>
    cases field with
    | var x ty p =>
      obtain ⟨k, hpush, -, rfl⟩ := instr_putField_ok h
      rw [kinds_aload0, kinds_append, push_kinds hpush]
      exact congrArg _ (List.append_nil _)
    | literal | item | cls => exact absurd h Stage.fail_ne_ok
  | goto | label =>
    obtain ⟨-, rfl⟩ := Stage.emit_ok_iff.1 h
    rfl
  | branch c l =>
    obtain ⟨k, hpush, -, rfl⟩ := instr_branch_ok h
    rw [kinds_append, push_kinds hpush]
    exact List.append_nil _
  | ret ty o =>
    by_cases hty : ty = .void
    · subst hty
      obtain ⟨-, rfl⟩ := Stage.emit_ok_iff.1 h
      cases o <;> rfl
    · cases o with
      | none => cases ty <;> first | exact absurd rfl hty | exact absurd h Stage.fail_ne_ok
      | some o =>
        obtain ⟨k, hpush, -, rfl⟩ := instr_ret_ok hty h
        -- The return has the kind of the declared type, not that of the operand.
        rw [kinds_append, push_kinds hpush, kinds_returnOf]
        cases ty <;> first | exact absurd rfl hty | rfl
  | value | not | binary | newObject | newArray | length | getField =>
    obtain ⟨k, hvalue, rfl⟩ := pop_ok h
    rw [kinds_append, value_kinds hvalue]
    exact List.append_nil _

end Frame

/-- Each block of a method has the kinds of its instruction. -/
theorem Emitted.kinds_eq {f : Frame} {is : List Instr} {n n' : Nat} {code : List (List Asm)}
    (h : Emitted f is n code n') : code.map kinds = is.map Instr.kinds := by
  induction h with
  | nil => rfl
  | cons hinstr _ ih => rw [List.map_cons, List.map_cons, Frame.instr_kinds hinstr, ih]

end MiniJava.Assembly
