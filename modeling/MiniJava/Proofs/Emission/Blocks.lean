import MiniJava.Proofs.Emission.Values
import Mathlib.Data.List.Nodup

/-!
# Blocks of emitted code

The code of a method is one block for each of its instructions, one block after the other
(`Emitted`). A block sets the label that its instruction sets, and the two labels of a comparison,
whose number no other block has (`Emitted.labels_perm`). So the labels of the whole code are all
different if those of the instructions are, and none of these is one of a comparison.
-/

namespace MiniJava.Assembly

open Ir

/-! ## Labels of a block -/

/-- The labels of the comparisons numbered from `n` up to `n'`. -/
def comparisonLabels (n n' : Nat) : List String :=
  (List.range' n (n' - n)).flatMap fun k => [trueLabel k, doneLabel k]

@[simp] theorem comparisonLabels_self (n : Nat) : comparisonLabels n n = [] := by
  simp [comparisonLabels]

theorem comparisonLabels_succ (n : Nat) :
    comparisonLabels n (n + 1) = [trueLabel n, doneLabel n] := by
  simp [comparisonLabels]

theorem comparisonLabels_append {n n₁ n₂ : Nat} (h₁ : n ≤ n₁) (h₂ : n₁ ≤ n₂) :
    comparisonLabels n n₁ ++ comparisonLabels n₁ n₂ = comparisonLabels n n₂ := by
  rw [comparisonLabels, comparisonLabels, comparisonLabels, ← List.flatMap_append]
  congr 1
  have hstart : n₁ = n + 1 * (n₁ - n) := by omega
  have hlen : n₂ - n = (n₁ - n) + (n₂ - n₁) := by omega
  rw [hlen, ← List.range'_append, ← hstart]

theorem mem_comparisonLabels {n n' : Nat} {l : String} (h : l ∈ comparisonLabels n n') :
    ∃ k, l = trueLabel k ∨ l = doneLabel k := by
  obtain ⟨k, -, hl⟩ := List.mem_flatMap.1 h
  exact ⟨k, by simpa using hl⟩

theorem nodup_comparisonLabels (n n' : Nat) : (comparisonLabels n n').Nodup := by
  rw [comparisonLabels, List.nodup_flatMap]
  constructor
  · intro k _
    simpa using trueLabel_ne_doneLabel k k
  · refine List.Pairwise.imp ?_ List.nodup_range'
    intro j k hne l hj hk
    simp only [List.mem_cons, List.not_mem_nil, or_false] at hj hk
    rcases hj with rfl | rfl <;> rcases hk with hk | hk
    · exact hne (trueLabel_inj hk)
    · exact trueLabel_ne_doneLabel _ _ hk
    · exact trueLabel_ne_doneLabel _ _ hk.symm
    · exact hne (doneLabel_inj hk)

/-- Labels that are all different and are not those of comparisons stay so beside them. -/
theorem nodup_append_comparisonLabels {ls : List String} (hdistinct : ls.Nodup)
    (hother : ∀ l ∈ ls, ∀ k, l ≠ trueLabel k ∧ l ≠ doneLabel k) (n n' : Nat) :
    (ls ++ comparisonLabels n n').Nodup := by
  rw [List.nodup_append]
  refine ⟨hdistinct, nodup_comparisonLabels n n', ?_⟩
  intro l hl l' hl' heq
  subst heq
  obtain ⟨k, hk | hk⟩ := mem_comparisonLabels hl'
  · exact (hother l hl k).1 hk
  · exact (hother l hl k).2 hk

theorem perm_append_append_comm (a b c d : List String) :
    ((a ++ b) ++ (c ++ d)).Perm ((a ++ c) ++ (b ++ d)) := by
  rw [List.perm_iff_count]
  intro l
  simp only [List.count_append]
  omega

/-! ## Code without labels -/

/-- The instruction neither sets a label nor jumps to one. -/
def Asm.isPlain (a : Asm) : Bool := a.label?.isNone && a.jump?.isNone

/-- The instruction pushes a constant, a variable or an item. -/
def Asm.isLoad : Asm → Bool
  | .ldc _ | .iload _ | .aload _ | .aload0 | .iaload | .aaload => true
  | _ => false

theorem Asm.isPlain_of_isLoad {a : Asm} (h : a.isLoad = true) : a.isPlain = true := by
  cases a <;> first | rfl | cases h

@[simp] theorem isLoad_load (ty : Ty) (r : UInt16) : (Asm.load ty r).isLoad = true := by
  rw [Asm.load]
  split <;> rfl

@[simp] theorem isLoad_loadItem (ty : Ty) : (Asm.loadItem ty).isLoad = true := by
  rw [Asm.loadItem]
  split <;> rfl

@[simp] theorem isPlain_store (ty : Ty) (r : UInt16) : (Asm.store ty r).isPlain = true := by
  rw [Asm.store]
  split <;> rfl

@[simp] theorem isPlain_storeItem (ty : Ty) : (Asm.storeItem ty).isPlain = true := by
  rw [Asm.storeItem]
  split <;> rfl

@[simp] theorem isPlain_returnOf (ty : Ty) : (Asm.returnOf ty).isPlain = true := by
  rw [Asm.returnOf]
  split <;> rfl

@[simp] theorem isPlain_makeArray (u : ClassUnit) (ty : Ty) : (makeArray u ty).isPlain = true := by
  unfold makeArray
  split <;> rfl

/-- All instructions of the code are plain. -/
def Plain (code : List Asm) : Prop := ∀ a ∈ code, a.isPlain = true

namespace Plain

variable {k₁ k₂ : List Asm}

theorem labels_eq_nil (h : Plain k₁) : labels k₁ = [] := by
  rw [labels, List.filterMap_eq_nil_iff]
  intro a ha
  simpa using (Bool.and_eq_true_iff.1 (h a ha)).1

theorem jumps_eq_nil (h : Plain k₁) : jumps k₁ = [] := by
  rw [jumps, List.filterMap_eq_nil_iff]
  intro a ha
  simpa using (Bool.and_eq_true_iff.1 (h a ha)).2

theorem nil : Plain [] := nofun

theorem cons {a : Asm} (ha : a.isPlain = true) (h : Plain k₁) : Plain (a :: k₁) :=
  List.forall_mem_cons.2 ⟨ha, h⟩

theorem append (h₁ : Plain k₁) (h₂ : Plain k₂) : Plain (k₁ ++ k₂) :=
  List.forall_mem_append.2 ⟨h₁, h₂⟩

theorem singleton {a : Asm} (ha : a.isPlain = true) : Plain [a] := nil.cons ha

end Plain

namespace Frame

variable {f : Frame} {code : List Asm}

/-- An operand is only loaded. -/
theorem push_loads {o : Operand} (h : f.push o = .ok code) : ∀ a ∈ code, a.isLoad = true := by
  induction o generalizing code with
  | literal v ty =>
    injection h with h
    subst h
    exact List.forall_mem_singleton.2 rfl
  | var x ty p =>
    rw [push] at h
    split at h
    · injection h with h
      subst h
      exact List.forall_mem_singleton.2 rfl
    · obtain ⟨r, -, h⟩ := bind_ok h
      injection h with h
      subst h
      exact List.forall_mem_singleton.2 (isLoad_load ty r)
  | item x i ty p ih =>
    obtain ⟨r, -, h⟩ := bind_ok h
    obtain ⟨index, hindex, h⟩ := bind_ok h
    injection h with h
    subst h
    exact List.forall_mem_cons.2 ⟨rfl, List.forall_mem_append.2
      ⟨ih hindex, List.forall_mem_singleton.2 (isLoad_loadItem ty)⟩⟩
  | cls c =>
    injection h with h
    subst h
    exact List.forall_mem_nil _

theorem pushAll_loads {os : List Operand} (h : f.pushAll os = .ok code) :
    ∀ a ∈ code, a.isLoad = true := by
  induction os generalizing code with
  | nil =>
    injection h with h
    subst h
    exact List.forall_mem_nil _
  | cons o os ih =>
    obtain ⟨k₁, hk₁, h⟩ := bind_ok h
    obtain ⟨k₂, hk₂, h⟩ := bind_ok h
    injection h with h
    subst h
    exact List.forall_mem_append.2 ⟨push_loads hk₁, ih hk₂⟩

/-- The code of a call loads the target and the arguments and then calls. -/
theorem call_loads {kind : CallKind} {target : Operand} {method : String} {args : List Operand}
    {params : Option (List Ty)} {ty : Ty}
    (h : f.call kind target method args params ty = .ok code) :
    ∃ loads, (∀ a ∈ loads, a.isLoad = true) ∧ code = loads ++
      [invocation f.unit f.method kind target method (params.getD (args.map Operand.ty)) ty] := by
  obtain ⟨object, pushed, hobject, hpushed, rfl⟩ := call_ok h
  refine ⟨object ++ pushed, List.forall_mem_append.2 ⟨?_, pushAll_loads hpushed⟩,
    (List.append_assoc ..).symm⟩
  split at hobject
  · injection hobject with hobject
    subst hobject
    exact List.forall_mem_nil _
  · exact push_loads hobject

theorem push_plain {o : Operand} (h : f.push o = .ok code) : Plain code :=
  fun a ha => Asm.isPlain_of_isLoad (push_loads h a ha)

theorem call_plain {kind : CallKind} {target : Operand} {method : String} {args : List Operand}
    {params : Option (List Ty)} {ty : Ty}
    (h : f.call kind target method args params ty = .ok code) :
    Plain code := by
  obtain ⟨loads, hloads, rfl⟩ := call_loads h
  have hplain : Plain loads := fun a ha => Asm.isPlain_of_isLoad (hloads a ha)
  exact hplain.append (.singleton rfl)

end Frame

/-! ## Code that compares -/

/-- The code sets no label but those of the comparisons that were numbered for it, and jumps to no
other. -/
structure Counted (n n' : Nat) (code : List Asm) : Prop where
  le : n ≤ n'
  sets : labels code = comparisonLabels n n'
  closed : jumps code ⊆ labels code

namespace Counted

variable {n n₁ n₂ : Nat} {k₁ k₂ : List Asm}

theorem of_plain (h : Plain k₁) : Counted n n k₁ where
  le := Nat.le_refl n
  sets := by rw [h.labels_eq_nil, comparisonLabels_self]
  closed := by simp [h.jumps_eq_nil]

theorem trans (h₁ : Counted n n₁ k₁) (h₂ : Counted n₁ n₂ k₂) : Counted n n₂ (k₁ ++ k₂) where
  le := Nat.le_trans h₁.le h₂.le
  sets := by rw [labels_append, h₁.sets, h₂.sets, comparisonLabels_append h₁.le h₂.le]
  closed := by
    rw [jumps_append, labels_append]
    exact List.append_subset.2 ⟨List.Subset.trans h₁.closed (List.subset_append_left ..),
      List.Subset.trans h₂.closed (List.subset_append_right ..)⟩

theorem operator {op : BinOp} (h : (operator op).run n = ⟨.ok (), n₁, k₁⟩) : Counted n n₁ k₁ := by
  cases op with
  | lt =>
    injection h with _ hn hcode
    subst hn hcode
    refine ⟨Nat.le_succ n, (comparisonLabels_succ n).symm, ?_⟩
    show [trueLabel n, doneLabel n] ⊆ [trueLabel n, doneLabel n]
    exact List.Subset.refl _
  | add | sub | mul | div | and =>
    obtain ⟨rfl, rfl⟩ := Stage.emit_ok_iff.1 h
    exact of_plain (.singleton rfl)

end Counted

namespace Frame

variable {f : Frame} {n n' : Nat} {code : List Asm}

theorem value_call_ok {kind : CallKind} {target : Operand} {method : String} {args : List Operand}
    {params : Option (List Ty)} {ty : Ty}
    (h : (f.value (.call kind target method args params ty)).run n = ⟨.ok (), n', code⟩) :
    f.call kind target method args params ty = .ok code ∧ n' = n := by
  rw [value] at h
  split at h
  · exact absurd h Stage.fail_ne_ok
  · exact write_ok_iff.1 h

theorem value_counted {i : Instr} (h : (f.value i).run n = ⟨.ok (), n', code⟩) :
    Counted n n' code := by
  cases i with
  | value o =>
    obtain ⟨hpush, rfl⟩ := write_ok_iff.1 h
    exact .of_plain (push_plain hpush)
  | not o ty =>
    obtain ⟨k, _, hpush, hrest, rfl⟩ := write_bind_ok h
    injection hrest with _ hn hrest
    subst hn hrest
    exact .of_plain ((push_plain hpush).append (.cons rfl (.singleton rfl)))
  -- Only an operator can take a number for labels: all other code of a value is plain.
  | binary op l r ty =>
    obtain ⟨k₁, _, hl, hrest, rfl⟩ := write_bind_ok h
    obtain ⟨k₂, k₃, hr, hop, rfl⟩ := write_bind_ok hrest
    exact (Counted.of_plain (push_plain hl)).trans
      ((Counted.of_plain (push_plain hr)).trans (.operator hop))
  | call kind target method args params ty =>
    obtain ⟨hcall, rfl⟩ := value_call_ok h
    exact .of_plain (call_plain hcall)
  | newObject c =>
    obtain ⟨rfl, rfl⟩ := Stage.emit_ok_iff.1 h
    exact .of_plain (.singleton rfl)
  | newArray size ty =>
    obtain ⟨k, _, hpush, hrest, rfl⟩ := write_bind_ok h
    obtain ⟨rfl, rfl⟩ := Stage.emit_ok_iff.1 hrest
    exact .of_plain ((push_plain hpush).append (.singleton (isPlain_makeArray ..)))
  | length a =>
    obtain ⟨k, _, hpush, hrest, rfl⟩ := write_bind_ok h
    obtain ⟨rfl, rfl⟩ := Stage.emit_ok_iff.1 hrest
    exact .of_plain ((push_plain hpush).append (.singleton rfl))
  | getField field ty =>
    injection h with _ hn hcode
    subst hn hcode
    exact .of_plain (.cons rfl (.singleton rfl))
  | assign | putField | goto | branch | label | ret => exact absurd h Stage.fail_ne_ok

end Frame

/-! ## The parts of a block -/

namespace Frame

variable {f : Frame} {n n' : Nat} {code : List Asm}

theorem assign_var_ok {x : String} {t ty : Ty} {p : Option Nat} {rhs : Instr}
    (h : (f.instr (.assign (.var x t p) ty rhs)).run n = ⟨.ok (), n', code⟩) :
    ∃ k reg, (f.value rhs).run n = ⟨.ok (), n', k⟩ ∧ f.registers.get? x = some reg ∧
      code = k ++ [.store ty reg.index] := by
  obtain ⟨_, _, k, _, hvalue, hrest, rfl⟩ := Stage.bind_ok_iff.1 h
  obtain ⟨r, _, _, _, hlookup, hstore, rfl⟩ := Stage.bind_ok_iff.1 hrest
  obtain ⟨hr, rfl, rfl⟩ := Stage.ofExcept_ok_iff.1 hlookup
  obtain ⟨rfl, rfl⟩ := Stage.emit_ok_iff.1 hstore
  obtain ⟨reg, hreg, rfl⟩ := register_ok hr
  exact ⟨k, reg, hvalue, hreg, rfl⟩

theorem assign_item_ok {x : String} {i : Operand} {t ty : Ty} {p : Option Nat} {rhs : Instr}
    (h : (f.instr (.assign (.item x i t p) ty rhs)).run n = ⟨.ok (), n', code⟩) :
    ∃ reg index k, f.registers.get? x = some reg ∧ f.push i = .ok index ∧
      (f.value rhs).run n = ⟨.ok (), n', k⟩ ∧
      code = .aload reg.index :: (index ++ (k ++ [.storeItem ty])) := by
  obtain ⟨r, _, _, _, hlookup, hload, rfl⟩ := Stage.bind_ok_iff.1 h
  obtain ⟨hr, rfl, rfl⟩ := Stage.ofExcept_ok_iff.1 hlookup
  obtain ⟨_, hrest, rfl⟩ := Stage.emit_bind_ok_iff.1 hload
  obtain ⟨index, _, hindex, hrhs, rfl⟩ := write_bind_ok hrest
  obtain ⟨_, _, k, _, hvalue, hstore, rfl⟩ := Stage.bind_ok_iff.1 hrhs
  obtain ⟨rfl, rfl⟩ := Stage.emit_ok_iff.1 hstore
  obtain ⟨reg, hreg, rfl⟩ := register_ok hr
  exact ⟨reg, index, k, hreg, hindex, hvalue, rfl⟩

theorem instr_call_ok {kind : CallKind} {target : Operand} {method : String} {args : List Operand}
    {params : Option (List Ty)} {ty : Ty}
    (h : (f.instr (.call kind target method args params ty)).run n = ⟨.ok (), n', code⟩) :
    ∃ k, f.call kind target method args params ty = .ok k ∧ n' = n ∧
      code = k ++ if ty = .void then [] else [.pop] := by
  obtain ⟨k, _, hcall, hpop, rfl⟩ := write_bind_ok h
  refine ⟨k, hcall, ?_⟩
  by_cases hty : ty = .void
  · simp only [hty, bne_self_eq_false, Bool.false_eq_true, if_false] at hpop
    obtain ⟨-, rfl, rfl⟩ := Stage.pure_ok_iff.1 hpop
    simp [hty]
  · simp only [hty, bne_iff_ne, ne_eq, not_false_eq_true, if_true] at hpop
    obtain ⟨rfl, rfl⟩ := Stage.emit_ok_iff.1 hpop
    simp [hty]

theorem instr_putField_ok {x : String} {ty : Ty} {p : Option Nat} {v : Operand}
    (h : (f.instr (.putField (.var x ty p) v)).run n = ⟨.ok (), n', code⟩) :
    ∃ k, f.push v = .ok k ∧ n' = n ∧
      code = .aload0 ::
        (k ++ [.putfield (f.unit.classPath f.unit.name) x (f.unit.descriptor ty)]) := by
  obtain ⟨_, hrest, rfl⟩ := Stage.emit_bind_ok_iff.1 h
  obtain ⟨k, _, hpush, hput, rfl⟩ := write_bind_ok hrest
  obtain ⟨rfl, rfl⟩ := Stage.emit_ok_iff.1 hput
  exact ⟨k, hpush, rfl, rfl⟩

theorem instr_branch_ok {c : Operand} {l : String}
    (h : (f.instr (.branch c l)).run n = ⟨.ok (), n', code⟩) :
    ∃ k, f.push c = .ok k ∧ n' = n ∧ code = k ++ [.ifne l] := by
  obtain ⟨k, _, hpush, hjump, rfl⟩ := write_bind_ok h
  obtain ⟨rfl, rfl⟩ := Stage.emit_ok_iff.1 hjump
  exact ⟨k, hpush, rfl, rfl⟩

theorem pop_ok {i : Instr}
    (h : (f.value i >>= fun _ => Stage.emit .pop).run n = ⟨.ok (), n', code⟩) :
    ∃ k, (f.value i).run n = ⟨.ok (), n', k⟩ ∧ code = k ++ [.pop] := by
  obtain ⟨_, _, k, _, hvalue, hpop, rfl⟩ := Stage.bind_ok_iff.1 h
  obtain ⟨rfl, rfl⟩ := Stage.emit_ok_iff.1 hpop
  exact ⟨k, hvalue, rfl⟩

theorem instr_ret_ok {ty : Ty} (hty : ty ≠ .void) {o : Operand}
    (h : (f.instr (.ret ty (some o))).run n = ⟨.ok (), n', code⟩) :
    ∃ k, f.push o = .ok k ∧ n' = n ∧ code = k ++ [.returnOf ty] := by
  have hinstr : f.instr (.ret ty (some o)) = write (f.push o) >>= fun _ =>
      Stage.emit (.returnOf ty) := by
    cases ty with
    | void => exact absurd rfl hty
    | int | bool | str | cls | array => rfl
  rw [hinstr] at h
  obtain ⟨k, _, hpush, hret, rfl⟩ := write_bind_ok h
  obtain ⟨rfl, rfl⟩ := Stage.emit_ok_iff.1 hret
  exact ⟨k, hpush, rfl, rfl⟩

/-- A block sets the label of its instruction, if it is a label, and those of its comparison. It
jumps to no other labels than its instruction does, apart from those of its comparison. -/
theorem instr_labels {i : Instr} (h : (f.instr i).run n = ⟨.ok (), n', code⟩) :
    n ≤ n' ∧ labels code = i.label?.toList ++ comparisonLabels n n' ∧
      jumps code ⊆ i.jump?.toList ++ labels code := by
  -- Most instructions set no label of their own, and jump only inside their comparisons.
  have hcounted : i.label? = none → Counted n n' code →
      n ≤ n' ∧ labels code = i.label?.toList ++ comparisonLabels n n' ∧
        jumps code ⊆ i.jump?.toList ++ labels code := by
    intro hi hc
    exact ⟨hc.le, by rw [hc.sets, hi]; rfl,
      List.Subset.trans hc.closed (List.subset_append_right ..)⟩
  cases i with
  | label l =>
    obtain ⟨rfl, rfl⟩ := Stage.emit_ok_iff.1 h
    exact ⟨Nat.le_refl _, by simp [Instr.label?, labels, Asm.label?], List.nil_subset _⟩
  | assign dest ty rhs =>
    refine hcounted rfl ?_
    cases dest with
    | var x t p =>
      obtain ⟨k, reg, hvalue, -, rfl⟩ := assign_var_ok h
      exact (value_counted hvalue).trans (.of_plain (.singleton (isPlain_store ..)))
    | item x index t p =>
      obtain ⟨reg, k₁, k₂, -, hpush, hvalue, rfl⟩ := assign_item_ok h
      have hpushed : Counted n n (.aload reg.index :: k₁) :=
        .of_plain (.cons rfl (push_plain hpush))
      exact hpushed.trans ((value_counted hvalue).trans
        (.of_plain (.singleton (isPlain_storeItem ..))))
    | literal | cls => exact absurd h Stage.fail_ne_ok
  | call kind target method args params ty =>
    obtain ⟨k, hcall, rfl, rfl⟩ := instr_call_ok h
    refine hcounted rfl (.of_plain ((call_plain hcall).append ?_))
    split
    · exact .nil
    · exact .singleton rfl
  | putField field v =>
    cases field with
    | var x ty p =>
      obtain ⟨k, hpush, rfl, rfl⟩ := instr_putField_ok h
      exact hcounted rfl (.of_plain (.cons rfl ((push_plain hpush).append (.singleton rfl))))
    | literal | item | cls => exact absurd h Stage.fail_ne_ok
  | goto l =>
    obtain ⟨rfl, rfl⟩ := Stage.emit_ok_iff.1 h
    exact ⟨Nat.le_refl _, by rw [comparisonLabels_self]; rfl, List.Subset.refl _⟩
  | branch c l =>
    obtain ⟨k, hpush, rfl, rfl⟩ := instr_branch_ok h
    refine ⟨Nat.le_refl _, ?_, ?_⟩
    · rw [labels_append, (push_plain hpush).labels_eq_nil, comparisonLabels_self]
      rfl
    · rw [jumps_append, (push_plain hpush).jumps_eq_nil]
      exact List.subset_append_left ..
  | ret ty o =>
    refine hcounted rfl ?_
    by_cases hty : ty = .void
    · subst hty
      obtain ⟨rfl, rfl⟩ := Stage.emit_ok_iff.1 h
      exact .of_plain (.singleton rfl)
    · cases o with
      | none => cases ty <;> first | exact absurd rfl hty | exact absurd h Stage.fail_ne_ok
      | some o =>
        obtain ⟨k, hpush, rfl, rfl⟩ := instr_ret_ok hty h
        exact .of_plain ((push_plain hpush).append (.singleton (isPlain_returnOf ty)))
  | value | not | binary | newObject | newArray | length | getField =>
    obtain ⟨k, hvalue, rfl⟩ := pop_ok h
    exact hcounted rfl ((value_counted hvalue).trans (.of_plain (.singleton rfl)))

end Frame

/-! ## The code of a method -/

/-- One block for each of the instructions, with comparisons numbered from `n` up to `n'`. -/
inductive Emitted (f : Frame) : List Instr → Nat → List (List Asm) → Nat → Prop
  | nil {n : Nat} : Emitted f [] n [] n
  | cons {i : Instr} {is : List Instr} {n n₁ n' : Nat} {k : List Asm} {ks : List (List Asm)} :
      (f.instr i).run n = ⟨.ok (), n₁, k⟩ → Emitted f is n₁ ks n' →
        Emitted f (i :: is) n (k :: ks) n'

/-- Where the block of an instruction starts. -/
def blockStart (code : List (List Asm)) (i : Nat) : Nat := (code.take i).flatten.length

section

variable {code : List (List Asm)} {k : List Asm} {i : Nat}

theorem codeAt_block (h : code[i]? = some k) : CodeAt code.flatten (blockStart code i) k := by
  obtain ⟨hi, rfl⟩ := List.getElem?_eq_some_iff.1 h
  have hsplit : code.flatten = (code.take i).flatten ++ code[i] ++ (code.drop (i + 1)).flatten := by
    conv_lhs => rw [← List.take_append_drop i code, List.drop_eq_getElem_cons hi]
    rw [List.flatten_append, List.flatten_cons, List.append_assoc]
  rw [hsplit]
  exact .of_append _ _ _

theorem blockStart_succ (h : code[i]? = some k) :
    blockStart code (i + 1) = blockStart code i + k.length := by
  obtain ⟨hi, rfl⟩ := List.getElem?_eq_some_iff.1 h
  rw [blockStart, List.take_succ_eq_append_getElem hi, List.flatten_append, List.length_append,
    List.flatten_singleton, blockStart]

end

namespace Emitted

variable {f : Frame} {is : List Instr} {n n' : Nat} {code : List (List Asm)}

theorem length_eq (h : Emitted f is n code n') : code.length = is.length := by
  induction h with
  | nil => rfl
  | cons _ _ ih => rw [List.length_cons, ih, List.length_cons]

theorem block (h : Emitted f is n code n') {j : Nat} {i : Instr} (hi : is[j]? = some i) :
    ∃ k n₁ n₂, code[j]? = some k ∧ (f.instr i).run n₁ = ⟨.ok (), n₂, k⟩ := by
  induction h generalizing j with
  | nil => cases hi
  | @cons i' is n n₁ n' k ks hinstr _ ih =>
    cases j with
    | zero =>
      obtain rfl : i' = i := Option.some.inj hi
      exact ⟨k, n, n₁, rfl, hinstr⟩
    | succ j => exact ih hi

theorem labels_perm (h : Emitted f is n code n') :
    n ≤ n' ∧ (labels code.flatten).Perm (Ir.labels is ++ comparisonLabels n n') := by
  induction h with
  | nil => exact ⟨Nat.le_refl _, by simp⟩
  | @cons i is n n₁ n' k ks hinstr _ ih =>
    obtain ⟨hle₁, hk, -⟩ := Frame.instr_labels hinstr
    obtain ⟨hle, hperm⟩ := ih
    refine ⟨Nat.le_trans hle₁ hle, ?_⟩
    rw [List.flatten_cons, labels_append, hk, labels_cons_eq, ← comparisonLabels_append hle₁ hle]
    exact (hperm.append_left _).trans (perm_append_append_comm ..)

/-- The labels of the code are all different. -/
theorem nodup_labels (h : Emitted f is n code n') (hdistinct : (Ir.labels is).Nodup)
    (hother : ∀ l ∈ Ir.labels is, ∀ k, l ≠ trueLabel k ∧ l ≠ doneLabel k) :
    (labels code.flatten).Nodup :=
  h.labels_perm.2.nodup_iff.2 (nodup_append_comparisonLabels hdistinct hother n n')

end Emitted

end MiniJava.Assembly
