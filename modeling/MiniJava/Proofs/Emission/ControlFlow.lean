import MiniJava.Proofs.Emission.Listing
import MiniJava.Proofs.Lowering.ControlFlow

/-!
# Control stays inside a method

Emission adds labels of its own, two for each comparison, and jumps to them. They stand in one block
and their numbers run through the whole class, so they are in nobody's way: the labels of a class
are all different, every jump leads to a label of its own method, and the last instruction of a
method is a return.

**Theorem** (`control_flow_closed`). Of every accepted program that is lowered this holds for the
three-address code and for the assembly text of every class.
-/

namespace MiniJava.Assembly

open Ir

/-- The instruction ends the method. -/
def Asm.isReturn : Asm → Bool
  | .ireturn | .areturn | .ret => true
  | _ => false

theorem isReturn_returnOf (ty : Ty) : (Asm.returnOf ty).isReturn = true := by
  rw [Asm.returnOf]
  split <;> rfl

/-- Every jump of the code leads to a label that the code sets, and the last instruction is a
return. -/
structure Confined (code : List Asm) : Prop where
  closed : jumps code ⊆ labels code
  ends : ∃ init last, code = init ++ [last] ∧ last.isReturn = true

/-- The block of a return ends in one. -/
theorem Frame.instr_ret_ends {f : Frame} {ty : Ty} {o : Option Operand} {n n' : Nat}
    {code : List Asm} (h : (f.instr (.ret ty o)).run n = ⟨.ok (), n', code⟩) :
    ∃ init last, code = init ++ [last] ∧ last.isReturn = true := by
  by_cases hty : ty = .void
  · subst hty
    obtain ⟨-, rfl⟩ := Stage.emit_ok_iff.1 h
    exact ⟨[], .ret, rfl, rfl⟩
  · cases o with
    | none => cases ty <;> first | exact absurd rfl hty | exact absurd h Stage.fail_ne_ok
    | some o =>
      obtain ⟨k, -, -, rfl⟩ := instr_ret_ok hty h
      exact ⟨k, .returnOf ty, rfl, isReturn_returnOf ty⟩

namespace Emitted

variable {f : Frame} {is : List Instr} {n n' : Nat} {code : List (List Asm)}

/-- Blocks jump where their instructions jump, or stay inside. -/
theorem jumps_subset (h : Emitted f is n code n') :
    jumps code.flatten ⊆ Ir.jumps is ++ labels code.flatten := by
  induction h with
  | nil => exact List.nil_subset _
  | @cons i is n n₁ n' k ks hinstr _ ih =>
    obtain ⟨-, -, hk⟩ := Frame.instr_labels hinstr
    rw [List.flatten_cons, jumps_append, labels_append, jumps_cons_eq]
    intro l hl
    rcases List.mem_append.1 hl with hl | hl
    · rcases List.mem_append.1 (hk hl) with hown | hset
      · exact List.mem_append_left _ (List.mem_append_left _ hown)
      · exact List.mem_append_right _ (List.mem_append_left _ hset)
    · rcases List.mem_append.1 (ih hl) with hown | hset
      · exact List.mem_append_left _ (List.mem_append_right _ hown)
      · exact List.mem_append_right _ (List.mem_append_right _ hset)

/-- The last instruction has the last block. -/
theorem last_block {i : Instr} (h : Emitted f (is ++ [i]) n code n') :
    ∃ ks k n₁, code = ks ++ [k] ∧ (f.instr i).run n₁ = ⟨.ok (), n', k⟩ := by
  induction is generalizing n code with
  | nil =>
    cases h with
    | cons hinstr hrest =>
      cases hrest
      exact ⟨[], _, n, rfl, hinstr⟩
  | cons i' is ih =>
    cases h with
    | cons _ hrest =>
      obtain ⟨ks, k, n₁, rfl, hinstr⟩ := ih hrest
      exact ⟨_ :: ks, k, n₁, rfl, hinstr⟩

/-- Code that is closed and ends in a return stays so when it is emitted. -/
theorem confined (h : Emitted f is n code n') (hclosed : Closed is) (hends : EndsInReturn is) :
    Confined code.flatten where
  closed := by
    intro l hl
    rcases List.mem_append.1 (h.jumps_subset hl) with hown | hset
    · have hlabel := List.mem_append_left (comparisonLabels n n') (hclosed hown)
      exact h.labels_perm.2.mem_iff.2 hlabel
    · exact hset
  ends := by
    obtain ⟨init, ty, o, rfl⟩ := hends
    obtain ⟨ks, k, n₁, rfl, hinstr⟩ := h.last_block
    obtain ⟨k', last, rfl, hlast⟩ := Frame.instr_ret_ends hinstr
    exact ⟨ks.flatten ++ k', last, by simp, hlast⟩

end Emitted

theorem EmittedAll.confined {u : ClassUnit} {ms : List Method} {n n' : Nat}
    {codes : List (List (List Asm))} (h : EmittedAll u ms n codes n')
    (hms : ∀ m ∈ ms, Closed m.code ∧ EndsInReturn m.code) :
    List.Forall₂ (fun m code => code.length = m.code.length ∧ Confined code.flatten) ms codes := by
  induction h with
  | nil => exact .nil
  | cons hemitted _ ih =>
    obtain ⟨⟨hclosed, hends⟩, hrest⟩ := List.forall_mem_cons.1 hms
    exact .cons ⟨hemitted.length_eq, hemitted.confined hclosed hends⟩ (ih hrest)

section

variable {u : ClassUnit} {c c' : Counters} (hunit : Labelled c c' (u.methods.flatMap Method.code))
include hunit

/-- The order in which methods are emitted does not change what labels there are. -/
theorem labelOf_of_emissionOrder {l : String}
    (hl : l ∈ Ir.labels (u.emissionOrder.flatMap Method.code)) : ∃ k, LabelOf k l := by
  have hperm := ((perm_emissionOrder u).flatMap_right Method.code).filterMap Instr.label?
  obtain ⟨k, -, -, hk⟩ := hunit.numbered l (hperm.mem_iff.1 hl)
  exact ⟨k, hk⟩

/-- No label is set twice in a class: those of statements and those of comparisons are numbered
apart, each through the whole class. -/
theorem EmittedAll.nodup_labels {n n' : Nat} {codes : List (List (List Asm))}
    (h : EmittedAll u u.emissionOrder n codes n') : (labels codes.flatten.flatten).Nodup := by
  have hperm := ((perm_emissionOrder u).flatMap_right Method.code).filterMap Instr.label?
  rw [h.labels_perm.2.nodup_iff]
  refine nodup_append_comparisonLabels (hperm.nodup_iff.2 hunit.nodup) (fun l hl => ?_) _ _
  obtain ⟨k, hk⟩ := labelOf_of_emissionOrder hunit hl
  exact ne_comparisonLabel_of_labelOf hk

end

variable {p : Program} {table : SymbolTable} {a : Annotation} {c : Counters}
  {units : List ClassUnit}

/-- **Control flow is closed.** Let a program be accepted and lowered. Over all classes no label is
set twice. In every method a jump leads to a label that is set once in that method, and the last
instruction is a return. The text of every class lists its methods with a block for each
instruction; again no label is set twice, jumps stay in their method, and the last line of a method
is a return. -/
theorem control_flow_closed (h : p.checked table = .ok a)
    (hlow : ((p.lower table a.types).run c).result = .ok units) :
    (Ir.labels (units.flatMap fun u => u.methods.flatMap Method.code)).Nodup ∧
      ∀ u ∈ units,
        (∀ m ∈ u.methods, (∀ l ∈ Ir.jumps m.code, (Ir.labels m.code).count l = 1) ∧
          EndsInReturn m.code) ∧
        ∀ e : Emitter, e.unit = u → e.text = none → ∃ codes,
          e.build.result = .ok (classText u e.limits (listings u.emissionOrder codes)) ∧
          (labels codes.flatten.flatten).Nodup ∧
          List.Forall₂ (fun m code => code.length = m.code.length ∧ Confined code.flatten)
            u.emissionOrder codes := by
  obtain ⟨c', events, hrun⟩ := Stage.run_of_result hlow
  have hall := Program.lower_labelled hrun
  refine ⟨hall.nodup, fun u hu => ?_⟩
  -- Labels are numbered through the whole program; those of a class, and of a method, are a part.
  have hunit : Labelled c c' (u.methods.flatMap Method.code) :=
    hall.of_sublist (List.sublist_flatten_of_mem (List.mem_map_of_mem hu))
  have hconfined : ∀ m ∈ u.methods, Closed m.code ∧ EndsInReturn m.code := fun m hm =>
    Program.lower_methods_closed (Program.checked_ok_iff.1 h).2 hrun hu hm
  refine ⟨fun m hm => ⟨fun l hl => ?_, (hconfined m hm).2⟩, ?_⟩
  · have hmethod := hunit.of_sublist (List.sublist_flatten_of_mem (List.mem_map_of_mem hm))
    exact List.count_eq_one_of_mem hmethod.nodup ((hconfined m hm).1 hl)
  · intro e he hnew
    subst he
    obtain ⟨codes, n, hemitted, htext⟩ := Emitter.build_of_lower h hlow hu hnew
    exact ⟨codes, htext, hemitted.nodup_labels hunit,
      hemitted.confined fun m hm => hconfined m (mem_emissionOrder.1 hm)⟩

/-! A loop with a branch in it, of which one side returns, and behind it a branch that returns on
both sides. -/

namespace Gauge

/-- `while (n < 9) if (n < top) return n; else n = n + 1;`. -/
def climb : Stmt :=
  .whileLoop .unknown (.binary { id := 0 } .lt (.var { id := 1 } "n") (.int { id := 2 } 9))
    (.ifElse .unknown (.binary { id := 3 } .lt (.var { id := 4 } "n") (.var { id := 5 } "top"))
      (.ret .unknown (some (.var { id := 6 } "n")))
      (.assign .unknown { node := "n" }
        (.binary { id := 7 } .add (.var { id := 8 } "n") (.int { id := 9 } 1))))

/-- `if (true) return 0; else return n;`. -/
def settle : Stmt :=
  .ifElse .unknown (.bool { id := 10 } true) (.ret .unknown (some (.int { id := 11 } 0)))
    (.ret .unknown (some (.var { id := 12 } "n")))

def read : MethodDecl where
  name := { node := "read" }
  returnTy := { node := .int }
  params := [⟨{ node := "n" }, { node := .int }⟩, ⟨{ node := "top" }, { node := .int }⟩]
  body := [climb, settle]

def program : Program where
  classes := [{ name := { node := "Gauge" }, methods := [read] }]

theorem read_confined : ∃ a u codes, program.checked (.ofProgram program) = .ok a ∧
    ((program.lower (.ofProgram program) a.types).run {}).result = .ok [u] ∧
    (u.methods.flatMap fun m => Ir.jumps m.code) =
      ["while_body_0", "while_end_0", "then_1", "endif_1", "while_cond_0", "then_2"] ∧
    (∀ m ∈ u.methods, ∀ l ∈ Ir.jumps m.code, (Ir.labels m.code).count l = 1) ∧
    emit u {} = .ok (classText u {} (listings u.emissionOrder codes)) ∧
    (labels codes.flatten.flatten).Nodup ∧
    List.Forall₂ (fun m code => code.length = m.code.length ∧ Confined code.flatten)
      u.emissionOrder codes := by
  have hchecked : program.checked (.ofProgram program) =
      .ok (program.annotate (.ofProgram program)) :=
    Program.checked_ok_iff.2 ⟨Program.uniqueIds_iff_nodup.2 (by decide), rfl⟩
  have hlow : ∃ u, ((program.lower (.ofProgram program)
      (program.annotate (.ofProgram program)).types).run {}).result = .ok [u] ∧
      (u.methods.flatMap fun m => Ir.jumps m.code) = ["while_body_0", "while_end_0", "then_1",
        "endif_1", "while_cond_0", "then_2"] :=
    ⟨_, rfl, by decide⟩
  obtain ⟨u, hunits, hjumps⟩ := hlow
  obtain ⟨-, hclosed⟩ := control_flow_closed hchecked hunits
  obtain ⟨hmethods, htexts⟩ := hclosed u (.head _)
  obtain ⟨codes, htext, hnodup, hconfined⟩ := htexts { unit := u } rfl rfl
  exact ⟨_, u, codes, hchecked, hunits, hjumps, fun m hm => (hmethods m hm).1, htext, hnodup,
    hconfined⟩

end Gauge

end MiniJava.Assembly
