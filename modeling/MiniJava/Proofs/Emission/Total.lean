import MiniJava.Proofs.Emission.Simulation
import MiniJava.Proofs.Lowering.Types

/-!
# Emission of accepted programs

Emission stops at an instruction that makes no sense: one with a variable that has no register, one
that stores to no place or uses a value that there is not, or a call on something that is no object.
Well-typed code has no such instruction. Every variable in it is declared by its method, and what a
method declares has a register.

**Theorem** (`emission_total`). Every class of an accepted program is emitted.
-/

namespace MiniJava.Assembly

open Ir

/-! ## Operands -/

namespace Frame

/-- All of the variables have registers. -/
def Covers (f : Frame) (vars : List Symbol) : Prop :=
  ∀ v ∈ vars, (f.registers.get? v.name).isSome = true

variable {f : Frame} {sc : Scope} {vars : List Symbol} {P : EmitError → Prop}

theorem register_of_mem (hf : f.Covers vars) {x : String} {t : Ty} (hx : ⟨x, t⟩ ∈ vars) :
    ∃ r, f.register x = .ok r := by
  obtain ⟨r, hr⟩ := Option.isSome_iff_exists.1 (hf _ hx)
  exact ⟨r.index, by rw [register, hr]⟩

theorem push_of_typed (hf : f.Covers vars) {o : Operand} {Q : Ty → Prop} (ho : o.Typed vars Q) :
    ∃ code, f.push o = .ok code := by
  induction o generalizing Q with
  | literal v t => exact ⟨_, rfl⟩
  | cls c => exact ⟨_, rfl⟩
  | var x t p =>
    obtain ⟨r, hr⟩ := register_of_mem hf ho.1
    rw [push, hr]
    split
    · exact ⟨_, rfl⟩
    · exact ⟨_, rfl⟩
  | item x i t p ih =>
    obtain ⟨hx, hi, -⟩ := ho
    obtain ⟨r, hr⟩ := register_of_mem hf hx
    obtain ⟨index, hindex⟩ := ih hi
    exact ⟨_, by rw [push, hr, hindex]; rfl⟩

theorem pushAll_of_declared (hf : f.Covers vars) {os : List Operand}
    (hos : ∀ o ∈ os, o.Declared vars) : ∃ code, f.pushAll os = .ok code := by
  induction os with
  | nil => exact ⟨[], rfl⟩
  | cons o os ih =>
    rw [List.forall_mem_cons] at hos
    obtain ⟨code, hcode⟩ := push_of_typed hf hos.1
    obtain ⟨more, hmore⟩ := ih hos.2
    exact ⟨code ++ more, by rw [pushAll, hcode, hmore]; rfl⟩

/-! ## Calls -/

/-- A call on an object finds its class. -/
theorem owner_of_object {kind : CallKind} {target : Operand} (h : target.IsObject vars) :
    ∃ owner, f.owner kind target = .ok owner := by
  obtain ⟨hclass, htyped⟩ := h
  obtain ⟨name, hname⟩ := (Operand.typed_iff.1 htyped).2 hclass
  unfold owner
  split
  · cases hclass
  · rw [hname]
    split
    · exact ⟨_, rfl⟩
    · exact ⟨_, rfl⟩

theorem call_of_typed (hf : f.Covers vars) {kind : CallKind} {target : Operand} {method : String}
    {args : List Operand} {params : Option (List Ty)} {ty : Ty}
    (h : CallTyped sc vars target args params kind) :
    ∃ code, f.call kind target method args params ty = .ok code := by
  -- A call can fail in three places: the owner, the object and the arguments.
  have hparts : (∃ owner, f.owner kind target = .ok owner) ∧
      (kind ≠ .static → ∃ object, f.push target = .ok object) ∧
      ∃ pushed, f.pushAll args = .ok pushed := by
    cases kind with
    | static =>
      obtain ⟨hclass, hargs⟩ := h
      cases target with
      | cls name => exact ⟨⟨_, rfl⟩, fun hne => absurd rfl hne, pushAll_of_declared hf hargs⟩
      | literal | var | item => cases hclass
    | virtual =>
      obtain ⟨hobject, hargs, -⟩ := h
      exact ⟨owner_of_object hobject, fun _ => push_of_typed hf hobject.2,
        pushAll_of_declared hf hargs⟩
    | special =>
      obtain ⟨hobject, rfl, -⟩ := h
      exact ⟨owner_of_object hobject, fun _ => push_of_typed hf hobject.2, [], rfl⟩
  obtain ⟨⟨owner, howner⟩, hpush, pushed, hpushed⟩ := hparts
  rw [call, howner, hpushed]
  by_cases hkind : kind = .static
  · subst hkind
    exact ⟨_, rfl⟩
  · obtain ⟨object, hobject⟩ := hpush hkind
    simp [hkind, hobject, bind, Except.bind]

/-! ## Instructions -/

theorem write_failsOnly {x : Except EmitError (List Asm)} (h : ∃ code, x = .ok code) :
    (write x : Emit Unit).FailsOnly P := by
  obtain ⟨code, rfl⟩ := h
  exact .bind (.pure code) fun _ => .emitAll _

theorem operator_failsOnly (op : BinOp) : (operator op).FailsOnly P := by
  cases op with
  | lt => exact .bind (.update _) fun _ => .emitAll _
  | _ => exact .emit _

/-- An instruction that gives a value leaves it on the stack. -/
theorem value_failsOnly (hf : f.Covers vars) {i : Instr} (h : i.Yields sc vars) :
    (f.value i).FailsOnly P := by
  cases i with
  | value o => exact write_failsOnly (push_of_typed hf h)
  | not o t => exact .bind (write_failsOnly (push_of_typed hf h.1)) fun _ => .emitAll _
  | binary op l r t =>
    obtain ⟨hl, hr, -⟩ := h
    exact .bind (write_failsOnly (push_of_typed hf hl)) fun _ =>
      .bind (write_failsOnly (push_of_typed hf hr)) fun _ => operator_failsOnly op
  | call kind target method args params t =>
    obtain ⟨hvoid, hcall⟩ := h
    rw [value, if_neg (by simpa using hvoid)]
    exact write_failsOnly (call_of_typed hf hcall)
  | newObject c => exact .emit _
  | newArray size t => exact .bind (write_failsOnly (push_of_typed hf h.1)) fun _ => .emit _
  | length a => exact .bind (write_failsOnly (push_of_typed hf h)) fun _ => .emit _
  | getField field t => exact .emitAll _
  | assign | putField | goto | branch | label | ret => exact absurd h id

theorem assign_failsOnly (hf : f.Covers vars) {dest : Operand} {ty : Ty} {rhs : Instr}
    (h : (Instr.assign dest ty rhs).WellTyped sc vars) : (f.assign dest ty rhs).FailsOnly P := by
  obtain ⟨hdest, hrhs, hstored⟩ := h
  cases dest with
  | var x t p =>
    obtain ⟨r, hr⟩ := register_of_mem hf hdest.1
    rw [assign, hr]
    exact .bind (value_failsOnly hf hrhs) fun _ => .bind (.pure r) fun _ => .emit _
  | item x index t p =>
    obtain ⟨hx, hindex, -⟩ := hdest
    obtain ⟨r, hr⟩ := register_of_mem hf hx
    rw [assign, hr]
    exact .bind (.pure r) fun _ => .bind (.emit _) fun _ =>
      .bind (write_failsOnly (push_of_typed hf hindex)) fun _ =>
        .bind (value_failsOnly hf hrhs) fun _ => .emit _
  | literal | cls => exact absurd hstored id

/-- A well-typed instruction is emitted. -/
theorem instr_failsOnly (hf : f.Covers vars) {i : Instr} (h : i.WellTyped sc vars) :
    (f.instr i).FailsOnly P := by
  cases i with
  | assign dest ty rhs => exact assign_failsOnly hf h
  | call kind target method args params ty =>
    exact .bind (write_failsOnly (call_of_typed hf h)) fun _ => .ite (.emit _) (.pure ())
  | putField field v =>
    obtain ⟨x, s, rfl, -, hv⟩ := h
    exact .bind (.emit _) fun _ => .bind (write_failsOnly (push_of_typed hf hv)) fun _ => .emit _
  | goto l => exact .emit _
  | label l => exact .emit _
  | branch c l => exact .bind (write_failsOnly (push_of_typed hf h)) fun _ => .emit _
  | ret ty o =>
    cases o with
    | none =>
      obtain rfl : ty = .void := h
      exact .emit _
    | some o =>
      obtain ⟨hvoid, ho⟩ := h
      cases ty with
      | void => exact absurd rfl hvoid
      | _ => exact .bind (write_failsOnly (push_of_typed hf ho)) fun _ => .emit _
  | value | not | binary | newObject | newArray | length | getField =>
    exact .bind (@value_failsOnly f sc vars P hf _ h) fun _ => .emit _

/-- Well-typed code is emitted, instruction by instruction. -/
theorem blocks_failsOnly (hf : f.Covers vars) {code : List Instr}
    (h : ∀ i ∈ code, i.WellTyped sc vars) : (f.blocks code).FailsOnly P := by
  induction code with
  | nil => exact .pure ()
  | cons i code ih =>
    rw [List.forall_mem_cons] at h
    exact .bind (.collect (instr_failsOnly hf h.1)) fun _ => .bind (.emit _) fun _ => ih h.2

end Frame

/-! ## Methods and classes -/

variable {u : ClassUnit} {P : EmitError → Prop}

/-- What a method declares has a register, unless its table was made too early. -/
theorem Frame.covers_declarations {m : Method} (hfresh : m.frozen = none) :
    (Frame.of u m).Covers m.declarations := by
  rw [Covers, of, Method.registers, hfresh]
  exact fun v hv => (RegisterTable.isSome_get?_ofDeclarations ..).2 (List.mem_map_of_mem hv)

theorem methodsPieces_failsOnly {ms : List Method}
    (h : ∀ m ∈ ms, m.frozen = none ∧ ∃ sc, m.WellTyped sc) : (methodsPieces u ms).FailsOnly P := by
  induction ms with
  | nil => exact .pure ()
  | cons m ms ih =>
    rw [List.forall_mem_cons] at h
    obtain ⟨⟨hfresh, sc, htyped⟩, hrest⟩ := h
    have hcode : ((Frame.of u m).blocks m.code).FailsOnly P :=
      Frame.blocks_failsOnly (Frame.covers_declarations hfresh) htyped
    exact .bind (.bind (.emit _) fun _ => .bind hcode fun _ => .emit _) fun _ => ih hrest

/-- A class with new and well-typed methods is emitted. -/
theorem Emitter.build_of_wellTyped {e : Emitter}
    (h : ∀ m ∈ e.unit.methods, m.frozen = none ∧ ∃ sc, m.WellTyped sc) :
    ∃ text, e.build.result = .ok text := by
  have hpieces : e.unit.pieces.FailsOnly fun _ => False :=
    methodsPieces_failsOnly fun m hm => h m (mem_emissionOrder.1 hm)
  rcases hrun : e.unit.pieces.run e.comparisons with ⟨fault | _, n, out⟩
  · exact (hpieces _ fault (by rw [hrun])).elim
  · cases htext : e.text with
    | some text => exact ⟨text, by simp only [build, htext]⟩
    | none => exact ⟨classText e.unit e.limits out, by simp only [build, htext, hrun]⟩

/-! ## Programs -/

variable {p : Program} {table : SymbolTable} {a : Annotation} {c : Counters}
  {units : List ClassUnit}

theorem frozen_of_lower {types : TypeMap}
    (hlow : ((p.lower table types).run c).result = .ok units) :
    ∀ u ∈ units, ∀ m ∈ u.methods, m.frozen = none := by
  obtain ⟨c', events, hrun⟩ := Stage.run_of_result hlow
  intro u hu
  obtain ⟨d, -, hd⟩ := (Program.lower_ok hrun).2 u hu
  exact hd.frozen

/-- **Emission never faults on lowered programs.** If a program passes the check and is lowered,
then every emitter of one of its classes makes a text. -/
theorem emission_total (h : p.checked table = .ok a)
    (hlow : ((p.lower table a.types).run c).result = .ok units) :
    ∀ u ∈ units, ∀ e : Emitter, e.unit = u → ∃ text, e.build.result = .ok text := by
  rintro u hu e rfl
  refine Emitter.build_of_wellTyped fun m hm => ⟨frozen_of_lower hlow _ hu m hm, ?_⟩
  obtain ⟨sc, -, htyped⟩ := Program.wellTyped_of_lower h hlow _ hu m hm
  exact ⟨sc, htyped⟩

theorem basket_emitted : ∃ a units, Basket.program.checked Basket.table = .ok a ∧
    ((Basket.program.lower Basket.table a.types).run {}).result = .ok units ∧ units ≠ [] ∧
    ∀ u ∈ units, ∃ text, (Emitter.build { unit := u }).result = .ok text := by
  have hlow : ∃ u us, ((Basket.program.lower Basket.table
      (Basket.program.annotate Basket.table).types).run {}).result = .ok (u :: us) := ⟨_, _, rfl⟩
  obtain ⟨u, us, hunits⟩ := hlow
  refine ⟨_, u :: us, Basket.program_checked, hunits, nofun, fun u' hu' => ?_⟩
  exact emission_total Basket.program_checked hunits u' hu' { unit := u' } rfl

end MiniJava.Assembly
