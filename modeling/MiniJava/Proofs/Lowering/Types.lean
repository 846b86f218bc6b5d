import MiniJava.Proofs.Annotation.Recorded
import MiniJava.Proofs.Compilation
import MiniJava.Proofs.Ir.WellTyped

/-!
# Lowered code is well typed

Lowering takes types from three sources: from the annotation, from the symbol table, and from what
it knows of the instruction it writes. In an accepted program they agree.

The operand of an expression has the type that the annotation gives to the expression, unless it is
a bare class name (`Expr.Lowers.ty_of_placed`); so what the annotator found out about places in the
program holds for the operands that end up there.

**Theorem** (`Program.lowered_wellTyped`). All code of an accepted program is well typed.
-/

namespace MiniJava

open Ir Lower

/-! ## Types of operands -/

theorem Lower.Kept.isClass {ty : Ty} {rhs : Instr} {c c' : Counters} {o : Operand}
    {code : List Instr} (h : Kept ty rhs c o c' code) : o.isClass = false := by
  rw [h.operand]
  rfl

theorem Lower.Kept.ty {ty : Ty} {rhs : Instr} {c c' : Counters} {o : Operand} {code : List Instr}
    (h : Kept ty rhs c o c' code) : o.ty = ty := by
  rw [h.operand]
  rfl

namespace Expr

variable {sc : Scope} {types : TypeMap} {mk : Bool} {e : Expr} {ty : Ty} {P : Ty → Prop}
  {c c' : Counters} {o : Operand} {code : List Instr} {vars : List Symbol}

theorem varOperand_eq (x : String) (b : Binding) : ∃ p, varOperand mk x b = .var x b.ty p := by
  cases b <;> exact ⟨_, rfl⟩

/-- The operand of a variable has the declared type. -/
theorem Lowers.ty_of_resolve {n : Node} {x : String} {b : Binding}
    (hl : Lowers sc types mk (var n x) c o c' code) (hb : sc.resolve x = some b) :
    o.isClass = false ∧ o.ty = b.ty := by
  rcases lowers_var.1 hl with ⟨s, hs, hk⟩ | ⟨b', hb', -, rfl, -⟩ | ⟨hres, -⟩
  · obtain rfl : b = .field s := Option.some.inj (hb.symm.trans hs)
    exact ⟨hk.isClass, hk.ty⟩
  · obtain rfl : b = b' := Option.some.inj (hb.symm.trans hb')
    obtain ⟨p, hp⟩ := @varOperand_eq mk x b
    rw [hp]
    exact ⟨rfl, rfl⟩
  · simp [hres] at hb

/-- The operand of an expression with a type of its own has that type. -/
theorem Lowers.ty_of_value (hl : Lowers sc types mk e c o c' code)
    (h : Hold types.Has (e.annotate sc).notes) (hty : (e.annotate sc).value = some ty) :
    o.isClass = false ∧ o.ty = ty := by
  have hget := (holds_of_value h hty).1
  induction e using Expr.induction with
  | int n v =>
    obtain ⟨rfl, -⟩ := lowers_int.1 hl
    simpa [annotate, Operand.isClass, Operand.ty] using hty
  | bool n v =>
    obtain ⟨rfl, -⟩ := lowers_bool.1 hl
    simpa [annotate, Operand.isClass, Operand.ty] using hty
  | this n =>
    obtain ⟨rfl, -⟩ := lowers_this.1 hl
    simpa [annotate, Operand.isClass, Operand.ty, Operand.this, Operand.plain, Scope.thisTy]
      using hty
  | var n x =>
    simp only [annotate, Noted.value_bind, value_settle, varTy] at hty
    cases hb : sc.resolve x with
    | some b =>
      simp only [hb, Noted.value_bind, Noted.value_pure, Option.some.injEq] at hty
      rw [← hty]
      exact hl.ty_of_resolve hb
    | none => simp [hb] at hty
  | not n e =>
    obtain ⟨a, c₁, k₁, k₂, -, hk, -⟩ := lowers_not.1 hl
    simp only [annotate, Noted.notes_bind, Noted.value_bind, hold_append, value_settle] at h hty
    rw [value_notTy h.2.1] at hty
    exact ⟨hk.isClass, hk.ty.trans (Option.some.inj hty)⟩
  | newObject n cl =>
    obtain ⟨k, hk, -⟩ := lowers_newObject.1 hl
    simp only [annotate, Noted.value_bind, value_settle, Option.some.injEq] at hty
    exact ⟨hk.isClass, hk.ty.trans hty⟩
  | length n a =>
    obtain ⟨b, c₁, k₁, k₂, -, hk, -⟩ := lowers_length.1 hl
    simp only [annotate, Noted.value_bind, value_settle, value_lengthTy, Option.some.injEq] at hty
    exact ⟨hk.isClass, hk.ty.trans hty⟩
  | paren n e ih =>
    simp only [annotate, Noted.notes_bind, Noted.value_bind, hold_append, value_settle] at h hty
    exact ih (lowers_paren.1 hl) h.1 hty (holds_of_value h.1 hty).1
  -- In all other cases the temporary has the type of the annotation.
  | binary n op l r =>
    obtain ⟨t, a, c₁, k₁, b, c₂, k₂, k₃, ht, -, -, hk, -⟩ := lowers_binary.1 hl
    exact ⟨hk.isClass, hk.ty.trans (Option.some.inj (ht.symm.trans hget))⟩
  | call n r m args =>
    obtain ⟨t, as, c₁, k₁, a, c₂, k₂, k₃, ht, -, -, -, hk, -⟩ := lowers_call.1 hl
    exact ⟨hk.isClass, hk.ty.trans (Option.some.inj (ht.symm.trans hget))⟩
  | newArray n e =>
    obtain ⟨t, a, c₁, k₁, k₂, ht, -, hk, -⟩ := lowers_newArray.1 hl
    exact ⟨hk.isClass, hk.ty.trans (Option.some.inj (ht.symm.trans hget))⟩
  | index n a i =>
    obtain ⟨t, x, s, p, c₁, k₁, j, c₂, k₂, k₃, ht, -, -, hk, -⟩ := lowers_index.1 hl
    exact ⟨hk.isClass, hk.ty.trans (Option.some.inj (ht.symm.trans hget))⟩

/-- What has no type of its own and is no call is a class name. -/
theorem Lowers.isClass_of_untyped (hl : Lowers sc types mk e c o c' code)
    (h : Hold types.Has (e.annotate sc).notes) (hty : (e.annotate sc).value = none)
    (hcall : ∀ n r m args, e.strip ≠ call n r m args) : o.isClass = true := by
  rcases cases_of_untyped h hty with ⟨n, r, m, args, he⟩ | ⟨n, x, he, hres⟩ | ⟨d, hd, hindex⟩
  · exact absurd he (hcall n r m args)
  · have hvar := hl.strip
    rw [he] at hvar
    rcases lowers_var.1 hvar with ⟨s, hs, -⟩ | ⟨b, hb, -⟩ | ⟨-, -, rfl, -⟩
    · simp [hres] at hs
    · simp [hres] at hb
    · rfl
  · exact absurd hindex (by simp [(hl.sound d hd).2])

/-- The operand of a call that took its type from the surroundings has that type. -/
theorem Lowers.ty_of_adopt (hl : Lowers sc types mk e c o c' code)
    (hcall : ∃ n r m args, e.strip = call n r m args) (h : Hold types.Has (e.adopt ty).notes) :
    o.ty = ty := by
  obtain ⟨n, r, m, args, he⟩ := hcall
  have hget := (holds_of_adopt h).2
  have hstrip := hl.strip
  rw [he] at hget hstrip
  obtain ⟨t, as, c₁, k₁, a, c₂, k₂, k₃, ht, -, -, -, hk, -⟩ := lowers_call.1 hstrip
  exact hk.ty.trans (Option.some.inj (ht.symm.trans hget))

/-- **Types of operands.** The operand of an expression that fits its place is a class name, or it
has the type that the annotation gives to the expression, and that is a wanted one. -/
theorem Lowers.ty_of_placed (hl : Lowers sc types mk e c o c' code) (h : e.Placed sc types.Has P)
    (ho : o.isClass = false) : types.get? e.id = some o.ty ∧ P o.ty := by
  cases hty : (e.annotate sc).value with
  | some t =>
    obtain ⟨-, rfl⟩ := hl.ty_of_value h.notes hty
    exact ⟨(holds_of_value h.notes hty).1, h.own _ hty⟩
  | none =>
    have hcall : ∃ n r m args, e.strip = call n r m args := by
      by_contra hcall
      push Not at hcall
      simp [hl.isClass_of_untyped h.notes hty hcall] at ho
    rcases h.taken hty with ⟨t, ht, hadopt⟩ | hno
    · obtain rfl := hl.ty_of_adopt hcall hadopt
      exact ⟨(holds_of_adopt hadopt).1, ht⟩
    · obtain ⟨n, r, m, args, he⟩ := hcall
      exact absurd he (hno n r m args)

/-- Where a type is needed, the operand is a class name, or the expression has a type of its own. -/
theorem Lowers.value_of_required (hl : Lowers sc types mk e c o c' code)
    (h : e.Required sc types.Has P) (ho : o.isClass = false) :
    (e.annotate sc).value = some o.ty ∧ P o.ty := by
  cases hty : (e.annotate sc).value with
  | some t =>
    obtain ⟨-, rfl⟩ := hl.ty_of_value h.notes hty
    exact ⟨rfl, h.own _ hty⟩
  | none => simp [hl.isClass_of_untyped h.notes hty (h.untyped hty)] at ho

/-- What is known of a place holds for the operand. -/
theorem Lowers.typed (hl : Lowers sc types mk e c o c' code) (h : e.Placed sc types.Has P)
    (ho : o.Declared vars) : o.Typed vars P :=
  Operand.typed_iff.2 ⟨ho, fun hclass => (hl.ty_of_placed h hclass).2⟩

end Expr

/-! ## Code of expressions -/

/-- The variables that a body can name are among `vars`. -/
structure Scope.Within (sc : Scope) (vars : List Symbol) : Prop where
  names : ∀ {x b}, sc.resolve x = some b → b.isField = false → ⟨x, b.ty⟩ ∈ vars
  this : sc.isStatic = false → ⟨"this", sc.thisTy⟩ ∈ vars

/-- The variables that the code assigns to are among `vars`. -/
def Ir.AssignsWithin (vars : List Symbol) (code : List Instr) : Prop :=
  ∀ i ∈ code, ∀ v, i.assigned? = some v → v ∈ vars

/-- All of the code is well typed. -/
def Ir.CodeTyped (sc : Scope) (vars : List Symbol) (code : List Instr) : Prop :=
  ∀ i ∈ code, i.WellTyped sc vars

section

variable {sc : Scope} {vars : List Symbol} {a b : List Instr} {i : Instr}

@[simp] theorem Ir.assignsWithin_append :
    AssignsWithin vars (a ++ b) ↔ AssignsWithin vars a ∧ AssignsWithin vars b :=
  List.forall_mem_append

@[simp] theorem Ir.assignsWithin_cons :
    AssignsWithin vars (i :: a) ↔ (∀ v, i.assigned? = some v → v ∈ vars) ∧ AssignsWithin vars a :=
  List.forall_mem_cons

@[simp] theorem Ir.codeTyped_nil : CodeTyped sc vars [] := nofun

@[simp] theorem Ir.codeTyped_append :
    CodeTyped sc vars (a ++ b) ↔ CodeTyped sc vars a ∧ CodeTyped sc vars b :=
  List.forall_mem_append

@[simp] theorem Ir.codeTyped_cons :
    CodeTyped sc vars (i :: a) ↔ i.WellTyped sc vars ∧ CodeTyped sc vars a :=
  List.forall_mem_cons

end

/-- What an instruction gives is kept in a temporary of its type. -/
theorem Lower.Kept.typed {sc : Scope} {vars : List Symbol} {ty : Ty} {rhs : Instr}
    {c c' : Counters} {o : Operand} {code : List Instr} (h : Kept ty rhs c o c' code)
    (hrhs : rhs.Yields sc vars) (hcopy : rhs.isCopy = false) (hty : rhs.ty = ty)
    (hvars : AssignsWithin vars code) : o.Declared vars ∧ CodeTyped sc vars code := by
  obtain ⟨rfl, -, rfl⟩ := h
  have hmem : ⟨tempName c.temps, ty⟩ ∈ vars := hvars _ (List.mem_singleton_self _) _ rfl
  refine ⟨Operand.declared_var.2 hmem, ?_⟩
  rw [codeTyped_cons]
  exact ⟨⟨⟨hmem, rfl⟩, hrhs, Instr.stored_temp hcopy hty⟩, codeTyped_nil⟩

namespace Expr

variable {sc : Scope} {types : TypeMap} {mk : Bool} {e : Expr} {c c' : Counters} {o : Operand}
  {code : List Instr} {vars : List Symbol}

/-- Lowering the expression gives a declared operand and well-typed code. -/
def LowersTyped (sc : Scope) (types : TypeMap) (mk : Bool) (vars : List Symbol) (e : Expr) : Prop :=
  ∀ {c c' : Counters} {o : Operand} {code : List Instr}, Lowers sc types mk e c o c' code →
    AssignsWithin vars code → o.Declared vars ∧ CodeTyped sc vars code

theorem LowersAll.typed {es : List Expr} {os : List Operand}
    (hes : ∀ e ∈ es, e.LowersTyped sc types mk vars) (hl : LowersAll sc types mk es c os c' code)
    (hvars : AssignsWithin vars code) : (∀ o ∈ os, o.Declared vars) ∧ CodeTyped sc vars code := by
  induction es generalizing c os code with
  | nil =>
    obtain ⟨rfl, -, rfl⟩ := lowersAll_nil.1 hl
    exact ⟨nofun, nofun⟩
  | cons e es ih =>
    obtain ⟨a, c₁, k₁, as, k₂, he, hrest, rfl, rfl⟩ := lowersAll_cons.1 hl
    rw [assignsWithin_append] at hvars
    rw [List.forall_mem_cons] at hes ⊢
    obtain ⟨ha, hk₁⟩ := hes.1 he hvars.1
    obtain ⟨has, hk₂⟩ := ih hes.2 hrest hvars.2
    exact ⟨⟨ha, has⟩, codeTyped_append.2 ⟨hk₁, hk₂⟩⟩

/-- Arguments that fit the parameters are lowered to operands that do, class names apart. -/
theorem LowersAll.args_fit {args : List Expr} {os : List Operand} {ps : List Symbol}
    (hl : LowersAll sc types mk args c os c' code)
    (h : List.Forall₂ (fun a p => a.Placed sc types.Has (sc.assignable · p.ty = true)) args ps) :
    List.Forall₂ (fun o p => o.isClass = false → sc.assignable o.ty p.ty = true) os ps := by
  induction h generalizing c os code with
  | nil =>
    obtain ⟨rfl, -⟩ := lowersAll_nil.1 hl
    exact .nil
  | cons ha _ ih =>
    obtain ⟨o, c₁, k₁, os', k₂, he, hrest, rfl, rfl⟩ := lowersAll_cons.1 hl
    exact .cons (fun ho => (he.ty_of_placed ha ho).2) (ih hrest)

theorem LowersAll.args_typed {args : List Expr} {os : List Operand} {ps : List Symbol}
    (hl : LowersAll sc types mk args c os c' code)
    (h : List.Forall₂ (fun a p => a.Placed sc types.Has (sc.assignable · p.ty = true)) args ps)
    (hos : ∀ o ∈ os, o.Declared vars) :
    List.Forall₂ (fun o t => o.Typed vars (sc.assignable · t = true)) os (ps.map Symbol.ty) := by
  rw [List.forall₂_map_right_iff]
  refine List.Forall₂.imp ?_ ((List.forall₂_and_left _ _).2 ⟨hos, hl.args_fit h⟩)
  intro o p ho
  exact Operand.typed_iff.2 ho

/-- The call is static if its target is a class, and else virtual. -/
theorem callInstr_eq (t : Operand) (m : String) (as : List Operand) (ty : Ty) :
    callInstr sc t m as ty = .call (if t.isClass then .static else .virtual) t m as
      (declaredParams sc t m as.length) ty := by
  cases t <;> rfl

/-- The instruction for an accepted call is well typed. -/
theorem callTyped_of_placed {n : Node} {r : Expr} {m : Located String} {args : List Expr}
    {t : Operand} {as : List Operand} {c₁ c₂ : Counters} {k₁ k₂ : List Instr}
    (h : Hold types.Has ((call n r m args).annotate sc).notes)
    (hargs : LowersAll sc types mk args c as c₁ k₁) (hr : Lowers sc types mk r c₁ t c₂ k₂)
    (hdeclared : ∀ a ∈ as, a.Declared vars) (ht : t.Declared vars) :
    CallTyped sc vars t as (declaredParams sc t m.node as.length)
      (if t.isClass then .static else .virtual) := by
  have hcall := placed_call h
  cases hclass : t.isClass with
  | true => exact ⟨hclass, hdeclared⟩
  | false =>
    refine ⟨⟨hclass, hr.typed hcall.receiver.placed ht⟩, hdeclared, fun ps hps => ?_⟩
    -- The parameters are known only for a method of this class, called on an object of this class.
    unfold declaredParams at hps
    split at hps
    · next hthis =>
      split at hps
      · next sig hsig =>
        split at hps
        · obtain rfl := Option.some.inj hps
          refine hargs.args_typed (hcall.params sig ?_ hsig) hdeclared
          rw [← beq_iff_eq.1 hthis]
          exact (hr.value_of_required hcall.receiver hclass).1
        · cases hps
      · cases hps
    · cases hps

theorem lowersTyped_var (hsc : sc.Within vars) {n : Node} {x : String} :
    (var n x).LowersTyped sc types mk vars := by
  intro c c' o code hl hvars
  rcases lowers_var.1 hl with ⟨s, hs, hk⟩ | ⟨b, hb, hfield, rfl, -, rfl⟩ | ⟨-, -, rfl, -, rfl⟩
  · exact hk.typed ⟨x, s, rfl, hs, rfl⟩ rfl rfl hvars
  · obtain ⟨p, hp⟩ := @varOperand_eq mk x b
    rw [hp]
    exact ⟨Operand.declared_var.2 (hsc.names hb hfield), codeTyped_nil⟩
  · exact ⟨Operand.declared_cls, codeTyped_nil⟩

/-- One operand in its place, and an instruction on it that yields the type of the temporary. -/
theorem LowersTyped.unary {P : Ty → Prop} {ty : Ty} {rhs : Instr} {a : Operand} {c₁ : Counters}
    {k₁ k₂ : List Instr} (he : e.LowersTyped sc types mk vars) (hplaced : e.Placed sc types.Has P)
    (hl : Lowers sc types mk e c a c₁ k₁) (hk : Kept ty rhs c₁ o c' k₂)
    (hvars : AssignsWithin vars (k₁ ++ k₂)) (hrhs : a.Typed vars P → rhs.Yields sc vars)
    (hcopy : rhs.isCopy = false) (hty : rhs.ty = ty) :
    o.Declared vars ∧ CodeTyped sc vars (k₁ ++ k₂) := by
  rw [assignsWithin_append] at hvars
  obtain ⟨ha, hk₁⟩ := he hl hvars.1
  obtain ⟨ho, hk₂⟩ := hk.typed (hrhs (hl.typed hplaced ha)) hcopy hty hvars.2
  exact ⟨ho, codeTyped_append.2 ⟨hk₁, hk₂⟩⟩

theorem lowersTyped_binary {n : Node} {op : BinOp} {l r : Expr}
    (h : Hold types.Has ((binary n op l r).annotate sc).notes)
    (ihl : Hold types.Has (l.annotate sc).notes → l.LowersTyped sc types mk vars)
    (ihr : Hold types.Has (r.annotate sc).notes → r.LowersTyped sc types mk vars) :
    (binary n op l r).LowersTyped sc types mk vars := by
  intro c c' o code hlow hvars
  obtain ⟨ty, a, c₁, k₁, b, c₂, k₂, k₃, hty, hleft, hright, hk, rfl⟩ := lowers_binary.1 hlow
  obtain ⟨hl, hr⟩ := placed_binary h
  -- The recorded type is that of the operator: no operand decides on it.
  have hresult : ty = op.resultTy := by
    refine Option.some.inj (hty.symm.trans (holds_of_value h ?_).1)
    simp only [annotate, Noted.notes_bind, hold_append] at h
    simpa [annotate] using value_binaryTy h.2.2.1
  rw [assignsWithin_append, assignsWithin_append] at hvars
  obtain ⟨ha, hk₁⟩ := ihl hl.notes hleft hvars.1
  obtain ⟨hb, hk₂⟩ := ihr hr.notes hright hvars.2.1
  obtain ⟨ho, hk₃⟩ := hk.typed ⟨hleft.typed hl ha, hright.typed hr hb, hresult⟩ rfl rfl hvars.2.2
  exact ⟨ho, codeTyped_append.2 ⟨hk₁, codeTyped_append.2 ⟨hk₂, hk₃⟩⟩⟩

theorem lowersTyped_call {n : Node} {r : Expr} {m : Located String} {args : List Expr}
    (h : Hold types.Has ((call n r m args).annotate sc).notes)
    (ihr : Hold types.Has (r.annotate sc).notes → r.LowersTyped sc types mk vars)
    (ihargs : ∀ a ∈ args, Hold types.Has (a.annotate sc).notes →
      a.LowersTyped sc types mk vars) :
    (call n r m args).LowersTyped sc types mk vars := by
  intro c c' o code hl hvars
  obtain ⟨ty, as, c₁, k₁, t, c₂, k₂, k₃, -, hvoid, hargs, hr, hk, rfl⟩ := lowers_call.1 hl
  have hcall := placed_call h
  rw [assignsWithin_append, assignsWithin_append] at hvars
  obtain ⟨has, hk₁⟩ := hargs.typed (fun a ha => ihargs a ha (hcall.args a ha).notes) hvars.1
  obtain ⟨ht, hk₂⟩ := ihr hcall.receiver.notes hr hvars.2.1
  rw [callInstr_eq] at hk
  obtain ⟨ho, hk₃⟩ := hk.typed ⟨hvoid, callTyped_of_placed h hargs hr has ht⟩ rfl rfl hvars.2.2
  exact ⟨ho, codeTyped_append.2 ⟨hk₁, codeTyped_append.2 ⟨hk₂, hk₃⟩⟩⟩

theorem lowersTyped_newObject {n : Node} {cl : Located String} :
    (newObject n cl).LowersTyped sc types mk vars := by
  intro c c' o code hl hvars
  obtain ⟨k, hk, rfl⟩ := lowers_newObject.1 hl
  rw [assignsWithin_append] at hvars
  have hclass := hk.isClass
  have hty := hk.ty
  obtain ⟨ho, hk₁⟩ := hk.typed trivial rfl rfl hvars.1
  refine ⟨ho, codeTyped_append.2 ⟨hk₁, codeTyped_cons.2 ⟨⟨⟨hclass, ?_⟩, rfl, rfl⟩, codeTyped_nil⟩⟩⟩
  -- The constructor is called on the temporary, which has the type of the new object.
  exact Operand.typed_iff.2 ⟨ho, fun _ => ⟨_, hty⟩⟩

theorem lowersTyped_newArray {n : Node} (h : Hold types.Has ((newArray n e).annotate sc).notes)
    (ih : Hold types.Has (e.annotate sc).notes → e.LowersTyped sc types mk vars) :
    (newArray n e).LowersTyped sc types mk vars := by
  intro c c' o code hl hvars
  obtain ⟨ty, a, c₁, k₁, k₂, hty, he, hk, rfl⟩ := lowers_newArray.1 hl
  have hplaced := placed_newArray h
  have harray : ty = .array .int := by
    refine Option.some.inj (hty.symm.trans (holds_of_value h ?_).1)
    simp [annotate]
  exact LowersTyped.unary (ih hplaced.notes) hplaced he hk hvars (⟨·, by rw [harray]; rfl⟩) rfl rfl

theorem lowersTyped_index {n : Node} {a i : Expr}
    (h : Hold types.Has ((index n a i).annotate sc).notes)
    (iha : Hold types.Has (a.annotate sc).notes → a.LowersTyped sc types mk vars)
    (ihi : Hold types.Has (i.annotate sc).notes → i.LowersTyped sc types mk vars) :
    (index n a i).LowersTyped sc types mk vars := by
  intro c c' o code hl hvars
  obtain ⟨ty, x, t, p, c₁, k₁, j, c₂, k₂, k₃, hty, ha, hi, hk, rfl⟩ := lowers_index.1 hl
  obtain ⟨harray, hplace⟩ := required_index h
  rw [assignsWithin_append, assignsWithin_append] at hvars
  obtain ⟨hx, hk₁⟩ := iha harray.notes ha hvars.1
  obtain ⟨hj, hk₂⟩ := ihi hplace.notes hi hvars.2.1
  -- The type of the item comes from the annotation, that of the array from its operand: the
  -- annotator took the one from the other.
  obtain ⟨hvalue, element, helement⟩ := ha.value_of_required harray rfl
  have hitem : ty = element := by
    refine Option.some.inj (hty.symm.trans (holds_of_value h ?_).1)
    simp [annotate, hvalue, helement, indexTy]
  have hx' : ⟨x, .array ty⟩ ∈ vars := by
    rw [hitem, ← helement]
    exact Operand.declared_var.1 hx
  obtain ⟨ho, hk₃⟩ := hk.typed ⟨hx', hi.typed hplace hj, trivial⟩ rfl rfl hvars.2.2
  exact ⟨ho, codeTyped_append.2 ⟨hk₁, codeTyped_append.2 ⟨hk₂, hk₃⟩⟩⟩

/-- **Code of expressions.** An expression whose notes are recorded is lowered to a declared operand
and well-typed code. -/
theorem lowersTyped (hsc : sc.Within vars) (h : Hold types.Has (e.annotate sc).notes) :
    e.LowersTyped sc types mk vars := by
  induction e using Expr.induction with
  | int n v =>
    intro c c' o code hl _
    obtain ⟨rfl, -, rfl⟩ := lowers_int.1 hl
    exact ⟨Operand.declared_literal, codeTyped_nil⟩
  | bool n v =>
    intro c c' o code hl _
    obtain ⟨rfl, -, rfl⟩ := lowers_bool.1 hl
    exact ⟨Operand.declared_literal, codeTyped_nil⟩
  | this n =>
    intro c c' o code hl _
    obtain ⟨rfl, -, rfl⟩ := lowers_this.1 hl
    simp only [annotate, Noted.notes_bind, hold_append, Noted.hold_reportIf] at h
    have hstatic : sc.isStatic = false := by simpa [Problem.severity] using h.1
    exact ⟨Operand.declared_var.2 (hsc.this hstatic), codeTyped_nil⟩
  | var n x => exact lowersTyped_var hsc
  | not n e ih =>
    intro c c' o code hl hvars
    obtain ⟨a, c₁, k₁, k₂, he, hk, rfl⟩ := lowers_not.1 hl
    have hplaced := placed_not h
    exact LowersTyped.unary (ih hplaced.notes) hplaced he hk hvars (⟨·, rfl⟩) rfl rfl
  | binary n op l r ihl ihr => exact lowersTyped_binary h ihl ihr
  | call n r m args ihr ihargs => exact lowersTyped_call h ihr ihargs
  | newObject n cl => exact lowersTyped_newObject
  | newArray n e ih => exact lowersTyped_newArray h ih
  | length n a ih =>
    intro c c' o code hl hvars
    obtain ⟨b, c₁, k₁, k₂, ha, hk, rfl⟩ := lowers_length.1 hl
    have hrequired := required_length h
    exact LowersTyped.unary (ih hrequired.notes) hrequired.placed ha hk hvars (fun hb => hb) rfl rfl
  | index n a i iha ihi => exact lowersTyped_index h iha ihi
  | paren n e ih =>
    intro c c' o code hl hvars
    rw [annotate, Noted.notes_bind, hold_append] at h
    exact ih h.1 (lowers_paren.1 hl) hvars

/-- The same for an expression that is computed for its effects. -/
theorem LowersEffect.typed (hsc : sc.Within vars) (h : Hold types.Has (e.annotate sc).notes)
    (hl : LowersEffect sc types e c c' code) (hvars : AssignsWithin vars code) :
    CodeTyped sc vars code := by
  induction e using Expr.induction with
  | paren n e ih =>
    rw [annotate, Noted.notes_bind, hold_append] at h
    exact ih h.1 (lowersEffect_paren.1 hl)
  | call n r m args =>
    obtain ⟨as, c₁, k₁, t, k₂, hargs, hr, rfl⟩ := lowersEffect_call.1 hl
    have hcall := placed_call h
    rw [assignsWithin_append, assignsWithin_append] at hvars
    obtain ⟨has, hk₁⟩ := hargs.typed (fun a ha => lowersTyped hsc (hcall.args a ha).notes) hvars.1
    obtain ⟨ht, hk₂⟩ := lowersTyped hsc hcall.receiver.notes hr hvars.2.1
    rw [callInstr_eq]
    refine codeTyped_append.2 ⟨hk₁, codeTyped_append.2 ⟨hk₂, codeTyped_cons.2 ⟨?_, codeTyped_nil⟩⟩⟩
    exact callTyped_of_placed h hargs hr has ht
  | _ =>
    obtain ⟨o, hlow⟩ := (lowersEffect_plain (by simp [IsPlain])).1 hl
    exact (lowersTyped hsc h hlow hvars).2

/-- The operand of an expression is not an item of an array. -/
theorem Lowers.isCopy (hl : Lowers sc types mk e c o c' code) : (Instr.value o).isCopy = true := by
  rcases hl.operand with ⟨x, ty, p, rfl⟩ | ⟨v, ty, rfl, -⟩ | ⟨cl, -, rfl⟩ <;> rfl

end Expr

/-! ## Code of statements -/

namespace Stmt

open MiniJava.Expr

variable {sc : Scope} {types : TypeMap} {s : Stmt} {c c' : Counters} {code : List Instr}
  {vars : List Symbol}

theorem LowersAll.typed {ss : List Stmt}
    (hss : ∀ s ∈ ss, ∀ {c c' : Counters} {code : List Instr}, Lowers sc types s c c' code →
      AssignsWithin vars code → CodeTyped sc vars code)
    (hl : LowersAll sc types ss c c' code) (hvars : AssignsWithin vars code) :
    CodeTyped sc vars code := by
  induction ss generalizing c code with
  | nil =>
    obtain ⟨-, rfl⟩ := lowersAll_nil.1 hl
    exact codeTyped_nil
  | cons s ss ih =>
    obtain ⟨c₁, k₁, k₂, hs, hrest, rfl⟩ := lowersAll_cons.1 hl
    rw [assignsWithin_append] at hvars
    rw [List.forall_mem_cons] at hss
    exact codeTyped_append.2 ⟨hss.1 hs hvars.1, ih hss.2 hrest hvars.2⟩

theorem codeTyped_joinJump (n : Nat) (e : Stmt) : CodeTyped sc vars (joinJump n e) := by
  unfold joinJump
  split
  · exact codeTyped_nil
  · exact codeTyped_cons.2 ⟨trivial, codeTyped_nil⟩

theorem codeTyped_joinLabel (n : Nat) (t e : Stmt) : CodeTyped sc vars (joinLabel n t e) := by
  unfold joinLabel
  split
  · exact codeTyped_nil
  · exact codeTyped_cons.2 ⟨trivial, codeTyped_nil⟩

/-- A condition, and the branch on it. -/
theorem typed_condition (hsc : sc.Within vars) {keyword : String} {cond : Expr} {o : Operand}
    (h : Hold types.Has (condition sc keyword cond).notes)
    (hl : Expr.Lowers sc types true cond c o c' code) (hvars : AssignsWithin vars code) :
    CodeTyped sc vars code ∧ ∀ l, (Instr.branch o l).WellTyped sc vars := by
  have hplaced := placed_condition h
  obtain ⟨ho, hcode⟩ := lowersTyped hsc hplaced.notes hl hvars
  exact ⟨hcode, fun _ => hl.typed hplaced ho⟩

/-- **Code of statements.** A statement whose notes are recorded is lowered to well-typed code. -/
theorem Lowers.typed (hsc : sc.Within vars) (h : Hold types.Has (s.annotate sc).notes)
    (hl : Lowers sc types s c c' code) (hvars : AssignsWithin vars code) :
    CodeTyped sc vars code := by
  induction s using Stmt.induction generalizing c c' code with
  | varDecl sp d =>
    obtain ⟨-, rfl⟩ := lowers_varDecl.1 hl
    exact codeTyped_nil
  | block sp body ih =>
    rw [annotate] at h
    exact (lowers_block.1 hl).typed (fun s hs => ih s hs (hold_of_annotateAll h s hs)) hvars
  | ifThen sp cond t ih =>
    obtain ⟨o, c₁, k₁, k₂, hcond, ht, rfl⟩ := lowers_ifThen.1 hl
    rw [annotate, Noted.notes_bind, hold_append] at h
    simp only [assignsWithin_append, assignsWithin_cons] at hvars
    obtain ⟨hvars₁, -, -, -, hvars₂, -⟩ := hvars
    obtain ⟨hk₁, hbranch⟩ := typed_condition hsc h.1 hcond hvars₁
    have hk₂ := ih h.2 ht hvars₂
    simp [hk₁, hbranch, hk₂]
  | ifElse sp cond t e iht ihe =>
    obtain ⟨o, c₁, k₁, c₂, k₂, k₃, hcond, he, ht, rfl⟩ := lowers_ifElse.1 hl
    simp only [annotate, Noted.notes_bind, hold_append] at h
    simp only [assignsWithin_append, assignsWithin_cons] at hvars
    obtain ⟨hvars₁, -, hvars₂, -, -, hvars₃, -⟩ := hvars
    obtain ⟨hk₁, hbranch⟩ := typed_condition hsc h.1 hcond hvars₁
    have hk₂ := ihe h.2.2 he hvars₂
    have hk₃ := iht h.2.1 ht hvars₃
    simp [hk₁, hbranch, hk₂, hk₃, codeTyped_joinJump, codeTyped_joinLabel]
  | whileLoop sp cond b ih =>
    obtain ⟨o, c₁, k₁, k₂, hcond, hb, rfl⟩ := lowers_whileLoop.1 hl
    rw [annotate, Noted.notes_bind, hold_append] at h
    simp only [assignsWithin_append, assignsWithin_cons] at hvars
    obtain ⟨-, hvars₁, -, -, -, hvars₂, -⟩ := hvars
    obtain ⟨hk₁, hbranch⟩ := typed_condition hsc h.1 hcond hvars₁
    have hk₂ := ih h.2 hb hvars₂
    simp [hk₁, hbranch, hk₂]
  | expr sp e => exact (lowers_expr.1 hl).typed hsc (hold_of_effect h) hvars
  | assign sp x v =>
    obtain ⟨b, o, k, hb, hv, hstore⟩ := lowers_assign.1 hl
    obtain ⟨b', hb', hplaced⟩ := placed_assignment h
    obtain rfl : b = b' := Option.some.inj (hb.symm.trans hb')
    -- A field is stored through the object, a local or a parameter in its register.
    rcases hstore with ⟨s, rfl, rfl⟩ | ⟨hfield, rfl⟩
    · rw [assignsWithin_append] at hvars
      obtain ⟨ho, hk⟩ := lowersTyped hsc hplaced.notes hv hvars.1
      refine codeTyped_append.2 ⟨hk, codeTyped_cons.2 ⟨?_, codeTyped_nil⟩⟩
      exact ⟨x.node, s, rfl, hb, hv.typed hplaced ho⟩
    · rw [assignsWithin_append] at hvars
      obtain ⟨ho, hk⟩ := lowersTyped hsc hplaced.notes hv hvars.1
      refine codeTyped_append.2 ⟨hk, codeTyped_cons.2 ⟨?_, codeTyped_nil⟩⟩
      obtain ⟨p, hp⟩ := @varOperand_eq true x.node b
      rw [hp]
      exact ⟨⟨hsc.names hb hfield, rfl⟩, ho,
        Instr.stored_variable hb hfield hv.isCopy (hv.typed hplaced ho)⟩
  | arrayAssign sp x i v =>
    obtain ⟨b, ty, y, t, p, c₁, k₁, j, c₂, k₂, o, k₃, hb, hty, hbase, hi, hv, rfl⟩ :=
      lowers_arrayAssign.1 hl
    obtain ⟨b', element, hb', hty', hplace, hplaced⟩ := placed_elementAssignment h
    obtain rfl : b = b' := Option.some.inj (hb.symm.trans hb')
    -- Lowering and the annotator both take the type of the item from the declaration of the array.
    obtain rfl : ty = element := by simpa [hty] using hty'
    simp only [assignsWithin_append] at hvars
    obtain ⟨hvars₁, hvars₂, hvars₃, -⟩ := hvars
    obtain ⟨hy, hk₁⟩ := lowersTyped_var hsc hbase hvars₁
    obtain ⟨hj, hk₂⟩ := lowersTyped hsc hplace.notes hi hvars₂
    obtain ⟨ho, hk₃⟩ := lowersTyped hsc hplaced.notes hv hvars₃
    have hy' : ⟨y, .array ty⟩ ∈ vars := by
      rw [← hty, ← (hbase.ty_of_resolve hb).2]
      exact Operand.declared_var.1 hy
    have hstore : (Instr.assign (.item y j ty p) ty (.value o)).WellTyped sc vars :=
      ⟨⟨hy', hi.typed hplace hj, rfl⟩, ho, hv.typed hplaced ho⟩
    simp [hk₁, hk₂, hk₃, hstore]
  | ret sp v =>
    cases v with
    | none =>
      obtain ⟨-, rfl⟩ := lowers_ret_none.1 hl
      exact codeTyped_cons.2 ⟨returnTy_of_returned_none h, codeTyped_nil⟩
    | some v =>
      obtain ⟨o, k, hv, rfl⟩ := lowers_ret_some.1 hl
      -- A value is returned only where the method declares one, or the annotator reports an error.
      obtain ⟨hvoid, hplaced⟩ := placed_returned h
      rw [assignsWithin_append] at hvars
      obtain ⟨ho, hk⟩ := lowersTyped hsc hplaced.notes hv hvars.1
      exact codeTyped_append.2 ⟨hk, codeTyped_cons.2 ⟨⟨hvoid, hv.typed hplaced ho⟩, codeTyped_nil⟩⟩

end Stmt

/-! ## Values in a body -/

namespace Expr

variable {sc : Scope} {types : TypeMap} {e : Expr}

/-- With an expression everything inside it stands in a place. -/
theorem Placed.subtree (h : e.Placed sc types.Has fun _ => True) :
    ∀ d ∈ e.subtree, d.Placed sc types.Has fun _ => True := by
  induction e using Expr.induction_children with
  | step e ih =>
    rw [subtree_eq_cons, List.forall_mem_cons]
    refine ⟨h, fun d hd => ?_⟩
    obtain ⟨child, hchild, hd⟩ := List.mem_flatMap.1 hd
    exact ih child hchild (h.children child hchild) d hd

theorem placed_usedParts (h : Hold types.Has (e.annotate sc).notes) :
    ∀ d ∈ e.usedParts, d.Placed sc types.Has fun _ => True := by
  induction e using Expr.induction with
  | paren n e ih =>
    rw [annotate, Noted.notes_bind, hold_append] at h
    exact ih h.1
  | call n r m args =>
    have hcall := placed_call h
    exact List.forall_mem_cons.2 ⟨hcall.receiver.placed.mono fun _ _ => trivial, hcall.args⟩
  | _ => exact List.forall_mem_singleton.2 ⟨h, fun _ _ => trivial, fun _ => .inr (by simp [strip])⟩

end Expr

namespace Stmt

open MiniJava.Expr

variable {sc : Scope} {types : TypeMap} {s : Stmt}

/-- An expression whose value is used stands in a place. -/
theorem placed_values (h : Hold types.Has (s.annotate sc).notes) :
    ∀ e ∈ s.values, e.Placed sc types.Has fun _ => True := by
  -- What a place wants is not asked here, only that the expression fits some place.
  have hany : ∀ {Q : Ty → Prop} {d : Expr}, d.Placed sc types.Has Q →
      d.Placed sc types.Has fun _ => True :=
    fun hd => hd.mono fun _ _ => trivial
  induction s using Stmt.induction with
  | varDecl sp d => exact List.forall_mem_nil _
  | block sp body ih =>
    rw [annotate] at h
    rw [values, valuesAll_eq_flatMap]
    intro e he
    obtain ⟨s, hs, he⟩ := List.mem_flatMap.1 he
    exact ih s hs (hold_of_annotateAll h s hs) e he
  | ifThen sp cond t ih | whileLoop sp cond t ih =>
    rw [annotate, Noted.notes_bind, hold_append] at h
    exact List.forall_mem_cons.2 ⟨hany (placed_condition h.1), ih h.2⟩
  | ifElse sp cond t e iht ihe =>
    simp only [annotate, Noted.notes_bind, hold_append] at h
    exact List.forall_mem_cons.2 ⟨hany (placed_condition h.1),
      List.forall_mem_append.2 ⟨iht h.2.1, ihe h.2.2⟩⟩
  | expr sp e => exact placed_usedParts (hold_of_effect h)
  | assign sp x v =>
    obtain ⟨b, -, hv⟩ := placed_assignment h
    exact List.forall_mem_singleton.2 (hany hv)
  | arrayAssign sp x i v =>
    obtain ⟨b, element, -, -, hi, hv⟩ := placed_elementAssignment h
    exact List.forall_mem_cons.2 ⟨hany hi, List.forall_mem_singleton.2 (hany hv)⟩
  | ret sp v =>
    cases v with
    | none => exact List.forall_mem_nil _
    | some v => exact List.forall_mem_singleton.2 (hany (placed_returned h).2)

end Stmt

/-! ## Programs -/

/-- The scope is the one in which the code of the method was written. A constructor has no
symbols. -/
def Scope.IsOf (sc : Scope) (table : SymbolTable) (u : ClassUnit) (m : Method) : Prop :=
  sc.table = table ∧ table.class? u.name = some sc.cls ∧ sc.isStatic = m.isStatic ∧
    (m.isConstructor = false → sc.cls.method? m.name = some sc.method)

theorem MethodDecl.LowersTo.wellTyped {table : SymbolTable} {types : TypeMap} {cls : ClassSymbols}
    {method : MethodSymbols} {d : MethodDecl} {m : Method} (h : d.LowersTo table types cls m)
    (hmethod : cls.method? d.name.node = some method)
    (hbody : Hold types.Has (Stmt.annotateAll (d.scope table cls method) d.body).notes) :
    m.WellTyped (d.scope table cls method) := by
  obtain ⟨c, c', events, hrun⟩ := h
  obtain ⟨method', body, hmethod', hlow, hcode, hparams, hlocals⟩ := lower_ok hrun
  obtain rfl : method = method' := Option.some.inj (hmethod.symm.trans hmethod')
  obtain ⟨-, hclass, hstatic, -, -⟩ := lower_heading hrun
  -- The declarations of the method hold all that its body can name, and the temporaries as well.
  have hsc : (d.scope table cls method).Within m.declarations := by
    constructor
    · intro x b hb hfield
      have hmem := Scope.mem_of_resolve hb hfield
      rw [Method.declarations, List.append_assoc _ m.params, hparams, hlocals]
      exact List.mem_append_left _ (List.mem_append_right _ hmem)
    · intro hinstance
      have hthis : m.isStatic = false := hstatic.trans hinstance
      simp [Method.declarations, hthis, hclass, Scope.thisTy, scope]
  have hvars : AssignsWithin m.declarations m.code := by
    intro i hi v hv
    exact List.mem_append_right _ (List.mem_filterMap.2 ⟨i, hi, hv⟩)
  rw [hcode, assignsWithin_append] at hvars
  have hbodyTyped := hlow.typed
    (fun s hs => Stmt.Lowers.typed hsc (Stmt.hold_of_annotateAll hbody s hs)) hvars.1
  have hfinal : CodeTyped (d.scope table cls method) m.declarations d.finalReturn := by
    unfold finalReturn
    split
    · exact codeTyped_cons.2 ⟨rfl, codeTyped_nil⟩
    · exact codeTyped_nil
  rw [Method.WellTyped, hcode]
  exact codeTyped_append.2 ⟨hbodyTyped, hfinal⟩

theorem Ir.Method.defaultConstructor_wellTyped (sc : Scope) (className : String) :
    (Method.defaultConstructor className).WellTyped sc := by
  have hthis : (⟨"this", .cls className⟩ : Symbol) ∈
      (Method.defaultConstructor className).declarations := List.mem_cons_self ..
  refine codeTyped_cons.2 ⟨⟨⟨rfl, hthis, className, rfl⟩, rfl, rfl⟩, ?_⟩
  exact codeTyped_cons.2 ⟨rfl, codeTyped_nil⟩

/-- Every expression of the body whose value is used gets an operand of the type that the annotation
gives to it, or a class name. -/
def MethodDecl.OperandsAnnotated (sc : Scope) (types : TypeMap) (d : MethodDecl) : Prop :=
  ∀ e ∈ (Stmt.valuesAll d.body).flatMap Expr.subtree, ∀ mk c o c' code,
    e.Lowers sc types mk c o c' code → o.isClass = false → types.get? e.id = some o.ty

namespace Program

variable {p : Program} {table : SymbolTable} {a : Annotation} {c : Counters}
  {units : List ClassUnit}

theorem wellTyped_of_lower (h : p.checked table = .ok a)
    (hlow : ((p.lower table a.types).run c).result = .ok units) :
    ∀ u ∈ units, ∀ m ∈ u.methods, ∃ sc : Scope, sc.IsOf table u m ∧ m.WellTyped sc := by
  obtain ⟨hids, hcheck⟩ := checked_ok_iff.1 h
  obtain ⟨c', events, hrun⟩ := Stage.run_of_result hlow
  intro u hu m hm
  obtain ⟨d, hd, cls, hcls, hname, hmethods⟩ := lower_methods hrun hu
  have hcls' : table.class? u.name = some cls := hname ▸ hcls
  rcases hmethods m hm with rfl | ⟨md, hmd, method, hmethod, hlowers⟩
  · exact ⟨⟨table, cls, ⟨"<init>", .void, [], [], true, false⟩, false⟩, ⟨rfl, hcls', rfl, nofun⟩,
      Method.defaultConstructor_wellTyped _ _⟩
  · have hbody := recorded_body hids hcheck hd hcls hmd hmethod
    refine ⟨md.scope table cls method, ⟨rfl, hcls', ?_⟩, hlowers.wellTyped hmethod hbody⟩
    obtain ⟨c₁, c₂, events₁, hmrun⟩ := hlowers
    obtain ⟨hmname, -, hstatic, -, -⟩ := MethodDecl.lower_heading hmrun
    exact ⟨hstatic.symm, fun _ => hmname ▸ hmethod⟩

/-- **Accepted programs are lowered to well-typed code.** If a program passes the check and is
lowered, then each instruction of each method is well typed in the scope of the method and for the
variables that the method declares; and the operands of expressions have the types of the
annotation. -/
theorem lowered_wellTyped (h : p.checked table = .ok a)
    (hlow : ((p.lower table a.types).run c).result = .ok units) :
    (∀ u ∈ units, ∀ m ∈ u.methods, ∃ sc : Scope, sc.IsOf table u m ∧ m.WellTyped sc) ∧
      ∀ d ∈ p.classes, ∀ cls, table.class? d.name.node = some cls → ∀ md ∈ d.methods, ∀ method,
        cls.method? md.name.node = some method →
          md.OperandsAnnotated (md.scope table cls method) a.types := by
  refine ⟨wellTyped_of_lower h hlow, ?_⟩
  obtain ⟨hids, hcheck⟩ := checked_ok_iff.1 h
  intro d hd cls hcls md hmd method hmethod e he mk c₁ o c₂ code hl hclass
  have hbody := recorded_body hids hcheck hd hcls hmd hmethod
  obtain ⟨root, hroot, hin⟩ := List.mem_flatMap.1 he
  have hblock : Hold a.types.Has ((Stmt.block .unknown md.body).annotate
      (md.scope table cls method)).notes := hbody
  have hplaced := (Stmt.placed_values hblock root hroot).subtree e hin
  exact (hl.ty_of_placed hplaced hclass).1

end Program

/-! A class that keeps an array in a field, reads into it from outside, and calls itself. -/

namespace Basket

/-- `!(n < row.length) && true`. -/
def isFull : Expr :=
  .binary { id := 1 } .and
    (.not { id := 2 } (.paren { id := 3 }
      (.binary { id := 4 } .lt (.var { id := 5 } "n")
        (.length { id := 6 } (.var { id := 7 } "row")))))
    (.bool { id := 8 } true)

/-- `io.read()`, which takes its type from the array it is stored in. -/
def read : Expr := .call { id := 10 } (.var { id := 11 } "io") { node := "read" } []

/-- `this.fill(row[0]) + n`. -/
def total : Expr :=
  .binary { id := 14 } .add
    (.call { id := 15 } (.this { id := 16 }) { node := "fill" }
      [.index { id := 17 } (.var { id := 18 } "row") (.int { id := 19 } 0)])
    (.var { id := 20 } "n")

def fill : MethodDecl where
  name := { node := "fill" }
  returnTy := { node := .int }
  body :=
    [.assign .unknown { node := "row" } (.var { id := 0 } "items"),
      .ifElse .unknown isFull
        (.assign .unknown { node := "items" } (.newArray { id := 12 } (.var { id := 13 } "n")))
        (.arrayAssign .unknown { node := "row" } (.var { id := 9 } "n") read),
      .ret .unknown (some total)]

def fillSymbols : MethodSymbols where
  name := "fill"
  returnTy := .int
  params := [⟨"n", .int⟩]
  locals := [⟨"row", .array .int⟩]

def symbols : ClassSymbols where
  name := "Basket"
  fields := [⟨"items", .array .int⟩]
  methods := [fillSymbols]

def table : SymbolTable where
  imports := ["io"]
  classes := [symbols]

def decl : ClassDecl where
  name := { node := "Basket" }
  methods := [fill]

def program : Program where
  imports := [{ node := "io" }]
  classes := [decl]

theorem program_checked : program.checked table = .ok (program.annotate table) :=
  Program.checked_ok_iff.2 ⟨Program.uniqueIds_iff_nodup.2 (by decide), rfl⟩

theorem fill_wellTyped : ∃ a units, program.checked table = .ok a ∧
    ((program.lower table a.types).run {}).result = .ok units ∧
    (∀ u ∈ units, ∀ m ∈ u.methods, ∃ sc : Scope, sc.IsOf table u m ∧ m.WellTyped sc) ∧
    fill.OperandsAnnotated (fill.scope table symbols fillSymbols) a.types := by
  have hlow : ∃ units, ((program.lower table (program.annotate table).types).run {}).result =
      .ok units := ⟨_, rfl⟩
  obtain ⟨units, hunits⟩ := hlow
  obtain ⟨htyped, hoperands⟩ := Program.lowered_wellTyped program_checked hunits
  exact ⟨_, units, program_checked, hunits, htyped,
    hoperands decl (.head _) symbols rfl fill (.head _) fillSymbols rfl⟩

end Basket

end MiniJava
