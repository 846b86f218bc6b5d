import MiniJava.Proofs.Emission.Values
import MiniJava.Proofs.Lowering.Types

/-!
# Operands of lowered code

Three-address code may have items of arrays as operands, and items of items' indexes in turn.
Lowering makes little use of this. The value of every expression is in a variable or is a literal or
a class, so that an item is only read into a variable of its own or stored to from such an operand,
and its index is such an operand, too (`Flat`). A call whose parameters are known has an argument
for each.
-/

namespace MiniJava

open Ir Lower

namespace Ir

/-- The operand is not an item. -/
def Operand.isFlat : Operand → Bool
  | .item .. => false
  | .literal .. | .var .. | .cls _ => true

/-- The instruction gives a value from operands that are not items, or reads one item. -/
def Instr.givesFlat : Instr → Bool
  | .value (.item _ i _ _) => i.isFlat
  | .value o | .not o _ | .newArray o _ | .length o => o.isFlat
  | .binary _ l r _ => l.isFlat && r.isFlat
  | .call _ target _ args _ _ => target.isFlat && args.all Operand.isFlat
  | .newObject _ | .getField .. => true
  | .assign .. | .putField .. | .goto _ | .branch .. | .label _ | .ret .. => false

/-- The operands of the instruction are not items, apart from one item that is read or stored to. -/
def Instr.isFlat : Instr → Bool
  | .assign (.item _ i _ _) _ (.value o) => i.isFlat && o.isFlat
  | .assign (.item ..) _ _ => false
  | .assign _ _ rhs => rhs.givesFlat
  | .putField _ o | .branch o _ => o.isFlat
  | .ret _ o => o.all Operand.isFlat
  | .goto _ | .label _ => true
  | i => i.givesFlat

/-- All instructions are flat, and all calls have as many arguments as parameters. -/
def Flat (code : List Instr) : Prop := ∀ i ∈ code, i.isFlat = true ∧ i.arityFits = true

namespace Flat

variable {a b : List Instr} {i : Instr}

theorem nil : Flat [] := List.forall_mem_nil _

theorem append (ha : Flat a) (hb : Flat b) : Flat (a ++ b) := List.forall_mem_append.2 ⟨ha, hb⟩

theorem cons (hi : i.isFlat = true) (harity : i.arityFits = true) (hb : Flat b) : Flat (i :: b) :=
  List.forall_mem_cons.2 ⟨⟨hi, harity⟩, hb⟩

theorem single (hi : i.isFlat = true) (harity : i.arityFits = true) : Flat [i] := nil.cons hi harity

end Flat

end Ir

theorem Lower.Kept.flat {ty : Ty} {rhs : Instr} {c c' : Counters} {o : Operand} {k : List Instr}
    (hk : Kept ty rhs c o c' k) (hrhs : rhs.givesFlat = true) (harity : rhs.arityFits = true) :
    Flat k := by
  obtain ⟨-, -, rfl⟩ := hk
  exact .single hrhs harity

/-! ## Expressions -/

namespace Expr

variable {sc : Scope} {types : TypeMap} {mk : Bool} {c c' : Counters} {code : List Instr}

theorem Lowers.isFlat {e : Expr} {o : Operand} (h : Lowers sc types mk e c o c' code) :
    o.isFlat = true := by
  rcases h.operand with ⟨x, ty, p, rfl⟩ | ⟨v, ty, rfl, -⟩ | ⟨cl, -, rfl⟩ <;> rfl

theorem LowersAll.isFlat {es : List Expr} {os : List Operand}
    (h : LowersAll sc types mk es c os c' code) : os.all Operand.isFlat = true := by
  induction es generalizing c os code with
  | nil =>
    obtain ⟨rfl, -, -⟩ := lowersAll_nil.1 h
    rfl
  | cons e es ih =>
    obtain ⟨a, c₁, k₁, as, k₂, he, hrest, rfl, -⟩ := lowersAll_cons.1 h
    rw [List.all_cons, he.isFlat, ih hrest]
    rfl

theorem LowersAll.flat_of {es : List Expr} {os : List Operand}
    (hes : ∀ e ∈ es, ∀ {c c' code o}, Lowers sc types mk e c o c' code → Flat code)
    (h : LowersAll sc types mk es c os c' code) : Flat code := by
  induction es generalizing c os code with
  | nil =>
    obtain ⟨-, -, rfl⟩ := lowersAll_nil.1 h
    exact .nil
  | cons e es ih =>
    obtain ⟨a, c₁, k₁, as, k₂, he, hrest, -, rfl⟩ := lowersAll_cons.1 h
    rw [List.forall_mem_cons] at hes
    exact (hes.1 he).append (ih hes.2 hrest)

/-- Parameters are known only for a call with as many arguments. -/
theorem length_of_declaredParams {t : Operand} {m : String} {n : Nat} {ps : List Ty}
    (h : declaredParams sc t m n = some ps) : ps.length = n := by
  unfold declaredParams at h
  split at h
  · split at h
    · split at h
      · next hlength =>
        obtain rfl := Option.some.inj h
        rw [List.length_map]
        exact eq_of_beq hlength
      · cases h
    · cases h
  · cases h

theorem arityFits_callInstr (sc : Scope) (t : Operand) (m : String) (as : List Operand) (ty : Ty) :
    (callInstr sc t m as ty).arityFits = true := by
  rw [callInstr_eq]
  cases hps : declaredParams sc t m as.length with
  | none => rfl
  | some ps => exact beq_iff_eq.2 (length_of_declaredParams hps)

theorem givesFlat_callInstr {t : Operand} {as : List Operand} (ht : t.isFlat = true)
    (has : as.all Operand.isFlat = true) (sc : Scope) (m : String) (ty : Ty) :
    (callInstr sc t m as ty).givesFlat = true := by
  rw [callInstr_eq, Instr.givesFlat, ht, has]
  rfl

/-- **Expressions.** By induction on the expression: the operands of its last instruction are those
of its parts. -/
theorem Lowers.flat {e : Expr} {o : Operand} (h : Lowers sc types mk e c o c' code) :
    Flat code := by
  induction e using Expr.induction generalizing c o c' code with
  | int n v =>
    obtain ⟨-, -, rfl⟩ := lowers_int.1 h
    exact .nil
  | bool n v =>
    obtain ⟨-, -, rfl⟩ := lowers_bool.1 h
    exact .nil
  | this n =>
    obtain ⟨-, -, rfl⟩ := lowers_this.1 h
    exact .nil
  | var n x =>
    rcases lowers_var.1 h with ⟨s, -, hk⟩ | ⟨b, -, -, -, -, rfl⟩ | ⟨-, -, -, -, rfl⟩
    · exact hk.flat rfl rfl
    · exact .nil
    · exact .nil
  | not n e ih =>
    obtain ⟨a, c₁, k₁, k₂, he, hk, rfl⟩ := lowers_not.1 h
    exact (ih he).append (hk.flat he.isFlat rfl)
  | binary n op l r ihl ihr =>
    obtain ⟨ty, a, c₁, k₁, b, c₂, k₂, k₃, -, hl, hr, hk, rfl⟩ := lowers_binary.1 h
    have hflat : (Instr.binary op a b ty).givesFlat = true := by
      rw [Instr.givesFlat, hl.isFlat, hr.isFlat]
      rfl
    exact (ihl hl).append ((ihr hr).append (hk.flat hflat rfl))
  | call n r m args ihr ihargs =>
    obtain ⟨ty, as, c₁, k₁, t, c₂, k₂, k₃, -, -, hargs, hr, hk, rfl⟩ := lowers_call.1 h
    -- What a call is given is what its arguments were lowered to, one operand for each.
    have hkept := hk.flat (givesFlat_callInstr hr.isFlat hargs.isFlat ..) (arityFits_callInstr ..)
    exact (LowersAll.flat_of ihargs hargs).append ((ihr hr).append hkept)
  | newObject n cl =>
    obtain ⟨k, hk, rfl⟩ := lowers_newObject.1 h
    rw [hk.operand]
    exact (hk.flat rfl rfl).append (.single rfl rfl)
  | newArray n e ih =>
    obtain ⟨ty, a, c₁, k₁, k₂, -, he, hk, rfl⟩ := lowers_newArray.1 h
    exact (ih he).append (hk.flat he.isFlat rfl)
  | length n a ih =>
    obtain ⟨b, c₁, k₁, k₂, ha, hk, rfl⟩ := lowers_length.1 h
    exact (ih ha).append (hk.flat ha.isFlat rfl)
  | index n a i iha ihi =>
    obtain ⟨ty, x, t, p, c₁, k₁, j, c₂, k₂, k₃, -, ha, hi, hk, rfl⟩ := lowers_index.1 h
    exact (iha ha).append ((ihi hi).append (hk.flat hi.isFlat rfl))
  | paren n e ih => exact ih (lowers_paren.1 h)

theorem LowersEffect.flat {e : Expr} (h : LowersEffect sc types e c c' code) : Flat code := by
  induction e using Expr.induction with
  | paren n e ih => exact ih (lowersEffect_paren.1 h)
  | call n r m args =>
    obtain ⟨as, c₁, k₁, t, k₂, hargs, hr, rfl⟩ := lowersEffect_call.1 h
    have hcall :=
      givesFlat_callInstr hr.isFlat hargs.isFlat sc m.node ((types.get? n.id).getD .void)
    exact (LowersAll.flat_of (fun _ _ _ _ _ _ => Lowers.flat) hargs).append
      (hr.flat.append (.single hcall (arityFits_callInstr ..)))
  | _ =>
    obtain ⟨o, he⟩ := (lowersEffect_plain (by simp [IsPlain])).1 h
    exact he.flat

end Expr

/-! ## Statements -/

namespace Stmt

variable {sc : Scope} {types : TypeMap} {c c' : Counters} {code : List Instr}

theorem LowersAll.flat_of {ss : List Stmt}
    (hss : ∀ s ∈ ss, ∀ {c c' : Counters} {code : List Instr},
      Lowers sc types s c c' code → Flat code)
    (h : LowersAll sc types ss c c' code) : Flat code := by
  induction ss generalizing c code with
  | nil =>
    obtain ⟨-, rfl⟩ := lowersAll_nil.1 h
    exact .nil
  | cons s ss ih =>
    obtain ⟨c₁, k₁, k₂, hs, hrest, rfl⟩ := lowersAll_cons.1 h
    rw [List.forall_mem_cons] at hss
    exact (hss.1 hs).append (ih hss.2 hrest)

theorem flat_joinJump (n : Nat) (e : Stmt) : Flat (joinJump n e) := by
  unfold joinJump
  split
  · exact .nil
  · exact .single rfl rfl

theorem flat_joinLabel (n : Nat) (t e : Stmt) : Flat (joinLabel n t e) := by
  unfold joinLabel
  split
  · exact .nil
  · exact .single rfl rfl

/-- **Statements.** Only an assignment to an item stores to one. -/
theorem Lowers.flat {s : Stmt} (h : Lowers sc types s c c' code) : Flat code := by
  induction s using Stmt.induction generalizing c c' code with
  | varDecl sp d =>
    obtain ⟨-, rfl⟩ := lowers_varDecl.1 h
    exact .nil
  | block sp body ih => exact (lowers_block.1 h).flat_of ih
  | ifThen sp cond t ih =>
    obtain ⟨o, c₁, k₁, k₂, hcond, ht, rfl⟩ := lowers_ifThen.1 h
    have hthen := (ih ht).append (.single (i := .label (endifLabel c.labels)) rfl rfl)
    exact hcond.flat.append (.cons hcond.isFlat rfl (.cons rfl rfl (.cons rfl rfl hthen)))
  | ifElse sp cond t e iht ihe =>
    obtain ⟨o, c₁, k₁, c₂, k₂, k₃, hcond, he, ht, rfl⟩ := lowers_ifElse.1 h
    have hthen : Flat (.label (thenLabel c.labels) :: (k₃ ++ joinLabel c.labels t e)) :=
      .cons rfl rfl ((iht ht).append (flat_joinLabel c.labels t e))
    have helse := (ihe he).append ((flat_joinJump c.labels e).append hthen)
    exact hcond.flat.append (.cons hcond.isFlat rfl helse)
  | whileLoop sp cond b ih =>
    obtain ⟨o, c₁, k₁, k₂, hcond, hb, rfl⟩ := lowers_whileLoop.1 h
    have hagain : Flat [Instr.goto (condLabel c.labels), .label (endLabel c.labels)] :=
      .cons rfl rfl (.single rfl rfl)
    have hbody := (ih hb).append hagain
    exact .cons rfl rfl (hcond.flat.append (.cons hcond.isFlat rfl (.cons rfl rfl
      (.cons rfl rfl hbody))))
  | expr sp e => exact (lowers_expr.1 h).flat
  | assign sp x v =>
    obtain ⟨b, o, k, -, hv, hstore⟩ := lowers_assign.1 h
    rcases hstore with ⟨s, -, rfl⟩ | ⟨-, rfl⟩
    · exact hv.flat.append (.single hv.isFlat rfl)
    · obtain ⟨p, hp⟩ := @Expr.varOperand_eq true x.node b
      -- The value is in an operand already, so nothing is computed in the assignment.
      have hcopy : (Instr.value o).givesFlat = true := by
        rcases hv.operand with ⟨y, ty, q, rfl⟩ | ⟨w, ty, rfl, -⟩ | ⟨cl, -, rfl⟩ <;> rfl
      rw [hp]
      exact hv.flat.append (.single hcopy rfl)
  | arrayAssign sp x i v =>
    obtain ⟨b, ty, y, t, p, c₁, k₁, j, c₂, k₂, o, k₃, -, -, hbase, hi, hv, rfl⟩ :=
      lowers_arrayAssign.1 h
    have hstore : (Instr.assign (.item y j ty p) ty (.value o)).isFlat = true := by
      rw [Instr.isFlat, hi.isFlat, hv.isFlat]
      rfl
    exact hbase.flat.append (hi.flat.append (hv.flat.append (.single hstore rfl)))
  | ret sp v =>
    cases v with
    | none =>
      obtain ⟨-, rfl⟩ := lowers_ret_none.1 h
      exact .single rfl rfl
    | some v =>
      obtain ⟨o, k, hv, rfl⟩ := lowers_ret_some.1 h
      exact hv.flat.append (.single hv.isFlat rfl)

end Stmt

/-! ## Methods -/

theorem MethodDecl.LowersTo.flat {table : SymbolTable} {types : TypeMap} {cls : ClassSymbols}
    {d : MethodDecl} {m : Method} (h : d.LowersTo table types cls m) : Flat m.code := by
  obtain ⟨c, c', events, hrun⟩ := h
  obtain ⟨method, body, -, hbody, hcode, -, -⟩ := lower_ok hrun
  have hfinal : Flat d.finalReturn := by
    unfold finalReturn
    split
    · exact .single rfl rfl
    · exact .nil
  rw [hcode]
  exact (hbody.flat_of fun s _ _ _ _ => Stmt.Lowers.flat).append hfinal

theorem Ir.Method.flat_defaultConstructor (cls : String) :
    Flat (Method.defaultConstructor cls).code :=
  .cons rfl rfl (.single rfl rfl)

end MiniJava
