import MiniJava.Proofs.Lowering.Types

/-!
# Calls of lowered code

The calls that a method body makes are written one after the other in the order in which they are
made: the arguments of a call come before its receiver, and the call itself is last (`Expr.calls`).
Lowering turns each of them into one call of the code and makes no others, constructors apart
(`MethodDecl.LowersTo.traces`). So what holds for the calls of the code is what holds for the calls
of the source, one by one.
-/

namespace MiniJava

open Ir Lower

/-! ## Calls in code -/

namespace Ir

/-- A call: of what kind it is, where it goes, with which operands, with which parameter types if
the signature is known, and which type it gives. -/
structure Call where
  kind : CallKind
  target : Operand
  method : String
  args : List Operand
  params : Option (List Ty)
  ty : Ty

/-- The call that gives the value of an instruction, constructors apart. -/
def Instr.asCall? : Instr → Option Call
  | .call .special .. => none
  | .call kind target method args params ty => some ⟨kind, target, method, args, params, ty⟩
  | _ => none

/-- The call that an instruction makes, whether its value is stored or not. -/
def Instr.made? : Instr → Option Call
  | .assign _ _ rhs => rhs.asCall?
  | i => i.asCall?

/-- The instruction that makes the call and leaves its value. -/
def Call.instr (call : Call) : Instr :=
  .call call.kind call.target call.method call.args call.params call.ty

theorem Instr.eq_of_asCall? {i : Instr} {call : Call} (h : i.asCall? = some call) :
    i = call.instr := by
  cases i with
  | call kind => cases kind <;> cases h <;> rfl
  | _ => cases h

theorem Instr.cases_of_made? {i : Instr} {call : Call} (h : i.made? = some call) :
    i = call.instr ∨ ∃ dest ty, i = .assign dest ty call.instr := by
  cases i with
  | assign dest ty rhs => exact .inr ⟨dest, ty, by rw [eq_of_asCall? h]⟩
  | _ => exact .inl (eq_of_asCall? h)

/-- The calls that the code makes, in order. -/
def calls (code : List Instr) : List Call := code.filterMap Instr.made?

@[simp] theorem calls_nil : calls [] = [] := rfl

@[simp] theorem calls_append (a b : List Instr) : calls (a ++ b) = calls a ++ calls b :=
  List.filterMap_append

theorem calls_cons {i : Instr} (hi : i.made? = none) (code : List Instr) :
    calls (i :: code) = calls code := by
  rw [calls, List.filterMap_cons, hi, calls]

/-- A call in a scope, with the operands it is made with. It is static on a class, and a method of
the class being compiled brings its parameter types. -/
def Call.of (sc : Scope) (target : Operand) (method : String) (args : List Operand) (ty : Ty) :
    Call where
  kind := if target.isClass then .static else .virtual
  target := target
  method := method
  args := args
  params := Expr.declaredParams sc target method args.length
  ty := ty

theorem asCall?_callInstr (sc : Scope) (t : Operand) (m : String) (as : List Operand) (ty : Ty) :
    (Expr.callInstr sc t m as ty).asCall? = some (.of sc t m as ty) := by
  cases t <;> rfl

theorem made?_callInstr (sc : Scope) (t : Operand) (m : String) (as : List Operand) (ty : Ty) :
    (Expr.callInstr sc t m as ty).made? = some (.of sc t m as ty) := by
  cases t <;> rfl

end Ir

section

variable {ty : Ty} {rhs : Instr} {c c' : Counters} {o : Operand} {code : List Instr}

theorem Lower.Kept.calls_eq_nil (h : Kept ty rhs c o c' code) (hrhs : rhs.asCall? = none) :
    Ir.calls code = [] := by
  rw [h.written, Ir.calls_cons (by simpa [Instr.made?] using hrhs), Ir.calls_nil]

theorem Lower.Kept.calls_eq {call : Call} (h : Kept ty rhs c o c' code)
    (hrhs : rhs.asCall? = some call) : Ir.calls code = [call] := by
  rw [h.written]
  simp [Ir.calls, Instr.made?, hrhs]

end

/-! ## Calls in programs -/

namespace Expr

mutual

/-- The calls in an expression, in the order in which they are made. -/
def calls : Expr → List Expr
  | int .. | bool .. | var .. | this .. | newObject .. => []
  | not _ e | newArray _ e | length _ e | paren _ e => e.calls
  | binary _ _ l r => l.calls ++ r.calls
  | index _ a i => a.calls ++ i.calls
  | call n r m args => callsAll args ++ (r.calls ++ [call n r m args])

def callsAll : List Expr → List Expr
  | [] => []
  | e :: es => e.calls ++ callsAll es

end

theorem callsAll_eq_flatMap (es : List Expr) : callsAll es = es.flatMap calls := by
  induction es with
  | nil => rfl
  | cons e es ih => rw [callsAll, ih, List.flatMap_cons]

end Expr

namespace Stmt

mutual

/-- The calls in a statement, in the order in which they are written: the `else` branch comes
first. -/
def calls : Stmt → List Expr
  | varDecl .. => []
  | block _ body => callsAll body
  | ifThen _ c t => c.calls ++ t.calls
  | ifElse _ c t e => c.calls ++ (e.calls ++ t.calls)
  | whileLoop _ c b => c.calls ++ b.calls
  | expr _ e => e.calls
  | assign _ _ v => v.calls
  | arrayAssign _ _ i v => i.calls ++ v.calls
  | ret _ none => []
  | ret _ (some v) => v.calls

def callsAll : List Stmt → List Expr
  | [] => []
  | s :: ss => s.calls ++ callsAll ss

end

end Stmt

/-- The call of the code is the one that the expression was lowered to. -/
def Expr.Makes (sc : Scope) (types : TypeMap) (e : Expr) (call : Call) : Prop :=
  ∃ n r m args mk as t c c₁ c₂ k₁ k₂, e = .call n r m args ∧
    LowersAll sc types mk args c as c₁ k₁ ∧ Lowers sc types mk r c₁ t c₂ k₂ ∧
    call = .of sc t m.node as ((types.get? n.id).getD .void)

/-- The code makes the calls of the source given, in this order, and no others. -/
def Traces (sc : Scope) (types : TypeMap) (es : List Expr) (code : List Instr) : Prop :=
  List.Forall₂ (Expr.Makes sc types) es (Ir.calls code)

namespace Traces

variable {sc : Scope} {types : TypeMap} {es es' : List Expr} {k k' : List Instr}

theorem nil (h : Ir.calls k = []) : Traces sc types [] k := by
  rw [Traces, h]
  exact .nil

theorem append (h : Traces sc types es k) (h' : Traces sc types es' k') :
    Traces sc types (es ++ es') (k ++ k') := by
  rw [Traces, Ir.calls_append]
  exact List.rel_append h h'

/-- Code without calls behind. -/
theorem behind (h : Traces sc types es k) (h' : Ir.calls k' = []) :
    Traces sc types es (k ++ k') := by
  rw [Traces, Ir.calls_append, h', List.append_nil]
  exact h

/-- Code without calls in front. -/
theorem after (h : Traces sc types es k) (h' : Ir.calls k' = []) :
    Traces sc types es (k' ++ k) := by
  rw [Traces, Ir.calls_append, h', List.nil_append]
  exact h

theorem cons (h : Traces sc types es k) {i : Instr} (hi : i.made? = none) :
    Traces sc types es (i :: k) := by
  rw [Traces, Ir.calls_cons hi]
  exact h

/-- One call behind others. -/
theorem snoc {e : Expr} {call : Call} (h : Traces sc types es k) (he : e.Makes sc types call)
    (h' : Ir.calls k' = [call]) : Traces sc types (es ++ [e]) (k ++ k') := by
  refine h.append ?_
  rw [Traces, h']
  exact .cons he .nil

/-- Every call of the code comes from one of the source. -/
theorem exists_source (h : Traces sc types es k) {call : Call} (hcall : call ∈ Ir.calls k) :
    ∃ e ∈ es, e.Makes sc types call := by
  rw [Traces] at h
  generalize Ir.calls k = made at h hcall
  induction h with
  | nil => cases hcall
  | @cons e call' es calls he _ ih =>
    rcases List.mem_cons.1 hcall with rfl | hcall
    · exact ⟨e, List.mem_cons_self .., he⟩
    · obtain ⟨e', he', hmakes⟩ := ih hcall
      exact ⟨e', List.mem_cons_of_mem _ he', hmakes⟩

/-- Every call of the source is one of the code. -/
theorem exists_call (h : Traces sc types es k) {e : Expr} (he : e ∈ es) :
    ∃ call ∈ Ir.calls k, e.Makes sc types call := by
  rw [Traces] at h
  generalize Ir.calls k = made at h ⊢
  induction h with
  | nil => cases he
  | @cons e' call es calls he' _ ih =>
    rcases List.mem_cons.1 he with rfl | he
    · exact ⟨call, List.mem_cons_self .., he'⟩
    · obtain ⟨call', hcall', hmakes⟩ := ih he
      exact ⟨call', List.mem_cons_of_mem _ hcall', hmakes⟩

end Traces

/-! ## Lowering makes the calls of the source -/

namespace Expr

variable {sc : Scope} {types : TypeMap} {mk : Bool} {e : Expr} {c c' : Counters} {o : Operand}
  {code : List Instr}

theorem LowersAll.traces_of {es : List Expr} {os : List Operand}
    (hes : ∀ e ∈ es, ∀ {c c' o code}, Lowers sc types mk e c o c' code →
      Traces sc types e.calls code)
    (h : LowersAll sc types mk es c os c' code) : Traces sc types (callsAll es) code := by
  induction es generalizing c os code with
  | nil =>
    obtain ⟨-, -, rfl⟩ := lowersAll_nil.1 h
    exact .nil rfl
  | cons e es ih =>
    obtain ⟨a, c₁, k₁, as, k₂, he, hrest, -, rfl⟩ := lowersAll_cons.1 h
    obtain ⟨hhead, htail⟩ := List.forall_mem_cons.1 hes
    exact (hhead he).append (ih htail hrest)

theorem Lowers.traces (h : Lowers sc types mk e c o c' code) : Traces sc types e.calls code := by
  induction e using Expr.induction generalizing c o c' code with
  | int n v =>
    obtain ⟨-, -, rfl⟩ := lowers_int.1 h
    exact .nil rfl
  | bool n v =>
    obtain ⟨-, -, rfl⟩ := lowers_bool.1 h
    exact .nil rfl
  | this n =>
    obtain ⟨-, -, rfl⟩ := lowers_this.1 h
    exact .nil rfl
  | var n x =>
    rcases lowers_var.1 h with ⟨s, -, hk⟩ | ⟨b, -, -, -, -, rfl⟩ | ⟨-, -, -, -, rfl⟩
    · exact .nil (hk.calls_eq_nil rfl)
    · exact .nil rfl
    · exact .nil rfl
  | not n e ih =>
    obtain ⟨a, c₁, k₁, k₂, he, hk, rfl⟩ := lowers_not.1 h
    exact (ih he).behind (hk.calls_eq_nil rfl)
  | binary n op l r ihl ihr =>
    obtain ⟨ty, a, c₁, k₁, b, c₂, k₂, k₃, -, hl, hr, hk, rfl⟩ := lowers_binary.1 h
    exact (ihl hl).append ((ihr hr).behind (hk.calls_eq_nil rfl))
  | call n r m args ihr ihargs =>
    obtain ⟨ty, as, c₁, k₁, t, c₂, k₂, k₃, hty, -, hargs, hr, hk, rfl⟩ := lowers_call.1 h
    -- The arguments' calls come first, then those of the receiver, then the call itself.
    have hmakes : (call n r m args).Makes sc types (.of sc t m.node as ty) :=
      ⟨n, r, m, args, mk, as, t, c, c₁, c₂, k₁, k₂, rfl, hargs, hr, by rw [hty]; rfl⟩
    exact (hargs.traces_of fun a ha _ _ _ _ hlow => ihargs a ha hlow).append
      ((ihr hr).snoc hmakes (hk.calls_eq (asCall?_callInstr ..)))
  | newObject n cl =>
    obtain ⟨k, hk, rfl⟩ := lowers_newObject.1 h
    exact (Traces.nil (hk.calls_eq_nil rfl)).behind rfl
  | newArray n e ih =>
    obtain ⟨ty, a, c₁, k₁, k₂, -, he, hk, rfl⟩ := lowers_newArray.1 h
    exact (ih he).behind (hk.calls_eq_nil rfl)
  | length n a ih =>
    obtain ⟨b, c₁, k₁, k₂, ha, hk, rfl⟩ := lowers_length.1 h
    exact (ih ha).behind (hk.calls_eq_nil rfl)
  | index n a i iha ihi =>
    obtain ⟨ty, x, t, p, c₁, k₁, j, c₂, k₂, k₃, -, ha, hi, hk, rfl⟩ := lowers_index.1 h
    exact (iha ha).append ((ihi hi).behind (hk.calls_eq_nil rfl))
  | paren n e ih => exact ih (lowers_paren.1 h)

theorem LowersAll.traces {es : List Expr} {os : List Operand}
    (h : LowersAll sc types mk es c os c' code) : Traces sc types (callsAll es) code :=
  traces_of (fun _ _ _ _ _ _ he => he.traces) h

/-- The value of a call that is made for its effects is not stored. -/
theorem LowersEffect.traces (h : LowersEffect sc types e c c' code) :
    Traces sc types e.calls code := by
  induction e using Expr.induction with
  | paren n e ih => exact ih (lowersEffect_paren.1 h)
  | call n r m args =>
    obtain ⟨as, c₁, k₁, t, k₂, hargs, hr, rfl⟩ := lowersEffect_call.1 h
    have hmakes : (call n r m args).Makes sc types
        (.of sc t m.node as ((types.get? n.id).getD .void)) :=
      ⟨n, r, m, args, true, as, t, c, c₁, c', k₁, k₂, rfl, hargs, hr, rfl⟩
    refine hargs.traces.append (hr.traces.snoc hmakes ?_)
    rw [Ir.calls, List.filterMap_cons, made?_callInstr]
    rfl
  | _ =>
    obtain ⟨o, hlow⟩ := (lowersEffect_plain (by simp [IsPlain])).1 h
    exact hlow.traces

end Expr

namespace Stmt

variable {sc : Scope} {types : TypeMap} {s : Stmt} {c c' : Counters} {code : List Instr}

theorem calls_joinJump (n : Nat) (e : Stmt) : Ir.calls (joinJump n e) = [] := by
  rw [joinJump]
  split <;> rfl

theorem calls_joinLabel (n : Nat) (t e : Stmt) : Ir.calls (joinLabel n t e) = [] := by
  rw [joinLabel]
  split <;> rfl

theorem LowersAll.traces_of {ss : List Stmt}
    (hss : ∀ s ∈ ss, ∀ {c c' code}, Lowers sc types s c c' code → Traces sc types s.calls code)
    (h : LowersAll sc types ss c c' code) : Traces sc types (callsAll ss) code := by
  induction ss generalizing c code with
  | nil =>
    obtain ⟨-, rfl⟩ := lowersAll_nil.1 h
    exact .nil rfl
  | cons s ss ih =>
    obtain ⟨c₁, k₁, k₂, hs, hrest, rfl⟩ := lowersAll_cons.1 h
    obtain ⟨hhead, htail⟩ := List.forall_mem_cons.1 hss
    exact (hhead hs).append (ih htail hrest)

theorem Lowers.traces (h : Lowers sc types s c c' code) : Traces sc types s.calls code := by
  induction s using Stmt.induction generalizing c c' code with
  | varDecl sp d =>
    obtain ⟨-, rfl⟩ := lowers_varDecl.1 h
    exact .nil rfl
  | block sp body ih => exact LowersAll.traces_of ih (lowers_block.1 h)
  | ifThen sp cond t ih =>
    obtain ⟨o, c₁, k₁, k₂, hc, ht, rfl⟩ := lowers_ifThen.1 h
    exact hc.traces.append (((((ih ht).behind rfl).cons rfl).cons rfl).cons rfl)
  | ifElse sp cond t e iht ihe =>
    obtain ⟨o, c₁, k₁, c₂, k₂, k₃, hc, he, ht, rfl⟩ := lowers_ifElse.1 h
    have hthen : Traces sc types t.calls
        (.label (thenLabel c.labels) :: (k₃ ++ joinLabel c.labels t e)) :=
      ((iht ht).behind (calls_joinLabel c.labels t e)).cons rfl
    exact hc.traces.append (((ihe he).append (hthen.after (calls_joinJump c.labels e))).cons rfl)
  | whileLoop sp cond b ih =>
    obtain ⟨o, c₁, k₁, k₂, hc, hb, rfl⟩ := lowers_whileLoop.1 h
    exact (hc.traces.append (((((ih hb).behind rfl).cons rfl).cons rfl).cons rfl)).cons rfl
  | expr sp e => exact (lowers_expr.1 h).traces
  | assign sp x v =>
    obtain ⟨b, o, k, -, hv, ⟨s, -, rfl⟩ | ⟨-, rfl⟩⟩ := lowers_assign.1 h
    · exact hv.traces.behind rfl
    · exact hv.traces.behind rfl
  | arrayAssign sp x i v =>
    obtain ⟨b, ty, y, t, p, c₁, k₁, j, c₂, k₂, o, k₃, -, -, hx, hi, hv, rfl⟩ :=
      lowers_arrayAssign.1 h
    exact hx.traces.append (hi.traces.append (hv.traces.behind rfl))
  | ret sp v =>
    cases v with
    | none =>
      obtain ⟨-, rfl⟩ := lowers_ret_none.1 h
      exact .nil rfl
    | some v =>
      obtain ⟨o, k, hv, rfl⟩ := lowers_ret_some.1 h
      exact hv.traces.behind rfl

theorem LowersAll.traces {ss : List Stmt} (h : LowersAll sc types ss c c' code) :
    Traces sc types (callsAll ss) code :=
  traces_of (fun _ _ _ _ _ hs => hs.traces) h

end Stmt

/-! ## Calls of accepted programs -/

namespace Expr

variable {sc : Scope} {H : Nat → Ty → Prop} {e : Expr}

theorem hold_children (h : Hold H (e.annotate sc).notes) :
    ∀ d ∈ e.children, Hold H (d.annotate sc).notes := by
  cases e with
  | paren n e =>
    rw [annotate, Noted.notes_bind, hold_append] at h
    exact List.forall_mem_singleton.2 h.1
  | _ =>
    intro d hd
    refine (placed_children h ?_ d hd).notes
    intro n inner heq
    cases heq

/-- A call in an expression is the expression itself or stands in a part of it. -/
theorem cases_of_mem_calls {d : Expr} (h : d ∈ e.calls) :
    d = e ∨ ∃ child ∈ e.children, d ∈ child.calls := by
  cases e with
  | int | bool | var | this | newObject => cases h
  | not n e | newArray n e | length n e | paren n e => exact .inr ⟨e, .head _, h⟩
  | binary n op a b | index n a b =>
    rcases List.mem_append.1 h with h | h
    · exact .inr ⟨a, .head _, h⟩
    · exact .inr ⟨b, .tail _ (.head _), h⟩
  | call n r m args =>
    rw [calls, callsAll_eq_flatMap, List.mem_append, List.mem_append, List.mem_flatMap,
      List.mem_singleton] at h
    rcases h with ⟨a, ha, h⟩ | h | h
    · exact .inr ⟨a, List.mem_cons_of_mem _ ha, h⟩
    · exact .inr ⟨r, .head _, h⟩
    · exact .inl h

/-- With the notes on an expression those on its calls hold. -/
theorem hold_calls (h : Hold H (e.annotate sc).notes) :
    ∀ d ∈ e.calls, Hold H (d.annotate sc).notes := by
  induction e using Expr.induction_children with
  | step e ih =>
    intro d hd
    rcases cases_of_mem_calls hd with rfl | ⟨child, hchild, hd⟩
    · exact h
    · exact ih child hchild (hold_children h child hchild) d hd

end Expr

namespace Stmt

open MiniJava.Expr

variable {sc : Scope} {H : Nat → Ty → Prop} {s : Stmt}

theorem callsAll_eq_flatMap (ss : List Stmt) : callsAll ss = ss.flatMap calls := by
  induction ss with
  | nil => rfl
  | cons s ss ih => rw [callsAll, ih, List.flatMap_cons]

theorem hold_calls (h : Hold H (s.annotate sc).notes) :
    ∀ d ∈ s.calls, Hold H (d.annotate sc).notes := by
  induction s using Stmt.induction with
  | varDecl sp d => exact List.forall_mem_nil _
  | block sp body ih =>
    rw [annotate] at h
    rw [calls, callsAll_eq_flatMap]
    intro d hd
    obtain ⟨s, hs, hd⟩ := List.mem_flatMap.1 hd
    exact ih s hs (hold_of_annotateAll h s hs) d hd
  | ifThen sp c t ih | whileLoop sp c t ih =>
    rw [annotate, Noted.notes_bind, hold_append] at h
    exact List.forall_mem_append.2 ⟨Expr.hold_calls (placed_condition h.1).notes, ih h.2⟩
  | ifElse sp c t e iht ihe =>
    simp only [annotate, Noted.notes_bind, hold_append] at h
    exact List.forall_mem_append.2 ⟨Expr.hold_calls (placed_condition h.1).notes,
      List.forall_mem_append.2 ⟨ihe h.2.2, iht h.2.1⟩⟩
  | expr sp e => exact Expr.hold_calls (hold_of_effect h)
  | assign sp x v =>
    obtain ⟨b, -, hv⟩ := placed_assignment h
    exact Expr.hold_calls hv.notes
  | arrayAssign sp x i v =>
    obtain ⟨b, element, -, -, hi, hv⟩ := placed_elementAssignment h
    exact List.forall_mem_append.2 ⟨Expr.hold_calls hi.notes, Expr.hold_calls hv.notes⟩
  | ret sp v =>
    cases v with
    | none => exact List.forall_mem_nil _
    | some v => exact Expr.hold_calls (placed_returned h).2.notes

theorem hold_callsAll {ss : List Stmt} (h : Hold H (annotateAll sc ss).notes) :
    ∀ d ∈ callsAll ss, Hold H (d.annotate sc).notes := by
  rw [callsAll_eq_flatMap]
  intro d hd
  obtain ⟨s, hs, hd⟩ := List.mem_flatMap.1 hd
  exact hold_calls (hold_of_annotateAll h s hs) d hd

end Stmt

/-- The code of a method makes the calls of its body. -/
theorem MethodDecl.LowersTo.traces {table : SymbolTable} {types : TypeMap} {cls : ClassSymbols}
    {method : MethodSymbols} {d : MethodDecl} {m : Method} (h : d.LowersTo table types cls m)
    (hmethod : cls.method? d.name.node = some method) :
    Traces (d.scope table cls method) types (Stmt.callsAll d.body) m.code := by
  obtain ⟨c, c', events, hrun⟩ := h
  obtain ⟨method', body, hmethod', hlow, hcode, -, -⟩ := lower_ok hrun
  obtain rfl : method = method' := Option.some.inj (hmethod.symm.trans hmethod')
  have hfinal : Ir.calls d.finalReturn = [] := by
    rw [finalReturn]
    split <;> rfl
  rw [hcode]
  exact hlow.traces.behind hfinal

namespace ClassDecl

variable {table : SymbolTable} {types : TypeMap} {cls : ClassSymbols} {d : ClassDecl}
  {u : ClassUnit}

/-- Every call in the code of a class comes from one in the body of a method. The constructor calls
only a constructor. -/
theorem LowersTo.exists_source (h : d.LowersTo table types u)
    (hcls : table.class? d.name.node = some cls) {m : Method} (hm : m ∈ u.methods) {call : Call}
    (hcall : call ∈ Ir.calls m.code) :
    ∃ caller ∈ d.methods, ∃ method, cls.method? caller.name.node = some method ∧
      ∃ e ∈ Stmt.callsAll caller.body, e.Makes (caller.scope table cls method) types call := by
  obtain ⟨cls', ms, hcls', -, hmethods, -, hfrom⟩ := h
  obtain rfl : cls = cls' := Option.some.inj (hcls.symm.trans hcls')
  rw [hmethods, List.mem_append, List.mem_singleton] at hm
  rcases hm with hm | rfl
  · obtain ⟨caller, hcaller, hto⟩ := hfrom m hm
    obtain ⟨method, hmethod⟩ := hto.exists_method
    exact ⟨caller, hcaller, method, hmethod, (hto.traces hmethod).exists_source hcall⟩
  · cases hcall

/-- Every call in the body of a method is made in the code of the class. -/
theorem LowersTo.exists_call (h : d.LowersTo table types u)
    (hcls : table.class? d.name.node = some cls) {caller : MethodDecl}
    (hcaller : caller ∈ d.methods) {method : MethodSymbols}
    (hmethod : cls.method? caller.name.node = some method) {e : Expr}
    (he : e ∈ Stmt.callsAll caller.body) :
    ∃ m ∈ u.methods, ∃ call ∈ Ir.calls m.code, e.Makes
      (caller.scope table cls method) types call := by
  obtain ⟨cls', ms, hcls', -, hmethods, hto, -⟩ := h
  obtain rfl : cls = cls' := Option.some.inj (hcls.symm.trans hcls')
  obtain ⟨m, hm, hlow⟩ := hto caller hcaller
  refine ⟨m, ?_, (hlow.traces hmethod).exists_call he⟩
  rw [hmethods]
  exact List.mem_append_left _ hm

end ClassDecl

end MiniJava
