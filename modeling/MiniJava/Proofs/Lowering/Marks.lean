import MiniJava.Proofs.Lowering.Lowerer
import MiniJava.Proofs.Lowering.Provenance
import MiniJava.Proofs.Lowering.SingleAssignment

/-!
# Marks of parameters

An operand that stands for a parameter shows its ordinal, except in code that comes from a `return`.
A mark is set where a name is looked up, and an item has it from its array. So what has to be seen
is that the look-up gives the right ordinal (`Ir.Method.marks_of_resolve`), and that neither `this`
nor a temporary could have one. That the code keeps to it follows from the names in the program
(`MethodDecl.LowersTo.marksParameters`).

A lowerer that comes from a fault inside a `return` marks the next class like any other
(`Lowerer.lowerEach_marksParameters`).
-/

namespace MiniJava

open Ir

/-! ## Ordinals -/

namespace Ir.Method

/-- No local has the name, and `k` is the place of the first parameter that has it, counted from
one. -/
def IsOrdinal (m : Method) (x : String) (k : Nat) : Prop :=
  x ∉ m.locals.map Symbol.name ∧ x ∈ m.params.map Symbol.name ∧
    k = (m.params.map Symbol.name).idxOf x + 1

/-- The mark is the ordinal of the name, if it has one. -/
def Marks (m : Method) (x : String) (mark : Option Nat) : Prop :=
  ∀ k, mark = some k ↔ m.IsOrdinal x k

/-- No parameter or local has a name that code has a use of its own for. -/
def LeavesNames (m : Method) : Prop :=
  ∀ v ∈ m.params ++ m.locals, v.name ≠ "this" ∧ isTemporary v.name = false

variable {m : Method} {x : String}

theorem marks_none (h : x ∈ m.locals.map Symbol.name ∨ x ∉ m.params.map Symbol.name) :
    m.Marks x none := by
  intro k
  constructor
  · intro hk
    cases hk
  · rintro ⟨hlocal, hparam, -⟩
    rcases h with h | h
    · exact absurd h hlocal
    · exact absurd hparam h

theorem marks_some (hlocal : x ∉ m.locals.map Symbol.name) (hparam : x ∈ m.params.map Symbol.name) :
    m.Marks x (some ((m.params.map Symbol.name).idxOf x + 1)) := by
  intro k
  constructor
  · intro hk
    exact ⟨hlocal, hparam, (Option.some.inj hk).symm⟩
  · rintro ⟨-, -, rfl⟩
    rfl

theorem LeavesNames.marks (h : m.LeavesNames) (hx : x = "this" ∨ isTemporary x = true) :
    m.Marks x none := by
  apply marks_none
  right
  intro hparam
  obtain ⟨v, hv, rfl⟩ := List.mem_map.1 hparam
  obtain ⟨hthis, htemp⟩ := h v (List.mem_append_left _ hv)
  rcases hx with hx | hx
  · exact hthis hx
  · rw [htemp] at hx
    cases hx

end Ir.Method

/-- The first parameter of a name is found with its ordinal. -/
theorem ClassSymbols.mark_findParam (x : String) (ps : List Symbol) (n : Nat) :
    (findParam x ps n).bind (fun b => (Expr.varOperand true x b).mark?) =
      if x ∈ ps.map Symbol.name then some ((ps.map Symbol.name).idxOf x + n) else none := by
  induction ps generalizing n with
  | nil => rfl
  | cons p ps ih =>
    rw [findParam, List.map_cons]
    by_cases hp : p.name = x
    · subst hp
      simp [Expr.varOperand, Operand.mark?]
    · have hp' : x ≠ p.name := Ne.symm hp
      simp only [beq_iff_eq, hp, if_false, ih, List.mem_cons, hp', false_or,
        List.idxOf_cons_ne _ hp, Nat.succ_add, Nat.add_succ]

/-- Shadowing is respected: a local has no mark, and neither has a field. -/
theorem Ir.Method.marks_of_resolve {m : Method} {sc : Scope} (hparams : m.params = sc.method.params)
    (hlocals : m.locals = sc.method.locals) {x : String} {b : Binding} (h : sc.resolve x = some b) :
    m.Marks x (Expr.varOperand true x b).mark? := by
  have hmark := ClassSymbols.mark_findParam x sc.method.params 1
  rw [Scope.resolve, ClassSymbols.resolve] at h
  -- A local hides a parameter of its name, and takes the mark away with it.
  cases hlocal : sc.method.locals.find? (·.name == x) with
  | some s =>
    rw [hlocal] at h
    obtain rfl : Binding.loc s = b := Option.some.inj h
    apply marks_none
    left
    rw [hlocals]
    have hname : s.name = x := by simpa using List.find?_some hlocal
    exact List.mem_map.2 ⟨s, List.mem_of_find?_eq_some hlocal, hname⟩
  | none =>
    have hfree : x ∉ m.locals.map Symbol.name := by
      rw [hlocals]
      simpa using hlocal
    rw [hlocal] at h
    cases hparam : ClassSymbols.findParam x sc.method.params 1 with
    | some b' =>
      rw [hparam] at h hmark
      obtain rfl : b' = b := Option.some.inj h
      rw [← hparams, Option.bind_some] at hmark
      by_cases hx : x ∈ m.params.map Symbol.name
      · rw [hmark, if_pos hx]
        exact marks_some hfree hx
      · rw [hmark, if_neg hx]
        exact marks_none (.inr hx)
    | none =>
      rw [hparam] at h hmark
      -- What is neither local nor parameter is a field, whose operand has no mark.
      obtain ⟨s, -, rfl⟩ := Option.map_eq_some_iff.1 h
      have hx : x ∉ m.params.map Symbol.name := by
        intro hx
        rw [← hparams, if_pos hx] at hmark
        cases hmark
      exact marks_none (.inr hx)

/-! ## Code -/

namespace Ir.Policy

/-- Parameters of the method show their ordinals. -/
def marked (m : Method) : Policy where
  vars := m.Marks
  fields := True

/-- Nothing is marked. -/
def unmarked : Policy where
  vars _ mark := mark = none
  fields := True

theorem allowsName_marked {m : Method} {sc : Scope} (hparams : m.params = sc.method.params)
    (hlocals : m.locals = sc.method.locals) (x : String) : (marked m).AllowsName sc true x :=
  fun _ hb => ⟨Method.marks_of_resolve hparams hlocals hb, fun _ => trivial⟩

theorem allowsName_unmarked (sc : Scope) (x : String) : unmarked.AllowsName sc false x := by
  intro b hb
  refine ⟨?_, fun _ => trivial⟩
  cases b <;> rfl

end Ir.Policy

section

variable {π ρ : Policy} {sc : Scope}

/-- An expression has no names but those of variables and `this`. -/
theorem Expr.permitted_of_names {mk : Bool} (hname : ∀ x, π.AllowsName sc mk x)
    (hthis : π.vars "this" none) (e : Expr) : e.Permitted π sc mk := by
  intro d _
  cases d with
  | var n x => exact hname x
  | this n => exact hthis
  | _ => trivial

theorem Stmt.permitted_of_names (hname : ∀ x, π.AllowsName sc true x) (hthis : π.vars "this" none)
    (hreturn : ∀ x, ρ.AllowsName sc false x) (hreturnThis : ρ.vars "this" none) (s : Stmt) :
    s.Permitted π ρ sc := by
  have hexpr : ∀ e : Expr, e.Permitted π sc true := Expr.permitted_of_names hname hthis
  induction s using Stmt.induction with
  | varDecl => exact .varDecl
  | block sp body ih => exact .block ih
  | ifThen sp c t ih => exact .ifThen (hexpr c) ih
  | ifElse sp c t e iht ihe => exact .ifElse (hexpr c) iht ihe
  | whileLoop sp c b ih => exact .whileLoop (hexpr c) ih
  | expr sp e => exact .expr (hexpr e)
  | assign sp x v => exact .assign (hname x.node) (hexpr v)
  | arrayAssign sp x i v => exact .arrayAssign (hname x.node) (hexpr i) (hexpr v)
  | ret sp v => cases v with
    | none => exact .ret
    | some v => exact .retValue (Expr.permitted_of_names hreturn hreturnThis v)

end

namespace MethodDecl

variable {table : SymbolTable} {types : TypeMap} {cls : ClassSymbols} {d : MethodDecl} {m : Method}

/-- The code of the method comes from its statements in such a way that no operand in code of a
`return` is marked, and elsewhere an operand is marked with `k` exactly if `k` is the ordinal of its
name. -/
def MarksParameters (table : SymbolTable) (types : TypeMap) (cls : ClassSymbols) (d : MethodDecl)
    (m : Method) : Prop :=
  ∃ traced, d.TracesTo table types cls m traced ∧
    ∀ s i, (s, i) ∈ traced → ∀ o ∈ i.occurrences, ∀ x, o.name? = some x →
      if s.isReturn then o.mark? = none else ∀ k, o.mark? = some k ↔ m.IsOrdinal x k

/-- **Methods.** All marks are exact where the method leaves the names of code alone. -/
theorem LowersTo.marksParameters (h : d.LowersTo table types cls m) (hnames : m.LeavesNames) :
    d.MarksParameters table types cls m := by
  obtain ⟨traced, htraced⟩ := h.traced
  refine ⟨traced, htraced, ?_⟩
  have hbody : ∀ method, cls.method? d.name.node = some method → ∀ s ∈ d.body,
      s.Permitted (Policy.marked m) Policy.unmarked (d.scope table cls method) := by
    intro method hmethod s _
    obtain ⟨hparams, hlocals⟩ := h.variables hmethod
    exact Stmt.permitted_of_names (Policy.allowsName_marked hparams hlocals)
      (hnames.marks (.inl rfl)) (Policy.allowsName_unmarked _) rfl s
  have hobeys := htraced.obeys (fun k => hnames.marks (.inr (isTemporary_tempName k)))
    (fun _ => rfl) hbody
  intro s i hi o ho x hx
  have hmark := (hobeys (s, i) hi).occurrences ho hx
  by_cases hs : s.isReturn = true
  · rw [if_pos hs] at hmark ⊢
    exact hmark
  · rw [if_neg hs] at hmark ⊢
    exact hmark

end MethodDecl

/-! ## Classes and sessions -/

section

variable {table : SymbolTable} {types : TypeMap}

/-- All marks are exact in the methods of the unit, which are those of the declaration in order. -/
def ClassDecl.MarksParameters (table : SymbolTable) (types : TypeMap) (d : ClassDecl)
    (u : ClassUnit) :
    Prop :=
  ∃ cls ms, table.class? d.name.node = some cls ∧
    u.methods = ms ++ [Method.defaultConstructor u.name] ∧
    List.Forall₂ (fun md m => m.LeavesNames → md.MarksParameters table types cls m) d.methods ms

theorem ClassDecl.marksParameters {d : ClassDecl} {imports : List String} {u : ClassUnit}
    {c c' : Counters} {events : List Event}
    (h : (d.lower table types imports).run c = ⟨.ok u, c', events⟩) :
    d.MarksParameters table types u := by
  obtain ⟨cls, ms, events', hcls, -, hmethods, hms⟩ := lower_run h
  refine ⟨cls, ms, hcls, hmethods, ?_⟩
  apply (Stage.forall₂_of_mapM' hms).imp
  intro md m hrun hnames
  exact MethodDecl.LowersTo.marksParameters hrun hnames

namespace Lowerer

variable {l : Lowerer} {c : Counters}

/-- **Sessions.** By induction on the classes: a lowerer is idle again after each of them, so the
next one is not taken for a part of a `return`. -/
theorem lowerEach_marksParameters (jobs : List Job) (h : Idle l c) :
    List.Forall₂ (fun j r => ∀ u, r = .ok u → j.decl.MarksParameters table types u) jobs
      (lowerEach table types jobs l).results := by
  induction jobs generalizing l c with
  | nil => exact .nil
  | cons j jobs ih =>
    obtain ⟨hresult, hidle⟩ := lowerClass_of_idle table types h j.imports j.decl
    refine .cons ?_ (ih hidle)
    intro u hu
    obtain ⟨c', events, hrun⟩ := Stage.run_of_result (hresult.symm.trans hu)
    exact ClassDecl.marksParameters hrun

end Lowerer

end

end MiniJava
