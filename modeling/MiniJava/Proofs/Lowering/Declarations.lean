import MiniJava.Proofs.Annotation.Recorded
import MiniJava.Proofs.Compilation
import MiniJava.Proofs.Lowering.Composition
import MiniJava.Proofs.SideBySide
import MiniJava.Proofs.Symbols

/-!
# Methods and their declarations

A method gets its name, its modifiers and the type in its heading from its declaration. Its
parameters and locals, and the type of its returns, come from the symbol table, which is asked by
the name of the class and the name of the method. The table of a program has an entry for every
declaration, in order, and a name leads to the first of them. Nothing refuses a second class or a
second method of the same name; it is annotated and lowered against the symbols of the first.

**Theorem** (`lowered_describes_iff`). In an accepted and lowered program a method is the one that
its declaration describes exactly if the declaration that its names lead to has the same parameters
and locals, and the same return type or nothing to return. Where names are different, that is so for
all.
-/

namespace MiniJava

open Ir Lower

/-! ## Return statements -/

namespace Stmt

mutual

/-- There is a `return` in the statement or in one nested in it. -/
def hasReturn : Stmt → Bool
  | ret .. => true
  | block _ body => hasReturnAny body
  | ifThen _ _ t => t.hasReturn
  | ifElse _ _ t e => t.hasReturn || e.hasReturn
  | whileLoop _ _ b => b.hasReturn
  | varDecl .. | expr .. | assign .. | arrayAssign .. => false

def hasReturnAny : List Stmt → Bool
  | [] => false
  | s :: ss => s.hasReturn || hasReturnAny ss

end

end Stmt

namespace Ir

/-- The type that a return carries. -/
def Instr.returnTy? : Instr → Option Ty
  | .ret ty _ => some ty
  | _ => none

/-- The types of the returns in code, in order. -/
def returnTypes (code : List Instr) : List Ty := code.filterMap Instr.returnTy?

theorem mem_returnTypes {code : List Instr} {ty : Ty} :
    ty ∈ returnTypes code ↔ ∃ o, Instr.ret ty o ∈ code := by
  rw [returnTypes, List.mem_filterMap]
  constructor
  · rintro ⟨i, hi, hty⟩
    cases i with
    | ret t o =>
      cases hty
      exact ⟨o, hi⟩
    | _ => cases hty
  · rintro ⟨o, ho⟩
    exact ⟨_, ho, rfl⟩

@[simp] theorem returnTypes_nil : returnTypes [] = [] := rfl

@[simp] theorem returnTypes_append (a b : List Instr) :
    returnTypes (a ++ b) = returnTypes a ++ returnTypes b :=
  List.filterMap_append

@[simp] theorem returnTypes_cons (i : Instr) (code : List Instr) :
    returnTypes (i :: code) = i.returnTy?.toList ++ returnTypes code := by
  rw [returnTypes, List.filterMap_cons]
  cases i.returnTy? <;> rfl

end Ir

theorem returnTypes_composable : Composable fun _ _ code => returnTypes code = [] where
  nil _ := rfl
  append h₁ h₂ := by rw [returnTypes_append, h₁, h₂]; rfl
  kept h _ := by rw [h.written]; rfl
  call _ _ _ _ _ _ _ := rfl

namespace Stmt

variable {sc : Scope} {types : TypeMap} {c c' : Counters} {code : List Instr}

theorem returnTypes_joinJump (n : Nat) (e : Stmt) : returnTypes (joinJump n e) = [] := by
  unfold joinJump
  split <;> rfl

theorem returnTypes_joinLabel (n : Nat) (t e : Stmt) : returnTypes (joinLabel n t e) = [] := by
  unfold joinLabel
  split <;> rfl

theorem LowersAll.mem_returnTypes_of {ss : List Stmt} {ty : Ty}
    (hss : ∀ s ∈ ss, ∀ {c c' code}, Lowers sc types s c c' code →
      (ty ∈ returnTypes code ↔ s.hasReturn = true ∧ ty = sc.method.returnTy))
    (h : LowersAll sc types ss c c' code) :
    ty ∈ returnTypes code ↔ hasReturnAny ss = true ∧ ty = sc.method.returnTy := by
  induction ss generalizing c code with
  | nil =>
    obtain ⟨-, rfl⟩ := lowersAll_nil.1 h
    simp [hasReturnAny]
  | cons s ss ih =>
    obtain ⟨c₁, k₁, k₂, hs, hrest, rfl⟩ := lowersAll_cons.1 h
    rw [List.forall_mem_cons] at hss
    rw [returnTypes_append, List.mem_append, hss.1 hs, ih hss.2 hrest, hasReturnAny,
      Bool.or_eq_true]
    tauto

/-- The returns in the code of a statement are its `return`s, with the return type of the scope. -/
theorem Lowers.mem_returnTypes {s : Stmt} {ty : Ty} (h : Lowers sc types s c c' code) :
    ty ∈ returnTypes code ↔ s.hasReturn = true ∧ ty = sc.method.returnTy := by
  -- Code of expressions has no returns, so what counts are the parts that are statements.
  induction s using Stmt.induction generalizing c c' code with
  | varDecl sp d =>
    obtain ⟨-, rfl⟩ := lowers_varDecl.1 h
    simp [hasReturn]
  | block sp body ih =>
    rw [hasReturn]
    exact LowersAll.mem_returnTypes_of (fun s hs _ _ _ hl => ih s hs hl) (lowers_block.1 h)
  | ifThen sp cond t ih =>
    obtain ⟨o, c₁, k₁, k₂, hcond, ht, rfl⟩ := lowers_ifThen.1 h
    simpa [hasReturn, hcond.composed returnTypes_composable, Instr.returnTy?] using ih ht
  | ifElse sp cond t e iht ihe =>
    obtain ⟨o, c₁, k₁, c₂, k₂, k₃, hcond, he, ht, rfl⟩ := lowers_ifElse.1 h
    simp only [hasReturn, hcond.composed returnTypes_composable, returnTypes_append,
      returnTypes_cons, Instr.returnTy?, returnTypes_joinJump, returnTypes_joinLabel,
      Option.toList_none, List.nil_append, List.append_nil, List.mem_append, iht ht, ihe he,
      Bool.or_eq_true]
    tauto
  | whileLoop sp cond b ih =>
    obtain ⟨o, c₁, k₁, k₂, hcond, hb, rfl⟩ := lowers_whileLoop.1 h
    simpa [hasReturn, hcond.composed returnTypes_composable, Instr.returnTy?] using ih hb
  | expr sp e =>
    have he := (lowers_expr.1 h).composed returnTypes_composable
    simp [he, hasReturn]
  | assign sp x v =>
    obtain ⟨b, o, k, -, hv, hstore⟩ := lowers_assign.1 h
    have hk := hv.composed returnTypes_composable
    rcases hstore with ⟨s, -, rfl⟩ | ⟨-, rfl⟩
    · simp [hasReturn, hk, Instr.returnTy?]
    · simp [hasReturn, hk, Instr.returnTy?]
  | arrayAssign sp x i v =>
    obtain ⟨b, ety, y, t, p, c₁, k₁, j, c₂, k₂, o, k₃, -, -, hx, hi, hv, rfl⟩ :=
      lowers_arrayAssign.1 h
    simp [hasReturn, hx.composed returnTypes_composable, hi.composed returnTypes_composable,
      hv.composed returnTypes_composable, Instr.returnTy?]
  | ret sp v =>
    cases v with
    | none =>
      obtain ⟨-, rfl⟩ := lowers_ret_none.1 h
      simp [hasReturn, Instr.returnTy?]
    | some v =>
      obtain ⟨o, k, hv, rfl⟩ := lowers_ret_some.1 h
      simp [hasReturn, hv.composed returnTypes_composable, Instr.returnTy?]

end Stmt

/-! ## The declaration that a name leads to -/

/-- The declaration that the table gives for a method: the first with its name, in the first class
with the name of its class. -/
def Program.foundFor (p : Program) (d : ClassDecl) (md : MethodDecl) : Option MethodDecl :=
  (p.classes.find? fun e => e.name.node == d.name.node).bind fun e =>
    e.methods.find? fun other => other.name.node == md.name.node

theorem Program.exists_foundFor {p : Program} {d : ClassDecl} {md : MethodDecl} {cls : ClassSymbols}
    {method : MethodSymbols} (hcls : (SymbolTable.ofProgram p).class? d.name.node = some cls)
    (hmethod : cls.method? md.name.node = some method) :
    ∃ first, p.foundFor d md = some first ∧ method = first.symbols := by
  have hclass : (SymbolTable.ofProgram p).class? d.name.node =
      (p.classes.find? fun e => e.name.node == d.name.node).map ClassDecl.symbols :=
    List.find?_map ..
  rw [hclass] at hcls
  obtain ⟨e, he, hsymbols⟩ := Option.map_eq_some_iff.1 hcls
  subst hsymbols
  have hlookup : e.symbols.method? md.name.node =
      (e.methods.find? fun other => other.name.node == md.name.node).map MethodDecl.symbols :=
    List.find?_map ..
  rw [hlookup] at hmethod
  obtain ⟨first, hfirst, hsymbols⟩ := Option.map_eq_some_iff.1 hmethod
  exact ⟨first, by rw [foundFor, he, Option.bind_some, hfirst], hsymbols.symm⟩

/-- Where names are different, a name leads to its own declaration. -/
theorem Program.foundFor_self {p : Program} (hclasses : (p.classes.map fun d => d.name.node).Nodup)
    {d : ClassDecl} (hd : d ∈ p.classes) (hmethods : (d.methods.map fun md => md.name.node).Nodup)
    {md : MethodDecl} (hmd : md ∈ d.methods) : p.foundFor d md = some md := by
  rw [foundFor, find?_key_of_nodup (fun d : ClassDecl => d.name.node) hclasses hd, Option.bind_some]
  exact find?_key_of_nodup (fun md : MethodDecl => md.name.node) hmethods hmd

/-! ## Methods -/

namespace MethodDecl

/-- The method is the one that the declaration describes. -/
structure Describes (d : MethodDecl) (m : Method) : Prop where
  params : m.params = d.params.map VarDecl.symbol
  locals : m.locals = Stmt.declaredAll d.body
  returnTy : m.returnTy = d.returnTy.node
  returns : ∀ ty o, Instr.ret ty o ∈ m.code → ty = d.returnTy.node

/-- The symbols of `first` do for the other declaration too: parameters and locals are the same, and
unless it has no `return`, the type to return. -/
structure StandsFor (first d : MethodDecl) : Prop where
  params : first.params.map VarDecl.symbol = d.params.map VarDecl.symbol
  locals : Stmt.declaredAll first.body = Stmt.declaredAll d.body
  returnTy : Stmt.hasReturnAny d.body = true → first.returnTy.node = d.returnTy.node

theorem standsFor_self (d : MethodDecl) : d.StandsFor d := ⟨rfl, rfl, fun _ => rfl⟩

theorem eq_of_mem_returnTypes_finalReturn {d : MethodDecl} {ty : Ty}
    (h : ty ∈ returnTypes d.finalReturn) : ty = d.returnTy.node := by
  unfold finalReturn at h
  split at h
  · next hvoid =>
    simp only [Bool.and_eq_true, beq_iff_eq] at hvoid
    simpa [Instr.returnTy?, hvoid.1] using h
  · cases h

theorem LowersTo.describes_iff {table : SymbolTable} {types : TypeMap} {cls : ClassSymbols}
    {d first : MethodDecl} {m : Method} (h : d.LowersTo table types cls m)
    (hmethod : cls.method? d.name.node = some first.symbols) :
    d.Describes m ↔ first.StandsFor d := by
  obtain ⟨c, c', events, hrun⟩ := h
  obtain ⟨method, body, hmethod', hbody, rfl⟩ := lower_eq hrun
  obtain rfl : first.symbols = method := Option.some.inj (hmethod.symm.trans hmethod')
  have hreturns : ∀ ty, ty ∈ returnTypes body ↔
      Stmt.hasReturnAny d.body = true ∧ ty = first.returnTy.node :=
    fun ty => Stmt.LowersAll.mem_returnTypes_of (fun s _ _ _ _ hs => hs.mem_returnTypes) hbody
  constructor
  · intro hd
    refine ⟨hd.params, hd.locals, fun hreturn => ?_⟩
    obtain ⟨o, ho⟩ := mem_returnTypes.1 ((hreturns _).2 ⟨hreturn, rfl⟩)
    exact hd.returns _ o (List.mem_append_left _ ho)
  · intro hfirst
    refine ⟨hfirst.params, hfirst.locals, rfl, fun ty o ho => ?_⟩
    rcases List.mem_append.1 ho with ho | ho
    · obtain ⟨hreturn, hty⟩ := (hreturns ty).1 (mem_returnTypes.2 ⟨o, ho⟩)
      exact hty.trans (hfirst.returnTy hreturn)
    · exact eq_of_mem_returnTypes_finalReturn (mem_returnTypes.2 ⟨o, ho⟩)

end MethodDecl

/-! ## Programs -/

namespace Program

/-- The units are those of the classes in order, and in each of them stand, in order, methods that
are related to the declarations of the class, and behind them the constructor. -/
def Methodwise (p : Program) (units : List ClassUnit)
    (R : ClassDecl → MethodDecl → Method → Prop) : Prop :=
  List.Forall₂ (fun d u => ∃ ms, u.methods = ms ++ [Method.defaultConstructor u.name] ∧
    List.Forall₂ (R d) d.methods ms) p.classes units

variable {p : Program} {table : SymbolTable} {units : List ClassUnit}

theorem Methodwise.mono {R Q : ClassDecl → MethodDecl → Method → Prop} (h : p.Methodwise units R)
    (himp : ∀ d ∈ p.classes, ∀ md ∈ d.methods, ∀ m, R d md m → Q d md m) :
    p.Methodwise units Q := by
  refine forall₂_imp_mem h fun d hd u _ hu => ?_
  obtain ⟨ms, hms, hrel⟩ := hu
  exact ⟨ms, hms, forall₂_imp_mem hrel fun md hmd m _ hm => himp d hd md hmd m hm⟩

/-- A program is lowered exactly if it passes the check and lowering by the types found ends
well. -/
theorem lowered_ok_iff : p.lowered table = .ok units ↔
    ∃ a, p.checked table = .ok a ∧ ((p.lower table a.types).run {}).result = .ok units := by
  cases h : p.checked table with
  | ok a =>
    rw [lowered_eq h]
    cases hrun : ((p.lower table a.types).run {}).result <;> simp [Except.mapError, hrun]
  | error e =>
    have hrun : ∃ s out, (p.checkPass table).run () = ⟨.error e, s, out⟩ := by
      rcases hrun : (p.checkPass table).run () with ⟨r, s, out⟩
      rw [checked, hrun] at h
      exact ⟨s, out, by rw [← h]⟩
    obtain ⟨s, out, hrun⟩ := hrun
    rw [lowered, Stage.bind_run_error _ hrun]
    simp

/-- Each method comes from its declaration, by the symbols of the class that its name leads to. -/
theorem methodwise_of_lower {types : TypeMap} {c : Counters}
    (h : ((p.lower table types).run c).result = .ok units) :
    p.Methodwise units fun d md m => ∃ cls, table.class? d.name.node = some cls ∧
      md.LowersTo table types cls m := by
  obtain ⟨c', events, hrun⟩ := Stage.run_of_result h
  rw [lower, ClassDecl.lowerAll_eq_mapM'] at hrun
  refine (Stage.forall₂_of_mapM' hrun).imp fun d u hu => ?_
  obtain ⟨c₁, c₂, events₁, hclass⟩ := hu
  obtain ⟨cls, ms, events₂, hcls, -, hmethods, hms⟩ := ClassDecl.lower_run hclass
  exact ⟨ms, hmethods, (Stage.forall₂_of_mapM' hms).imp fun md m hm => ⟨cls, hcls, hm⟩⟩

/-- **When methods are compiled against their own declarations.** If a program is accepted with its
own table and lowered, then each of its methods is the one that its declaration describes exactly if
the declaration that its names lead to stands for it; so all are, if the class names are different
and in each class the method names. -/
theorem lowered_describes_iff (h : p.lowered (.ofProgram p) = .ok units) :
    p.Methodwise units (fun d md m => ∃ first, p.foundFor d md = some first ∧
      (md.Describes m ↔ first.StandsFor md)) ∧
    ((p.classes.map fun d => d.name.node).Nodup →
      (∀ d ∈ p.classes, (d.methods.map fun md => md.name.node).Nodup) →
      p.Methodwise units fun _ md m => md.Describes m) := by
  obtain ⟨a, -, hlow⟩ := lowered_ok_iff.1 h
  have hiff : p.Methodwise units (fun d md m => ∃ first, p.foundFor d md = some first ∧
      (md.Describes m ↔ first.StandsFor md)) := by
    refine (methodwise_of_lower hlow).mono fun d _ md _ m hm => ?_
    obtain ⟨cls, hcls, hto⟩ := hm
    obtain ⟨method, hmethod⟩ := hto.exists_method
    obtain ⟨first, hfirst, rfl⟩ := exists_foundFor hcls hmethod
    exact ⟨first, hfirst, hto.describes_iff hmethod⟩
  refine ⟨hiff, fun hclasses hmethods => hiff.mono fun d hd md hmd m hm => ?_⟩
  obtain ⟨first, hfirst, hdescribes⟩ := hm
  rw [foundFor_self hclasses hd (hmethods d hd) hmd] at hfirst
  cases hfirst
  exact hdescribes.2 md.standsFor_self

end Program

/-! Two methods of one name. The second is accepted and lowered as if it were declared like the
first, with a parameter that it does not have. -/

namespace Twin

/-- `int pick(int a) { return a; }`. -/
def pickNumber : MethodDecl where
  name := { node := "pick" }
  returnTy := { node := .int }
  params := [{ name := { node := "a" }, ty := { node := .int } }]
  body := [.ret .unknown (some (.var { id := 0 } "a"))]

/-- `int pick(boolean b) { return 1; }`. -/
def pickTruth : MethodDecl where
  name := { node := "pick" }
  returnTy := { node := .int }
  params := [{ name := { node := "b" }, ty := { node := .bool } }]
  body := [.ret .unknown (some (.int { id := 1 } 1))]

def twin : ClassDecl where
  name := { node := "Twin" }
  methods := [pickNumber, pickTruth]

def program : Program where
  classes := [twin]

theorem second_not_described : ∃ units, program.lowered (.ofProgram program) = .ok units ∧
    ∃ u ∈ units, ∃ m, u.methods[1]? = some m ∧ m.params = pickNumber.params.map VarDecl.symbol ∧
      ¬pickTruth.Describes m := by
  have hchecked : program.checked (.ofProgram program) =
      .ok (program.annotate (.ofProgram program)) :=
    Program.checked_ok_iff.2 ⟨Program.uniqueIds_iff_nodup.2 (by decide), rfl⟩
  have hlow : ∃ u m, program.lowered (.ofProgram program) = .ok [u] ∧ u.methods[1]? = some m ∧
      m.params = pickNumber.params.map VarDecl.symbol :=
    ⟨_, _, Program.lowered_ok_iff.2 ⟨_, hchecked, rfl⟩, rfl, rfl⟩
  obtain ⟨u, m, hunits, hm, hparams⟩ := hlow
  refine ⟨[u], hunits, u, List.mem_singleton_self u, m, hm, hparams, fun hdescribes => ?_⟩
  obtain ⟨ms, hmethods, hpair⟩ := (List.forall₂_cons.1 (Program.lowered_describes_iff hunits).1).1
  obtain ⟨m₁, rest, -, hrest, rfl⟩ := List.forall₂_cons_left_iff.1 hpair
  obtain ⟨m₂, rest, hsecond, -, rfl⟩ := List.forall₂_cons_left_iff.1 hrest
  obtain rfl : m₂ = m := by
    rw [hmethods] at hm
    simpa using hm
  obtain ⟨first, hfirst, hiff⟩ := hsecond
  obtain rfl : pickNumber = first := Option.some.inj hfirst
  exact absurd (hiff.1 hdescribes).params (by decide)

end Twin

end MiniJava
