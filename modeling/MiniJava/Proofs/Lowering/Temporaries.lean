import MiniJava.Proofs.Ir.Registers
import MiniJava.Proofs.Lowering.Types

/-!
# Temporaries and variables

Temporaries are named by a counter that runs through the whole program, `tmp0`, `tmp1` and so on,
and nothing keeps a program from using the same names for its variables. A method declares both in
one table of registers, in which a name has one entry. So a variable with the name of a temporary
that is handed out for its method shares the register of the temporary and is overwritten with it.

**Theorem** (`MethodDecl.temporaries_captured_iff`). The temporaries that a method writes are those
that were handed out while it was lowered. One of them captures a variable exactly if the variable
is called `tmp` with one of the numbers handed out, and all others have registers of their own.
-/

namespace MiniJava

open Ir Lower

/-! ## Temporaries in code -/

/-- The temporary that an instruction stores in. A copy is stored by the program itself. -/
def Ir.Instr.temporary? : Instr → Option String
  | .assign (.var x _ _) _ rhs => if rhs.isCopy then none else some x
  | _ => none

/-- The temporaries that the code stores in, in order. -/
def Ir.temporaries (code : List Instr) : List String := code.filterMap Instr.temporary?

@[simp] theorem Ir.temporaries_append (a b : List Instr) :
    temporaries (a ++ b) = temporaries a ++ temporaries b :=
  List.filterMap_append

namespace Counters

/-- The temporaries handed out between two states of the counters. -/
def handedOut (c c' : Counters) : List String :=
  (List.range' c.temps (c'.temps - c.temps)).map tempName

variable {c c₁ c₂ : Counters}

@[simp] theorem handedOut_self : c.handedOut c = [] := by simp [handedOut]

theorem handedOut_append (h₁ : c.temps ≤ c₁.temps) (h₂ : c₁.temps ≤ c₂.temps) :
    c.handedOut c₁ ++ c₁.handedOut c₂ = c.handedOut c₂ := by
  have hsplit : c.temps + (c₁.temps - c.temps) = c₁.temps := by omega
  have hlength : c₁.temps - c.temps + (c₂.temps - c₁.temps) = c₂.temps - c.temps := by omega
  have hrange := @List.range'_append_1 c.temps (c₁.temps - c.temps) (c₂.temps - c₁.temps)
  rw [hsplit, hlength] at hrange
  rw [handedOut, handedOut, handedOut, ← List.map_append, hrange]

theorem mem_handedOut {x : String} :
    x ∈ c.handedOut c₁ ↔ ∃ k, c.temps ≤ k ∧ k < c₁.temps ∧ x = tempName k := by
  simp only [handedOut, List.mem_map, List.mem_range'_1]
  constructor
  · rintro ⟨k, hk, rfl⟩
    exact ⟨k, hk.1, by omega, rfl⟩
  · rintro ⟨k, hlo, hhi, rfl⟩
    exact ⟨k, ⟨hlo, by omega⟩, rfl⟩

end Counters

/-- The code stores in the temporaries that were handed out for it, each once and in order. -/
structure Takes (c c' : Counters) (code : List Instr) : Prop where
  temps : c.temps ≤ c'.temps
  taken : temporaries code = c.handedOut c'

namespace Takes

variable {c c₁ c₂ : Counters} {k₁ k₂ : List Instr} {i : Instr}

theorem refl (c : Counters) : Takes c c [] := ⟨Nat.le_refl _, by simp [temporaries]⟩

theorem trans (h₁ : Takes c c₁ k₁) (h₂ : Takes c₁ c₂ k₂) : Takes c c₂ (k₁ ++ k₂) where
  temps := Nat.le_trans h₁.temps h₂.temps
  taken := by rw [temporaries_append, h₁.taken, h₂.taken, c.handedOut_append h₁.temps h₂.temps]

theorem instr (hi : i.temporary? = none) : Takes c c [i] :=
  ⟨Nat.le_refl _, by simp [temporaries, hi]⟩

theorem cons (hi : i.temporary? = none) (h : Takes c c₁ k₁) : Takes c c₁ (i :: k₁) :=
  (instr hi).trans h

theorem snoc (h : Takes c c₁ k₁) (hi : i.temporary? = none) : Takes c c₁ (k₁ ++ [i]) :=
  h.trans (instr hi)

theorem composable : Composable Takes where
  nil := refl
  append := trans
  kept := by
    rintro ty rhs c o c' k ⟨-, rfl, rfl⟩ hcopy
    refine ⟨Nat.le_succ _, ?_⟩
    simp [temporaries, Instr.temporary?, Operand.plain, hcopy, Counters.handedOut,
      Counters.nextTemp]
  call := fun _ _ _ _ _ _ _ => instr rfl

end Takes

/-! ## Code of statements -/

namespace Stmt

variable {sc : Scope} {types : TypeMap} {c c' : Counters} {code : List Instr}

theorem LowersAll.takes {ss : List Stmt}
    (hss : ∀ s ∈ ss, ∀ {c c' : Counters} {code : List Instr}, Lowers sc types s c c' code →
      Takes c c' code)
    (h : LowersAll sc types ss c c' code) : Takes c c' code := by
  induction ss generalizing c code with
  | nil =>
    obtain ⟨rfl, rfl⟩ := lowersAll_nil.1 h
    exact .refl _
  | cons s ss ih =>
    obtain ⟨c₁, k₁, k₂, hs, hrest, rfl⟩ := lowersAll_cons.1 h
    rw [List.forall_mem_cons] at hss
    exact (hss.1 hs).trans (ih hss.2 hrest)

theorem takes_joinJump (c : Counters) (n : Nat) (e : Stmt) : Takes c c (joinJump n e) := by
  unfold joinJump
  split
  · exact .refl c
  · exact .instr rfl

theorem takes_joinLabel (c : Counters) (n : Nat) (t e : Stmt) : Takes c c (joinLabel n t e) := by
  unfold joinLabel
  split
  · exact .refl c
  · exact .instr rfl

/-- A condition takes its temporaries after the number of the statement. -/
theorem takes_condition {cond : Expr} {o : Operand}
    (h : Expr.Lowers sc types true cond c.nextLabel o c' code) : Takes c c' code := by
  obtain ⟨htemps, htaken⟩ := h.composed Takes.composable
  exact ⟨htemps, htaken⟩

theorem Lowers.takes {s : Stmt} (h : Lowers sc types s c c' code) : Takes c c' code := by
  induction s using Stmt.induction generalizing c c' code with
  | varDecl sp d =>
    obtain ⟨rfl, rfl⟩ := lowers_varDecl.1 h
    exact .refl _
  | block sp body ih => exact (lowers_block.1 h).takes ih
  | ifThen sp cond t ih =>
    obtain ⟨o, c₁, k₁, k₂, hcond, ht, rfl⟩ := lowers_ifThen.1 h
    exact (takes_condition hcond).trans (.cons rfl (.cons rfl (.cons rfl ((ih ht).snoc rfl))))
  | ifElse sp cond t e iht ihe =>
    obtain ⟨o, c₁, k₁, c₂, k₂, k₃, hcond, he, ht, rfl⟩ := lowers_ifElse.1 h
    have hthen := (iht ht).trans (takes_joinLabel c' c.labels t e)
    have helse := (ihe he).trans (takes_joinJump c₂ c.labels e)
    rw [← List.append_assoc k₂]
    exact (takes_condition hcond).trans (.cons rfl (helse.trans (.cons rfl hthen)))
  | whileLoop sp cond b ih =>
    obtain ⟨o, c₁, k₁, k₂, hcond, hb, rfl⟩ := lowers_whileLoop.1 h
    exact .cons rfl ((takes_condition hcond).trans (.cons rfl (.cons rfl (.cons rfl
      ((ih hb).trans (.cons rfl (.instr rfl)))))))
  | expr sp e => exact (lowers_expr.1 h).composed Takes.composable
  | assign sp x v =>
    obtain ⟨b, o, k, -, hv, hstore⟩ := lowers_assign.1 h
    have hk := hv.composed Takes.composable
    -- An assignment to a variable looks like one to a temporary, but its right side is only copied.
    rcases hstore with ⟨s, -, rfl⟩ | ⟨-, rfl⟩
    · exact hk.snoc rfl
    · refine hk.snoc ?_
      obtain ⟨p, hp⟩ := @Expr.varOperand_eq true x.node b
      rw [hp, Instr.temporary?, hv.isCopy, if_pos rfl]
  | arrayAssign sp x i v =>
    obtain ⟨b, ty, y, t, p, c₁, k₁, j, c₂, k₂, o, k₃, -, -, hbase, hi, hv, rfl⟩ :=
      lowers_arrayAssign.1 h
    exact (hbase.composed Takes.composable).trans ((hi.composed Takes.composable).trans
      ((hv.composed Takes.composable).snoc rfl))
  | ret sp v =>
    cases v with
    | none =>
      obtain ⟨rfl, rfl⟩ := lowers_ret_none.1 h
      exact .instr rfl
    | some v =>
      obtain ⟨o, k, hv, rfl⟩ := lowers_ret_some.1 h
      exact (hv.composed Takes.composable).snoc rfl

end Stmt

/-! ## Methods -/

namespace Ir.Method

/-- The two variables are in one register. -/
def SharesRegister (m : Method) (x y : String) : Prop :=
  ∃ r s, m.registers.get? x = some r ∧ m.registers.get? y = some s ∧ r.index = s.index

variable {m : Method}

theorem exists_register (hfresh : m.frozen = none) {v : Symbol} (hv : v ∈ m.declarations) :
    ∃ r, m.registers.get? v.name = some r := by
  rw [← Option.isSome_iff_exists, registers, hfresh]
  exact (RegisterTable.isSome_get?_ofDeclarations ..).2 (List.mem_map_of_mem hv)

/-- A declared variable shares its register with no other name. -/
theorem sharesRegister_iff (hfresh : m.frozen = none)
    (hnames : (m.declarations.map Symbol.name).toFinset.card ≤ 65536) {v : Symbol} {x : String}
    (hv : v ∈ m.declarations) : m.SharesRegister x v.name ↔ x = v.name := by
  constructor
  · rintro ⟨r, s, hr, hs, hindex⟩
    exact (registered_of_fresh hfresh hnames).sound.index_inj hr hs hindex
  · rintro rfl
    obtain ⟨r, hr⟩ := exists_register hfresh hv
    exact ⟨r, r, hr, hr, rfl⟩

end Ir.Method

namespace MethodDecl

variable {table : SymbolTable} {types : TypeMap} {cls : ClassSymbols} {d : MethodDecl} {m : Method}
  {c c' : Counters} {events : List Event}

/-- The temporaries of a method are those handed out while it was lowered. -/
theorem temporaries_of_lower (h : (d.lower table types cls).run c = ⟨.ok m, c', events⟩) :
    temporaries m.code = c.handedOut c' := by
  obtain ⟨method, body, -, hbody, hcode, -, -⟩ := lower_ok h
  have htaken := (hbody.takes fun s _ => Stmt.Lowers.takes).taken
  have hfinal : temporaries d.finalReturn = [] := by
    unfold finalReturn
    split <;> rfl
  rw [hcode, temporaries_append, hfinal, List.append_nil, htaken]

/-- **Temporaries and declared variables.** The temporaries that a lowered method writes are those
handed out for it. A parameter or local has the name of one of them exactly if it is called `tmp`
with a number handed out for the method. A temporary shares a register with a parameter or local
exactly if it has its name, as long as there are registers for all names. -/
theorem temporaries_captured_iff (h : (d.lower table types cls).run c = ⟨.ok m, c', events⟩) :
    temporaries m.code = c.handedOut c' ∧
      (∀ v ∈ m.params ++ m.locals, v.name ∈ temporaries m.code ↔
        ∃ k, c.temps ≤ k ∧ k < c'.temps ∧ v.name = tempName k) ∧
      ((m.declarations.map Symbol.name).toFinset.card ≤ 65536 →
        ∀ x ∈ temporaries m.code, ∀ v ∈ m.params ++ m.locals,
          m.SharesRegister x v.name ↔ x = v.name) := by
  have htaken := temporaries_of_lower h
  refine ⟨htaken, fun v _ => ?_, fun hnames x _ v hv => ?_⟩
  · rw [htaken, Counters.mem_handedOut]
  · obtain ⟨-, -, -, -, hfresh⟩ := lower_heading h
    have hdeclared : v ∈ m.declarations := by
      rw [Method.declarations, List.append_assoc _ m.params]
      exact List.mem_append_left _ (List.mem_append_right _ hv)
    exact Method.sharesRegister_iff hfresh hnames hdeclared

end MethodDecl

/-! A parameter that is called as the first temporary: `(tmp0 + 1) + tmp0`. -/

namespace Scale

def weigh : MethodDecl where
  name := { node := "weigh" }
  params := [{ name := { node := "tmp0" }, ty := { node := .int } }]
  returnTy := { node := .int }
  body :=
    [.ret .unknown (some (.binary { id := 0 } .add
      (.binary { id := 1 } .add (.var { id := 2 } "tmp0") (.int { id := 3 } 1))
      (.var { id := 4 } "tmp0")))]

def weighSymbols : MethodSymbols where
  name := "weigh"
  returnTy := .int
  params := [⟨"tmp0", .int⟩]

def symbols : ClassSymbols where
  name := "Scale"
  methods := [weighSymbols]

def table : SymbolTable where
  classes := [symbols]

def decl : ClassDecl where
  name := { node := "Scale" }
  methods := [weigh]

def program : Program where
  classes := [decl]

theorem tmp0_captured : ∃ a m c' events, program.checked table = .ok a ∧
    (weigh.lower table a.types symbols).run {} = ⟨.ok m, c', events⟩ ∧
    "tmp0" ∈ temporaries m.code ∧ (⟨"tmp0", .int⟩ : Symbol) ∈ m.params ++ m.locals ∧
    m.SharesRegister "tmp0" "tmp0" := by
  have hchecked : program.checked table = .ok (program.annotate table) :=
    Program.checked_ok_iff.2 ⟨Program.uniqueIds_iff_nodup.2 (by decide), rfl⟩
  have hrun : ∃ m events, (weigh.lower table (program.annotate table).types symbols).run {} =
      ⟨.ok m, ⟨2, 0⟩, events⟩ ∧ m.params = [⟨"tmp0", .int⟩] ∧ m.declarations.length ≤ 65536 :=
    ⟨_, _, rfl, rfl, by decide⟩
  obtain ⟨m, events, hlow, hparams, hlength⟩ := hrun
  obtain ⟨-, hnames, hregisters⟩ := MethodDecl.temporaries_captured_iff hlow
  have hmem : (⟨"tmp0", .int⟩ : Symbol) ∈ m.params ++ m.locals := by simp [hparams]
  have htemp : "tmp0" ∈ temporaries m.code :=
    (hnames ⟨"tmp0", .int⟩ hmem).2 ⟨0, Nat.le_refl 0, by decide, rfl⟩
  have hcard : (m.declarations.map Symbol.name).toFinset.card ≤ 65536 :=
    Nat.le_trans (List.toFinset_card_le _) (by simpa using hlength)
  exact ⟨_, m, _, events, hchecked, hlow, htemp, hmem, (hregisters hcard _ htemp _ hmem).2 rfl⟩

end Scale

end MiniJava
