import MiniJava.Compilation
import MiniJava.Proofs.Lowering.Faults

/-!
# Accepted programs and their compilation

The annotator is meant to report everything that is wrong with a program, so that lowering never
fails. It does not report all: a program may be accepted and yet not be lowered.

**Theorem** (`lowered_iff_not_faulty`). An accepted program is lowered exactly if it is not faulty,
and otherwise the error is one of lowering.
-/

namespace MiniJava

namespace Program

variable {p : Program} {table : SymbolTable} {a : Annotation}

/-- What the check gives, once the ids are known to be unique. -/
theorem checked_eq (hids : p.uniqueIds = true) :
    p.checked table = (p.check table).mapError .semantic := by
  simp only [checked, checkPass, if_pos hids, check]
  cases (p.annotate table).accepted <;> rfl

/-- A program passes the check exactly if its ids are unique and the annotator accepts it. -/
theorem checked_ok_iff : p.checked table = .ok a ↔ p.uniqueIds = true ∧ p.check table = .ok a := by
  by_cases hids : p.uniqueIds = true
  · rw [checked_eq hids]
    cases p.check table <;> simp [Except.mapError, hids]
  · rw [checked, checkPass, if_neg hids]
    simp [hids]

/-- After the check, the program is lowered by the types that were found. -/
theorem lowered_eq (h : p.checked table = .ok a) :
    p.lowered table = ((p.lower table a.types).run {}).result.mapError .lower := by
  rw [checked] at h
  rcases hrun : (p.checkPass table).run () with ⟨e | a', s, events⟩
  · rw [hrun] at h
    cases h
  · rw [hrun] at h
    cases h
    rw [lowered, Stage.bind_run_ok hrun]
    rfl

/-- **Accepted programs do not always lower.** One that passes the check is lowered exactly if no
call without a value stands where a value is used and no item is taken of a class name; else the
error is one of lowering, and not about a missing name. -/
theorem lowered_iff_not_faulty (h : p.checked table = .ok a) :
    ((∃ units, p.lowered table = .ok units) ↔ ¬p.Faulty table a.types) ∧
      ∀ e, p.lowered table = .error e → ∃ fault, e = .lower fault ∧
        fault.isMissingName = false := by
  have hcheck := (checked_ok_iff.1 h).2
  rw [lowered_eq h]
  rcases lower_cases hcheck {} with ⟨units, hok, hfine⟩ | ⟨fault, herror, hfaulty, hname⟩
  · rw [hok]
    exact ⟨⟨fun _ => hfine, fun _ => ⟨units, rfl⟩⟩, nofun⟩
  · rw [herror]
    refine ⟨⟨nofun, fun hfine => absurd hfaulty hfine⟩, ?_⟩
    rintro _ ⟨⟩
    exact ⟨fault, rfl, hname⟩

end Program

/-! A class that prints what a method gives which gives nothing: `io.println(this.rest());`. -/

namespace Printer

def rest : MethodDecl where
  name := { node := "rest" }
  returnTy := { node := .void }

/-- The call whose value is printed. -/
def nothing : Expr := .call { id := 2 } (.this { id := 3 }) { node := "rest" } []

def print : MethodDecl where
  name := { node := "print" }
  returnTy := { node := .void }
  body :=
    [.expr .unknown (.call { id := 0 } (.var { id := 1 } "io") { node := "println" } [nothing])]

def restSymbols : MethodSymbols where
  name := "rest"
  returnTy := .void

def printSymbols : MethodSymbols where
  name := "print"
  returnTy := .void

def symbols : ClassSymbols where
  name := "Printer"
  methods := [restSymbols, printSymbols]

def table : SymbolTable where
  imports := ["io"]
  classes := [symbols]

def decl : ClassDecl where
  name := { node := "Printer" }
  methods := [rest, print]

def program : Program where
  imports := [{ node := "io" }]
  classes := [decl]

theorem accepted_not_lowered : ∃ a, program.checked table = .ok a ∧
    ¬∃ units, program.lowered table = .ok units := by
  have hids : program.uniqueIds = true := by
    simp [Program.uniqueIds, Program.statements, program, decl, rest, print, nothing, Stmt.roots,
      Expr.uniqueIds, Expr.children, Expr.id, Expr.node]
  have hchecked : program.checked table = .ok (program.annotate table) :=
    Program.checked_ok_iff.2 ⟨hids, rfl⟩
  have hfaulty : program.Faulty table (program.annotate table).types :=
    ⟨decl, .head _, symbols, rfl, print, .tail _ (.head _), printSymbols, rfl,
      .inl ⟨nothing, .tail _ (.head _), rfl⟩⟩
  obtain ⟨hiff, -⟩ := Program.lowered_iff_not_faulty hchecked
  exact ⟨_, hchecked, fun hlowered => hiff.1 hlowered hfaulty⟩

end Printer

end MiniJava
