import MiniJava.Proofs.Ir.WellTyped
import MiniJava.Proofs.Lowering.Inversion

/-!
# Code put together

The code of an expression is the code of its parts in a row, and behind them an instruction that
keeps a value in a new temporary or makes a call. So a relation between counters and code holds for
all lowered expressions if it holds for these instructions and for code in a row
(`Expr.Lowers.composed`).
-/

namespace MiniJava

open Ir Lower

/-- The relation is kept when code is put together, and holds for what expressions add to the code
of their parts. It is between the counters before and after and the code written between them. -/
structure Lower.Composable (R : Counters → Counters → List Instr → Prop) : Prop where
  nil : ∀ c, R c c []
  append : ∀ {c c₁ c₂ k₁ k₂}, R c c₁ k₁ → R c₁ c₂ k₂ → R c c₂ (k₁ ++ k₂)
  kept : ∀ {ty rhs c o c' k}, Kept ty rhs c o c' k → rhs.isCopy = false → R c c' k
  call : ∀ c kind target m args params ty, R c c [.call kind target m args params ty]

namespace Expr

variable {sc : Scope} {types : TypeMap} {mk : Bool} {c c' : Counters} {code : List Instr}
  {R : Counters → Counters → List Instr → Prop}

theorem LowersAll.composed_of {es : List Expr} {os : List Operand} (hR : Composable R)
    (hes : ∀ e ∈ es, ∀ {c c' code o}, Lowers sc types mk e c o c' code → R c c' code)
    (h : LowersAll sc types mk es c os c' code) : R c c' code := by
  induction es generalizing c os code with
  | nil =>
    obtain ⟨-, rfl, rfl⟩ := lowersAll_nil.1 h
    exact hR.nil _
  | cons e es ih =>
    obtain ⟨a, c₁, k₁, as, k₂, he, hrest, -, rfl⟩ := lowersAll_cons.1 h
    rw [List.forall_mem_cons] at hes
    exact hR.append (hes.1 he) (ih hes.2 hrest)

theorem Lowers.composed {e : Expr} {o : Operand} (hR : Composable R)
    (h : Lowers sc types mk e c o c' code) : R c c' code := by
  induction e using Expr.induction generalizing c o c' code with
  | int n v =>
    obtain ⟨-, rfl, rfl⟩ := lowers_int.1 h
    exact hR.nil _
  | bool n v =>
    obtain ⟨-, rfl, rfl⟩ := lowers_bool.1 h
    exact hR.nil _
  | this n =>
    obtain ⟨-, rfl, rfl⟩ := lowers_this.1 h
    exact hR.nil _
  | var n x =>
    rcases lowers_var.1 h with ⟨s, -, hk⟩ | ⟨b, -, -, -, rfl, rfl⟩ | ⟨-, -, -, rfl, rfl⟩
    · exact hR.kept hk rfl
    · exact hR.nil _
    · exact hR.nil _
  | not n e ih =>
    obtain ⟨a, c₁, k₁, k₂, he, hk, rfl⟩ := lowers_not.1 h
    exact hR.append (ih he) (hR.kept hk rfl)
  | binary n op l r ihl ihr =>
    obtain ⟨ty, a, c₁, k₁, b, c₂, k₂, k₃, -, hl, hr, hk, rfl⟩ := lowers_binary.1 h
    exact hR.append (ihl hl) (hR.append (ihr hr) (hR.kept hk rfl))
  | call n r m args ihr ihargs =>
    obtain ⟨ty, as, c₁, k₁, t, c₂, k₂, k₃, -, -, hargs, hr, hk, rfl⟩ := lowers_call.1 h
    exact hR.append (LowersAll.composed_of hR ihargs hargs)
      (hR.append (ihr hr) (hR.kept hk rfl))
  | newObject n cl =>
    obtain ⟨k, hk, rfl⟩ := lowers_newObject.1 h
    exact hR.append (hR.kept hk rfl) (hR.call ..)
  | newArray n e ih =>
    obtain ⟨ty, a, c₁, k₁, k₂, -, he, hk, rfl⟩ := lowers_newArray.1 h
    exact hR.append (ih he) (hR.kept hk rfl)
  | length n a ih =>
    obtain ⟨b, c₁, k₁, k₂, ha, hk, rfl⟩ := lowers_length.1 h
    exact hR.append (ih ha) (hR.kept hk rfl)
  | index n a i iha ihi =>
    obtain ⟨ty, x, t, p, c₁, k₁, j, c₂, k₂, k₃, -, ha, hi, hk, rfl⟩ := lowers_index.1 h
    exact hR.append (iha ha) (hR.append (ihi hi) (hR.kept hk rfl))
  | paren n e ih => exact ih (lowers_paren.1 h)

theorem LowersAll.composed {es : List Expr} {os : List Operand} (hR : Composable R)
    (h : LowersAll sc types mk es c os c' code) : R c c' code :=
  composed_of hR (fun _ _ _ _ _ _ he => he.composed hR) h

theorem LowersEffect.composed {e : Expr} (hR : Composable R)
    (h : LowersEffect sc types e c c' code) : R c c' code := by
  induction e using Expr.induction with
  | paren n e ih => exact ih (lowersEffect_paren.1 h)
  | call n r m args =>
    obtain ⟨as, c₁, k₁, t, k₂, hargs, hr, rfl⟩ := lowersEffect_call.1 h
    exact hR.append (hargs.composed hR) (hR.append (hr.composed hR) (hR.call ..))
  | _ =>
    obtain ⟨o, he⟩ := (lowersEffect_plain (by simp [IsPlain])).1 h
    exact he.composed hR

end Expr

end MiniJava
