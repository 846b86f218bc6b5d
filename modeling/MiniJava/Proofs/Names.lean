import MiniJava.Assembly.Emission
import MiniJava.Lowering.Stmt

/-!
# Numbered names

Temporaries and labels are named by a word and a number written behind it. As long as the word does
not end in a digit, the name tells both (`numbered_inj`), so names from different counters or with
different numbers are different.
-/

namespace MiniJava

/-- The word does not end in a digit. -/
def IsStem (p : String) : Prop := ∀ c, p.toList.getLast? = some c → c.isDigit = false

instance (p : String) : Decidable (IsStem p) :=
  match h : p.toList.getLast? with
  | none => isTrue (by simp [IsStem, h])
  | some c => decidable_of_iff (c.isDigit = false) (by simp [IsStem, h])

/-- The digits at the end of a numbered name are those of its number. -/
theorem takeWhile_isDigit_reverse {p : String} (hp : IsStem p) (n : Nat) :
    (p ++ toString n).toList.reverse.takeWhile Char.isDigit = (Nat.toDigits 10 n).reverse := by
  have hdigits : ∀ c ∈ (Nat.toDigits 10 n).reverse, c.isDigit = true := by
    intro c hc
    exact Nat.isDigit_of_mem_toDigits (by decide) (by decide) (List.mem_reverse.1 hc)
  have hstem : p.toList.reverse.takeWhile Char.isDigit = [] := by
    rcases hr : p.toList.reverse with _ | ⟨c, cs⟩
    · rfl
    · have hlast : p.toList.getLast? = some c := by
        rw [← List.head?_reverse, hr]
        rfl
      rw [List.takeWhile_cons_of_neg]
      rw [hp c hlast]
      simp
  rw [String.toList_append, List.reverse_append, Nat.toString_eq_repr, Nat.toList_repr,
    List.takeWhile_append_of_pos hdigits, hstem, List.append_nil]

/-- The word and the number of a numbered name. -/
def splitNumber (s : String) : String × Nat :=
  (String.ofList (s.toList.reverse.dropWhile Char.isDigit).reverse,
    Nat.ofDigitChars 10 (s.toList.reverse.takeWhile Char.isDigit).reverse 0)

theorem splitNumber_append {p : String} (hp : IsStem p) (n : Nat) :
    splitNumber (p ++ toString n) = (p, n) := by
  have hdigits := takeWhile_isDigit_reverse hp n
  have hword : (p ++ toString n).toList.reverse.dropWhile Char.isDigit = p.toList.reverse := by
    have hall : (p ++ toString n).toList.reverse = (Nat.toDigits 10 n).reverse ++
        p.toList.reverse := by
      rw [String.toList_append, List.reverse_append, Nat.toString_eq_repr, Nat.toList_repr]
    have hsplit := @List.takeWhile_append_dropWhile _ Char.isDigit (p ++ toString n).toList.reverse
    rw [hdigits] at hsplit
    exact List.append_cancel_left (hsplit.trans hall)
  rw [splitNumber, hdigits, hword, List.reverse_reverse, List.reverse_reverse,
    Nat.ofDigitChars_ten_toDigits, String.ofList_toList]

/-- A numbered name tells its word and its number. -/
theorem numbered_inj {p q : String} {n m : Nat} (hp : IsStem p) (hq : IsStem q)
    (h : p ++ toString n = q ++ toString m) : p = q ∧ n = m := by
  have hsplit := congrArg splitNumber h
  rw [splitNumber_append hp, splitNumber_append hq] at hsplit
  exact Prod.mk.inj hsplit

/-! ## Temporaries -/

namespace Lower

theorem tempName_eq (k : Nat) : tempName k = "tmp" ++ toString k := rfl

theorem splitNumber_tempName (k : Nat) : splitNumber (tempName k) = ("tmp", k) :=
  splitNumber_append (by decide) k

theorem tempName_inj {j k : Nat} (h : tempName j = tempName k) : j = k :=
  (numbered_inj (p := "tmp") (q := "tmp") (by decide) (by decide) h).2

/-- A name with another second letter is not one of a temporary. -/
theorem ne_tempName {x : String} (h : x.toList[1]? ≠ some 'm') (k : Nat) : x ≠ tempName k := by
  rintro rfl
  rw [tempName_eq, String.toList_append] at h
  simp at h

end Lower

theorem this_ne_tempName : ∀ k, "this" ≠ Lower.tempName k := Lower.ne_tempName (by decide)

/-! ## Labels -/

/-- The words of the labels that branches and loops get. -/
def labelStems : List String := ["then_", "endif_", "while_cond_", "while_body_", "while_end_"]

theorem isStem_of_mem {p : String} (h : p ∈ labelStems) : IsStem p := by
  revert p
  decide

/-- The label is one of those numbered `n`. -/
def LabelOf (n : Nat) (l : String) : Prop := ∃ p ∈ labelStems, l = p ++ toString n

theorem LabelOf.number_inj {n m : Nat} {l : String} (hn : LabelOf n l) (hm : LabelOf m l) :
    n = m := by
  obtain ⟨p, hp, rfl⟩ := hn
  obtain ⟨q, hq, h⟩ := hm
  exact (numbered_inj (isStem_of_mem hp) (isStem_of_mem hq) h).2

/-! ## Labels of comparisons -/

namespace Assembly

theorem trueLabel_inj {j k : Nat} (h : trueLabel j = trueLabel k) : j = k :=
  (numbered_inj (p := "cmp_true_") (q := "cmp_true_") (by decide) (by decide) h).2

theorem doneLabel_inj {j k : Nat} (h : doneLabel j = doneLabel k) : j = k :=
  (numbered_inj (p := "cmp_end_") (q := "cmp_end_") (by decide) (by decide) h).2

theorem trueLabel_ne_doneLabel (j k : Nat) : trueLabel j ≠ doneLabel k := by
  intro h
  have hstem := (numbered_inj (p := "cmp_true_") (q := "cmp_end_") (by decide) (by decide) h).1
  exact absurd hstem (by decide)

/-- A label with another first letter is not one of a comparison. -/
theorem ne_comparisonLabel {l : String} (h : l.toList.head? ≠ some 'c') (k : Nat) :
    l ≠ trueLabel k ∧ l ≠ doneLabel k := by
  constructor
  · rintro rfl
    simp only [trueLabel, String.toList_append, List.head?_append] at h
    exact h rfl
  · rintro rfl
    simp only [doneLabel, String.toList_append, List.head?_append] at h
    exact h rfl

/-- The labels of branches and loops are not those of comparisons. -/
theorem ne_comparisonLabel_of_labelOf {n : Nat} {l : String} (h : LabelOf n l) (k : Nat) :
    l ≠ trueLabel k ∧ l ≠ doneLabel k := by
  obtain ⟨p, hp, rfl⟩ := h
  have hstems : ∀ p ∈ labelStems, p.toList.head?.isSome = true ∧ p.toList.head? ≠ some 'c' := by
    decide
  obtain ⟨hsome, hne⟩ := hstems p hp
  apply ne_comparisonLabel
  obtain ⟨ch, hhead⟩ := Option.isSome_iff_exists.1 hsome
  rw [hhead] at hne
  rw [String.toList_append, List.head?_append, hhead]
  exact hne

end Assembly

end MiniJava
