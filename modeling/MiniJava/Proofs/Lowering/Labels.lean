import MiniJava.Proofs.Lowering.Composition
import MiniJava.Proofs.Names
import MiniJava.Proofs.Semantics.ThreeAddress
import Mathlib.Data.List.Nodup

/-!
# Labels of lowered code

Every branch and every loop takes a number of its own, and its labels are words with this number.
So no label is set twice in the code of a method (`Stmt.LowersAll.labelled`), and a jump leads to
the place where the branch or loop has set its label.
-/

namespace MiniJava

open Ir Lower

/-! ## Expressions -/

/-- The code sets no label, and only temporaries were handed out for it. -/
structure Straight (c c' : Counters) (code : List Instr) : Prop where
  labels : c'.labels = c.labels
  temps : c.temps ≤ c'.temps
  unlabelled : Ir.labels code = []

namespace Straight

variable {c c₁ c₂ : Counters} {k₁ k₂ : List Instr}

theorem refl (c : Counters) : Straight c c [] := ⟨rfl, Nat.le_refl _, rfl⟩

theorem trans (h₁ : Straight c c₁ k₁) (h₂ : Straight c₁ c₂ k₂) : Straight c c₂ (k₁ ++ k₂) where
  labels := h₂.labels.trans h₁.labels
  temps := Nat.le_trans h₁.temps h₂.temps
  unlabelled := by rw [labels_append, h₁.unlabelled, h₂.unlabelled, List.append_nil]

theorem instr {i : Instr} (hi : i.label? = none) : Straight c c [i] :=
  ⟨rfl, Nat.le_refl _, labels_cons hi []⟩

end Straight

theorem Lower.Kept.straight {ty : Ty} {rhs : Instr} {c c' : Counters} {o : Operand}
    {code : List Instr} (h : Kept ty rhs c o c' code) : Straight c c' code := by
  obtain ⟨-, rfl, rfl⟩ := h
  exact ⟨rfl, Nat.le_succ _, rfl⟩

theorem Straight.composable : Composable Straight where
  nil := .refl
  append := .trans
  kept := fun h _ => h.straight
  call := fun _ _ _ _ _ _ _ => .instr rfl

namespace Expr

variable {sc : Scope} {types : TypeMap} {mk : Bool} {c c' : Counters} {code : List Instr}

theorem Lowers.straight {e : Expr} {o : Operand} (h : Lowers sc types mk e c o c' code) :
    Straight c c' code :=
  h.composed Straight.composable

theorem LowersAll.straight {es : List Expr} {os : List Operand}
    (h : LowersAll sc types mk es c os c' code) : Straight c c' code :=
  h.composed Straight.composable

theorem LowersEffect.straight {e : Expr} (h : LowersEffect sc types e c c' code) :
    Straight c c' code :=
  h.composed Straight.composable

end Expr

/-! ## Statements -/

/-- The labels of the code are all different, and their numbers were handed out for it. -/
structure Labelled (c c' : Counters) (code : List Instr) : Prop where
  labels : c.labels ≤ c'.labels
  numbered : ∀ l ∈ Ir.labels code, ∃ n, c.labels ≤ n ∧ n < c'.labels ∧ LabelOf n l
  nodup : (Ir.labels code).Nodup

theorem Straight.labelled {c c' : Counters} {code : List Instr} (h : Straight c c' code) :
    Labelled c c' code where
  labels := Nat.le_of_eq h.labels.symm
  numbered := by simp [h.unlabelled]
  nodup := by simp [h.unlabelled]

namespace Labelled

variable {c c₁ c₂ : Counters} {k₁ k₂ : List Instr}

theorem trans (h₁ : Labelled c c₁ k₁) (h₂ : Labelled c₁ c₂ k₂) : Labelled c c₂ (k₁ ++ k₂) where
  labels := Nat.le_trans h₁.labels h₂.labels
  numbered := by
    intro l hl
    rw [labels_append, List.mem_append] at hl
    have hle₁ := h₁.labels
    have hle₂ := h₂.labels
    rcases hl with hl | hl
    · obtain ⟨n, hlo, hhi, hn⟩ := h₁.numbered l hl
      exact ⟨n, hlo, by omega, hn⟩
    · obtain ⟨n, hlo, hhi, hn⟩ := h₂.numbered l hl
      exact ⟨n, by omega, hhi, hn⟩
  nodup := by
    rw [labels_append, List.nodup_append]
    refine ⟨h₁.nodup, h₂.nodup, ?_⟩
    rintro l hl₁ _ hl₂ rfl
    obtain ⟨n, -, hlt, hn⟩ := h₁.numbered l hl₁
    obtain ⟨m, hle, -, hm⟩ := h₂.numbered l hl₂
    have := hn.number_inj hm
    omega

theorem of_sublist (h : Labelled c c₁ k₁) (hsub : k₂.Sublist k₁) : Labelled c c₁ k₂ where
  labels := h.labels
  numbered := fun l hl => h.numbered l ((hsub.filterMap Instr.label?).subset hl)
  nodup := h.nodup.sublist (hsub.filterMap Instr.label?)

/-- A branch or loop adds words with its own number to the labels of its parts, which have later
numbers. -/
theorem wrap (h : Labelled c.nextLabel c₁ k₁) (stems : List String) (hsub : stems ⊆ labelStems)
    (hnodup : stems.Nodup)
    (hperm : (Ir.labels k₂).Perm (stems.map (· ++ toString c.labels) ++ Ir.labels k₁)) :
    Labelled c c₁ k₂ where
  labels := Nat.le_of_succ_le h.labels
  numbered := by
    intro l hl
    have hlater : c.labels + 1 ≤ c₁.labels := h.labels
    rcases List.mem_append.1 (hperm.mem_iff.1 hl) with hl | hl
    · obtain ⟨p, hp, rfl⟩ := List.mem_map.1 hl
      exact ⟨c.labels, Nat.le_refl _, hlater, p, hsub hp, rfl⟩
    · obtain ⟨n, hlo, hhi, hn⟩ := h.numbered l hl
      exact ⟨n, Nat.le_of_succ_le hlo, hhi, hn⟩
  nodup := by
    rw [hperm.nodup_iff, List.nodup_append]
    refine ⟨?_, h.nodup, ?_⟩
    · refine List.Nodup.map_on ?_ hnodup
      intro p hp q hq heq
      exact (numbered_inj (isStem_of_mem (hsub hp)) (isStem_of_mem (hsub hq)) heq).1
    -- A label of this statement has the number `c.labels`; those inside have later numbers.
    · rintro l hl _ hl' rfl
      obtain ⟨p, hp, rfl⟩ := List.mem_map.1 hl
      obtain ⟨n, hlo, -, hn⟩ := h.numbered _ hl'
      have heq : c.labels = n := LabelOf.number_inj ⟨p, hsub hp, rfl⟩ hn
      have hlo' : c.labels + 1 ≤ n := hlo
      omega

end Labelled

namespace Stmt

variable {sc : Scope} {types : TypeMap} {c c' : Counters} {code : List Instr}

theorem LowersAll.labelled_of {ss : List Stmt}
    (hss : ∀ s ∈ ss, ∀ {c c' code}, Lowers sc types s c c' code → Labelled c c' code)
    (h : LowersAll sc types ss c c' code) : Labelled c c' code := by
  induction ss generalizing c code with
  | nil =>
    obtain ⟨rfl, rfl⟩ := lowersAll_nil.1 h
    exact (Straight.refl _).labelled
  | cons s ss ih =>
    obtain ⟨c₁, k₁, k₂, hs, hrest, rfl⟩ := lowersAll_cons.1 h
    have hhead := hss s (List.mem_cons_self ..) hs
    exact hhead.trans (ih (fun s' hs' => hss s' (List.mem_cons_of_mem _ hs')) hrest)

theorem Lowers.labelled {s : Stmt} (h : Lowers sc types s c c' code) : Labelled c c' code := by
  induction s using Stmt.induction generalizing c c' code with
  | varDecl sp d =>
    obtain ⟨rfl, rfl⟩ := lowers_varDecl.1 h
    exact (Straight.refl _).labelled
  | block sp body ih => exact LowersAll.labelled_of ih (lowers_block.1 h)
  | ifThen sp cond t ih =>
    obtain ⟨o, c₁, k₁, k₂, hc, ht, rfl⟩ := lowers_ifThen.1 h
    refine (hc.straight.labelled.trans (ih ht)).wrap ["then_", "endif_"] (by decide)
      (by decide) ?_
    simp only [labels_append, labels_branch, labels_goto, labels_label, labels_nil,
      hc.straight.unlabelled, List.nil_append, List.map_cons, List.map_nil, List.cons_append]
    exact .cons _ List.perm_append_comm
  | ifElse sp cond t e iht ihe =>
    obtain ⟨o, c₁, k₁, c₂, k₂, k₃, hc, he, ht, rfl⟩ := lowers_ifElse.1 h
    have hparts := hc.straight.labelled.trans ((ihe he).trans (iht ht))
    have hjump : labels (joinJump c.labels e) = [] := by
      rw [joinJump]
      split <;> rfl
    -- The last label is left out if both branches always return.
    obtain ⟨stems, hjoin, hsub, hnodup⟩ : ∃ stems : List String,
        labels (joinLabel c.labels t e) = stems.map (· ++ toString c.labels) ∧
          "then_" :: stems ⊆ labelStems ∧ ("then_" :: stems).Nodup := by
      rw [joinLabel]
      split
      · exact ⟨[], rfl, by decide, by decide⟩
      · exact ⟨["endif_"], rfl, by decide, by decide⟩
    refine hparts.wrap ("then_" :: stems) hsub hnodup ?_
    simp only [labels_append, labels_branch, labels_label, hc.straight.unlabelled, hjump, hjoin,
      List.nil_append, List.map_cons]
    refine List.perm_middle.trans (.cons _ ?_)
    rw [← List.append_assoc]
    exact List.perm_append_comm
  | whileLoop sp cond b ih =>
    obtain ⟨o, c₁, k₁, k₂, hc, hb, rfl⟩ := lowers_whileLoop.1 h
    refine (hc.straight.labelled.trans (ih hb)).wrap
      ["while_cond_", "while_body_", "while_end_"] (by decide) (by decide) ?_
    simp only [labels_append, labels_branch, labels_goto, labels_label, labels_nil,
      hc.straight.unlabelled, List.nil_append, List.map_cons, List.map_nil, List.cons_append]
    exact .cons _ (.cons _ List.perm_append_comm)
  | expr sp e => exact (lowers_expr.1 h).straight.labelled
  | assign sp x v =>
    obtain ⟨b, o, k, -, hv, ⟨s, -, rfl⟩ | ⟨-, rfl⟩⟩ := lowers_assign.1 h
    · exact (hv.straight.trans (.instr rfl)).labelled
    · exact (hv.straight.trans (.instr rfl)).labelled
  | arrayAssign sp x i v =>
    obtain ⟨b, ty, y, t, p, c₁, k₁, j, c₂, k₂, o, k₃, -, -, hx, hi, hv, rfl⟩ :=
      lowers_arrayAssign.1 h
    exact (hx.straight.trans (hi.straight.trans (hv.straight.trans (.instr rfl)))).labelled
  | ret sp v =>
    cases v with
    | none =>
      obtain ⟨rfl, rfl⟩ := lowers_ret_none.1 h
      exact (Straight.instr rfl).labelled
    | some v =>
      obtain ⟨o, k, hv, rfl⟩ := lowers_ret_some.1 h
      exact (hv.straight.trans (.instr rfl)).labelled

/-- No label is set twice in the code of a body. -/
theorem LowersAll.labelled {ss : List Stmt} (h : LowersAll sc types ss c c' code) :
    Labelled c c' code :=
  labelled_of (fun _ _ _ _ _ hs => hs.labelled) h

end Stmt

theorem MethodDecl.labels_finalReturn (d : MethodDecl) : Ir.labels d.finalReturn = [] := by
  rw [finalReturn]
  split <;> rfl

end MiniJava
