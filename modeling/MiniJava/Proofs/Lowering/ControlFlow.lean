import MiniJava.Proofs.Lowering.Labels

/-!
# Jumps of lowered code

Control stays inside the code of a method. Every jump leads to a label that the code itself sets
(`Closed`), and the code ends in a return, so control never gets behind it (`EndsInReturn`).

Whether a branch jumps to the label behind it, whether that label is written and whether a body
needs a final return are three decisions, all made by `Stmt.definitelyReturns`. That they agree is
what the inductions here show: the `else` branch jumps to the join only if it may be left at its
end, and then the label of the join is there; and where a statement always returns, so does the last
instruction of its code.
-/

namespace MiniJava

open Ir Lower

namespace Ir

/-- Every jump of the code leads to a label that the code sets. -/
def Closed (code : List Instr) : Prop := jumps code ⊆ labels code

/-- The last instruction of the code is a return. -/
def EndsInReturn (code : List Instr) : Prop := ∃ init ty o, code = init ++ [.ret ty o]

namespace Closed

variable {k₁ k₂ : List Instr}

theorem of_jumps_nil (h : jumps k₁ = []) : Closed k₁ := by
  rw [Closed, h]
  exact List.nil_subset _

theorem append (h₁ : Closed k₁) (h₂ : Closed k₂) : Closed (k₁ ++ k₂) := by
  rw [Closed, jumps_append, labels_append]
  exact List.append_subset.2 ⟨List.Subset.trans h₁ (List.subset_append_left ..),
    List.Subset.trans h₂ (List.subset_append_right ..)⟩

end Closed

namespace EndsInReturn

variable {k₁ k₂ : List Instr}

theorem append (h : EndsInReturn k₂) : EndsInReturn (k₁ ++ k₂) := by
  obtain ⟨init, ty, o, rfl⟩ := h
  exact ⟨k₁ ++ init, ty, o, (List.append_assoc ..).symm⟩

theorem cons {i : Instr} (h : EndsInReturn k₂) : EndsInReturn (i :: k₂) := by
  show EndsInReturn ([i] ++ k₂)
  exact h.append

theorem singleton (ty : Ty) (o : Option Operand) : EndsInReturn [.ret ty o] := ⟨[], ty, o, rfl⟩

end EndsInReturn

end Ir

/-! ## Expressions -/

theorem jumps_composable : Composable fun _ _ code => jumps code = [] where
  nil := fun _ => rfl
  append := by
    intro c c₁ c₂ k₁ k₂ h₁ h₂
    rw [jumps_append, h₁, h₂, List.append_nil]
  kept := by
    intro ty rhs c o c' k h _
    rw [h.written]
    rfl
  call := fun _ _ _ _ _ _ _ => rfl

namespace Expr

variable {sc : Scope} {types : TypeMap} {mk : Bool} {c c' : Counters} {code : List Instr}

theorem Lowers.jumps_eq_nil {e : Expr} {o : Operand} (h : Lowers sc types mk e c o c' code) :
    jumps code = [] :=
  h.composed jumps_composable

theorem LowersEffect.jumps_eq_nil {e : Expr} (h : LowersEffect sc types e c c' code) :
    jumps code = [] :=
  h.composed jumps_composable

end Expr

/-! ## Statements -/

namespace Stmt

variable {sc : Scope} {types : TypeMap} {c c' : Counters} {code : List Instr}

/-- The jump behind the `else` branch leads to the label behind both branches: if it is written,
then so is the label. -/
theorem joinJump_subset (n : Nat) (t e : Stmt) :
    jumps (joinJump n e) ⊆ labels (joinLabel n t e) := by
  rw [joinJump, joinLabel]
  by_cases he : e.definitelyReturns = true
  · simp [he]
  · simp [he]

theorem LowersAll.closed_of {ss : List Stmt}
    (hss : ∀ s ∈ ss, ∀ {c c' code}, Lowers sc types s c c' code → Closed code)
    (h : LowersAll sc types ss c c' code) : Closed code := by
  induction ss generalizing c code with
  | nil =>
    obtain ⟨-, rfl⟩ := lowersAll_nil.1 h
    exact .of_jumps_nil rfl
  | cons s ss ih =>
    obtain ⟨c₁, k₁, k₂, hs, hrest, rfl⟩ := lowersAll_cons.1 h
    obtain ⟨hhead, htail⟩ := List.forall_mem_cons.1 hss
    exact (hhead hs).append (ih htail hrest)

theorem Lowers.closed {s : Stmt} (h : Lowers sc types s c c' code) : Closed code := by
  induction s using Stmt.induction generalizing c c' code with
  | varDecl sp d =>
    obtain ⟨-, rfl⟩ := lowers_varDecl.1 h
    exact .of_jumps_nil rfl
  | block sp body ih => exact LowersAll.closed_of ih (lowers_block.1 h)
  | ifThen sp cond t ih =>
    obtain ⟨o, c₁, k₁, k₂, hc, ht, rfl⟩ := lowers_ifThen.1 h
    have hbranch := ih ht
    intro l hl
    simp only [jumps_append, hc.jumps_eq_nil, jumps_branch, jumps_goto, jumps_label, jumps_nil,
      List.nil_append, List.append_nil, List.mem_cons] at hl
    simp only [labels_append, labels_branch, labels_goto, labels_label, labels_nil, List.mem_append,
      List.mem_cons]
    -- Jumps to the branch and to the end, and the jumps of the branch itself.
    rcases hl with rfl | rfl | hl
    · exact .inr (.inl rfl)
    · exact .inr (.inr (.inr (.inl rfl)))
    · exact .inr (.inr (.inl (hbranch hl)))
  | ifElse sp cond t e iht ihe =>
    obtain ⟨o, c₁, k₁, c₂, k₂, k₃, hc, he, ht, rfl⟩ := lowers_ifElse.1 h
    have hthen := iht ht
    have helse := ihe he
    have hlabel : jumps (joinLabel c.labels t e) = [] := by
      rw [joinLabel]
      split <;> rfl
    intro l hl
    simp only [jumps_append, hc.jumps_eq_nil, jumps_branch, jumps_label, hlabel, List.nil_append,
      List.append_nil, List.mem_cons, List.mem_append] at hl
    simp only [labels_append, labels_branch, labels_label, List.mem_append, List.mem_cons]
    -- The jump behind the other branch is there only together with the last label.
    rcases hl with rfl | hl | hl | hl
    · exact .inr (.inr (.inr (.inl rfl)))
    · exact .inr (.inl (helse hl))
    · exact .inr (.inr (.inr (.inr (.inr (joinJump_subset c.labels t e hl)))))
    · exact .inr (.inr (.inr (.inr (.inl (hthen hl)))))
  | whileLoop sp cond b ih =>
    obtain ⟨o, c₁, k₁, k₂, hc, hb, rfl⟩ := lowers_whileLoop.1 h
    have hbody := ih hb
    intro l hl
    simp only [jumps_append, hc.jumps_eq_nil, jumps_branch, jumps_goto, jumps_label, jumps_nil,
      List.nil_append, List.mem_cons, List.mem_append, List.not_mem_nil, or_false] at hl
    simp only [labels_append, labels_branch, labels_goto, labels_label, labels_nil, List.mem_append,
      List.mem_cons, List.not_mem_nil, or_false]
    -- Jumps into the body, behind the loop, those of the body, and back to the condition.
    rcases hl with rfl | rfl | hl | rfl
    · exact .inr (.inr (.inl rfl))
    · exact .inr (.inr (.inr (.inr rfl)))
    · exact .inr (.inr (.inr (.inl (hbody hl))))
    · exact .inl rfl
  | expr sp e => exact .of_jumps_nil (lowers_expr.1 h).jumps_eq_nil
  | assign sp x v =>
    obtain ⟨b, o, k, -, hv, ⟨s, -, rfl⟩ | ⟨-, rfl⟩⟩ := lowers_assign.1 h
    · exact .of_jumps_nil (by rw [jumps_append, hv.jumps_eq_nil]; rfl)
    · exact .of_jumps_nil (by rw [jumps_append, hv.jumps_eq_nil]; rfl)
  | arrayAssign sp x i v =>
    obtain ⟨b, ty, y, t, p, c₁, k₁, j, c₂, k₂, o, k₃, -, -, hx, hi, hv, rfl⟩ :=
      lowers_arrayAssign.1 h
    refine .of_jumps_nil ?_
    simp only [jumps_append, hx.jumps_eq_nil, hi.jumps_eq_nil, hv.jumps_eq_nil]
    rfl
  | ret sp v =>
    cases v with
    | none =>
      obtain ⟨-, rfl⟩ := lowers_ret_none.1 h
      exact .of_jumps_nil rfl
    | some v =>
      obtain ⟨o, k, hv, rfl⟩ := lowers_ret_some.1 h
      exact .of_jumps_nil (by rw [jumps_append, hv.jumps_eq_nil]; rfl)

theorem LowersAll.closed {ss : List Stmt} (h : LowersAll sc types ss c c' code) : Closed code :=
  closed_of (fun _ _ _ _ _ hs => hs.closed) h

/-! ## Statements that always return -/

theorem LowersAll.endsInReturn_of {ss : List Stmt}
    (hss : ∀ s ∈ ss, ∀ {c c' code}, s.definitelyReturns = true → Lowers sc types s c c' code →
      EndsInReturn code)
    (hret : lastReturns ss = true) (h : LowersAll sc types ss c c' code) : EndsInReturn code := by
  induction ss generalizing c code with
  | nil => cases hret
  | cons s ss ih =>
    obtain ⟨c₁, k₁, k₂, hs, hrest, rfl⟩ := lowersAll_cons.1 h
    obtain ⟨hhead, htail⟩ := List.forall_mem_cons.1 hss
    cases ss with
    | nil =>
      obtain ⟨-, rfl⟩ := lowersAll_nil.1 hrest
      rw [List.append_nil]
      exact hhead hret hs
    | cons s' ss => exact (ih htail hret hrest).append

/-- The code of a statement that always returns ends in a return: no jump to the join and no label
of it stand behind the branches. -/
theorem Lowers.endsInReturn {s : Stmt} (hret : s.definitelyReturns = true)
    (h : Lowers sc types s c c' code) : EndsInReturn code := by
  induction s using Stmt.induction generalizing c c' code with
  | block sp body ih =>
    exact LowersAll.endsInReturn_of (fun s hs _ _ _ hret hlow => ih s hs hret hlow) hret
      (lowers_block.1 h)
  | ifElse sp cond t e iht ihe =>
    obtain ⟨o, c₁, k₁, c₂, k₂, k₃, -, -, ht, rfl⟩ := lowers_ifElse.1 h
    rw [definitelyReturns, Bool.and_eq_true] at hret
    have hjoin : joinLabel c.labels t e = [] := by simp [joinLabel, hret]
    rw [hjoin, List.append_nil]
    exact (((iht hret.1 ht).cons.append).append).cons.append
  | ret sp v =>
    cases v with
    | none =>
      obtain ⟨-, rfl⟩ := lowers_ret_none.1 h
      exact .singleton _ _
    | some v =>
      obtain ⟨o, k, -, rfl⟩ := lowers_ret_some.1 h
      exact (EndsInReturn.singleton _ _).append
  | _ => cases hret

theorem LowersAll.endsInReturn {ss : List Stmt} (hret : lastReturns ss = true)
    (h : LowersAll sc types ss c c' code) : EndsInReturn code :=
  endsInReturn_of (fun _ _ _ _ _ hret hs => hs.endsInReturn hret) hret h

end Stmt

/-! ## Methods -/

namespace MethodDecl

variable {table : SymbolTable} {types : TypeMap} {cls : ClassSymbols} {d : MethodDecl} {m : Method}
  {c c' : Counters} {events : List Event}

theorem jumps_finalReturn (d : MethodDecl) : jumps d.finalReturn = [] := by
  rw [finalReturn]
  split <;> rfl

/-- The labels of a method have numbers that were handed out for it. -/
theorem lower_labelled (h : (d.lower table types cls).run c = ⟨.ok m, c', events⟩) :
    Labelled c c' m.code := by
  obtain ⟨method, body, -, hbody, hcode, -⟩ := lower_ok h
  have hfinal : Straight c' c' d.finalReturn := ⟨rfl, Nat.le_refl _, d.labels_finalReturn⟩
  rw [hcode]
  exact hbody.labelled.trans hfinal.labelled

theorem lower_closed (h : (d.lower table types cls).run c = ⟨.ok m, c', events⟩) :
    Closed m.code := by
  obtain ⟨method, body, -, hbody, hcode, -⟩ := lower_ok h
  rw [hcode]
  exact hbody.closed.append (.of_jumps_nil d.jumps_finalReturn)

/-- A method without errors ends in a return, of its own or added. -/
theorem lower_endsInReturn (h : (d.lower table types cls).run c = ⟨.ok m, c', events⟩)
    (hreturns : d.returnTy.node ≠ .void → Stmt.lastReturns d.body = true) :
    EndsInReturn m.code := by
  obtain ⟨method, body, -, hbody, hcode, -⟩ := lower_ok h
  rw [hcode]
  by_cases hlast : Stmt.lastReturns d.body = true
  · have hfinal : d.finalReturn = [] := by simp [finalReturn, hlast]
    rw [hfinal, List.append_nil]
    exact hbody.endsInReturn hlast
  · have hvoid : d.returnTy.node = .void := by
      by_contra hne
      exact hlast (hreturns hne)
    have hfinal : d.finalReturn = [.ret .void none] := by simp [finalReturn, hlast, hvoid]
    rw [hfinal]
    exact (EndsInReturn.singleton _ _).append

end MethodDecl

/-! ## Programs -/

namespace Program

variable {p : Program} {table : SymbolTable} {types : TypeMap} {a : Annotation} {c c' : Counters}
  {units : List ClassUnit} {events : List Event}

/-- The labels of all methods of all classes have numbers that were handed out one after the
other. -/
theorem lower_labelled (h : (p.lower table types).run c = ⟨.ok units, c', events⟩) :
    Labelled c c' (units.flatMap fun u => u.methods.flatMap Method.code) := by
  rw [lower, ClassDecl.lowerAll_eq_mapM'] at h
  refine Stage.mapM'_related (fun s => (Straight.refl s).labelled) Labelled.trans ?_ h
  intro d s u s' events' hd
  obtain ⟨cls, ms, _, -, -, hmethods, hms⟩ := ClassDecl.lower_run hd
  have hcode : Labelled s s' (ms.flatMap Method.code) :=
    Stage.mapM'_related (fun s => (Straight.refl s).labelled) Labelled.trans
      MethodDecl.lower_labelled hms
  have hconstructor : Straight s' s' (Method.defaultConstructor u.name).code :=
    ⟨rfl, Nat.le_refl _, rfl⟩
  rw [hmethods, List.flatMap_append, List.flatMap_singleton]
  exact hcode.trans hconstructor.labelled

/-- In every method of an accepted program jumps lead to labels of the method, and the last
instruction is a return. -/
theorem lower_methods_closed (hcheck : p.check table = .ok a)
    (h : (p.lower table types).run c = ⟨.ok units, c', events⟩) {u : ClassUnit} (hu : u ∈ units)
    {m : Method} (hm : m ∈ u.methods) :
    Closed m.code ∧ EndsInReturn m.code := by
  obtain ⟨d, hd, cls, hcls, -, hmethods⟩ := lower_methods h hu
  rcases hmethods m hm with rfl | ⟨md, hmd, method, -, _, _, _, hrun⟩
  · exact ⟨.of_jumps_nil rfl, (EndsInReturn.singleton _ _).cons⟩
  · obtain ⟨cls', hcls', hacc⟩ := check_methods hcheck hd
    obtain rfl : cls = cls' := Option.some.inj (hcls.symm.trans hcls')
    obtain ⟨_, hmacc⟩ := hacc md hmd
    exact ⟨MethodDecl.lower_closed hrun, MethodDecl.lower_endsInReturn hrun hmacc.returns⟩

end Program

end MiniJava
