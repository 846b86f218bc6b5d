import MiniJava.Stage

/-!
# Laws of stages

A stage that ends well has ended well in all its parts, and its output is the output of the parts in
order. `Stage.bind_ok_iff` says this once for two stages in a row; everything that is said about
successful runs of the compiler is read off with it, part by part.

What is said about all runs, also those that fail, goes by the parts as well: with which faults a
stage may stop (`Stage.FailsOnly`), with which one it does (`Stage.FailsWith`), and what it writes
(`Stage.Ensures`).
-/

namespace MiniJava

namespace Stage

variable {σ ω ω' ε α β : Type}

/-! ## Single steps -/

@[simp] theorem pure_run (a : α) (s : σ) : (pure a : Stage σ ω ε α).run s = ⟨.ok a, s, []⟩ := rfl

@[simp] theorem fail_run (e : ε) (s : σ) :
    (fail e : Stage σ ω ε α).run s = ⟨.error e, s, []⟩ := rfl

@[simp] theorem emit_run (w : ω) (s : σ) :
    (emit w : Stage σ ω ε Unit).run s = ⟨.ok (), s, [w]⟩ := rfl

@[simp] theorem emitAll_run (ws : List ω) (s : σ) :
    (emitAll ws : Stage σ ω ε Unit).run s = ⟨.ok (), s, ws⟩ := rfl

@[simp] theorem update_run (f : σ → α × σ) (s : σ) :
    (update f : Stage σ ω ε α).run s = ⟨.ok (f s).1, (f s).2, []⟩ := rfl

@[simp] theorem ofExcept_ok (a : α) : (ofExcept (.ok a) : Stage σ ω ε α) = pure a := rfl

@[simp] theorem ofExcept_error (e : ε) : (ofExcept (.error e) : Stage σ ω ε α) = fail e := rfl

theorem ext {x y : Stage σ ω ε α} (h : ∀ s, x.run s = y.run s) : x = y := funext h

theorem run_of_result {x : Stage σ ω ε α} {s : σ} {a : α} (h : (x.run s).result = .ok a) :
    ∃ s' out, x.run s = ⟨.ok a, s', out⟩ := by
  rcases hrun : x.run s with ⟨r, s', out⟩
  rw [hrun] at h
  exact ⟨s', out, by rw [← h]⟩

/-! ## Stages in a row -/

theorem bind_run_ok {x : Stage σ ω ε α} {f : α → Stage σ ω ε β} {s s₁ : σ} {a : α} {o₁ : List ω}
    (h : x.run s = ⟨.ok a, s₁, o₁⟩) :
    (x >>= f).run s =
      ⟨((f a).run s₁).result, ((f a).run s₁).state, o₁ ++ ((f a).run s₁).output⟩ := by
  rw [run_bind, h, andThen_ok]

theorem bind_run_error {x : Stage σ ω ε α} (f : α → Stage σ ω ε β) {s s₁ : σ} {e : ε}
    {o₁ : List ω} (h : x.run s = ⟨.error e, s₁, o₁⟩) : (x >>= f).run s = ⟨.error e, s₁, o₁⟩ := by
  rw [run_bind, h, andThen_error]

/-- A run of two stages in a row ends well exactly if both parts do. -/
theorem bind_ok_iff {x : Stage σ ω ε α} {f : α → Stage σ ω ε β} {s s' : σ} {b : β}
    {out : List ω} :
    (x >>= f).run s = ⟨.ok b, s', out⟩ ↔
      ∃ a s₁ o₁ o₂, x.run s = ⟨.ok a, s₁, o₁⟩ ∧ (f a).run s₁ = ⟨.ok b, s', o₂⟩ ∧
        out = o₁ ++ o₂ := by
  rcases hx : x.run s with ⟨e | a, s₁, o₁⟩
  · simp [bind_run_error f hx]
  · rw [bind_run_ok hx]
    constructor
    · intro h
      injection h with hr hs ho
      refine ⟨a, s₁, o₁, ((f a).run s₁).output, rfl, ?_, ho.symm⟩
      rw [← hr, ← hs]
    · rintro ⟨a', s₁', o₁', o₂, h₁, h₂, rfl⟩
      injection h₁ with ha hs ho
      injection ha with ha
      subst ha hs ho
      rw [h₂]

@[simp] theorem bind_fail (e : ε) (f : α → Stage σ ω ε β) :
    (fail e >>= f : Stage σ ω ε β) = fail e := rfl

instance : LawfulMonad (Stage σ ω ε) := by
  refine LawfulMonad.mk' _ ?_ ?_ ?_
  · intro α x
    apply ext
    intro s
    show (x >>= fun a => pure (id a)).run s = _
    rcases hx : x.run s with ⟨e | a, s₁, o₁⟩
    · rw [bind_run_error _ hx]
    · rw [bind_run_ok hx]
      simp
  · intro α β a f
    apply ext
    intro s
    rw [bind_run_ok (pure_run a s)]
    rfl
  · intro α β γ x f g
    apply ext
    intro s
    rcases hx : x.run s with ⟨e | a, s₁, o₁⟩
    · rw [bind_run_error _ (bind_run_error f hx), bind_run_error _ hx]
    · rw [bind_run_ok hx]
      rcases hy : (f a).run s₁ with ⟨e | b, s₂, o₂⟩
      · have h : (x >>= f).run s = ⟨.error e, s₂, o₁ ++ o₂⟩ := by rw [bind_run_ok hx, hy]
        rw [bind_run_error _ h, bind_run_error _ hy]
      · have h : (x >>= f).run s = ⟨.ok b, s₂, o₁ ++ o₂⟩ := by rw [bind_run_ok hx, hy]
        rw [bind_run_ok h, bind_run_ok hy, List.append_assoc]

/-! ## Inversion of single steps -/

theorem pure_ok_iff {a b : α} {s s' : σ} {out : List ω} :
    (pure a : Stage σ ω ε α).run s = ⟨.ok b, s', out⟩ ↔ b = a ∧ s' = s ∧ out = [] := by
  simp only [pure_run, Outcome.mk.injEq, Except.ok.injEq]
  grind

theorem fail_ne_ok {e : ε} {b : α} {s s' : σ} {out : List ω} :
    (fail e : Stage σ ω ε α).run s ≠ ⟨.ok b, s', out⟩ := by
  simp

theorem emit_ok_iff {w : ω} {u : Unit} {s s' : σ} {out : List ω} :
    (emit w : Stage σ ω ε Unit).run s = ⟨.ok u, s', out⟩ ↔ s' = s ∧ out = [w] := by
  simp only [emit_run, Outcome.mk.injEq]
  grind

theorem ofExcept_ok_iff {x : Except ε α} {s s' : σ} {a : α} {out : List ω} :
    (ofExcept x : Stage σ ω ε α).run s = ⟨.ok a, s', out⟩ ↔ x = .ok a ∧ s' = s ∧ out = [] := by
  cases x with
  | error e => simp
  | ok b =>
    rw [ofExcept_ok, pure_ok_iff, Except.ok.injEq]
    grind

/-- A stage that writes nothing and keeps the state drops out of what comes after it. -/
theorem silent_bind_ok_iff {x : Stage σ ω ε α} {f : α → Stage σ ω ε β} {P : α → Prop} {s s' : σ}
    {b : β} {out : List ω}
    (hx : ∀ a s₁ o, x.run s = ⟨.ok a, s₁, o⟩ ↔ P a ∧ s₁ = s ∧ o = []) :
    (x >>= f).run s = ⟨.ok b, s', out⟩ ↔ ∃ a, P a ∧ (f a).run s = ⟨.ok b, s', out⟩ := by
  rw [bind_ok_iff]
  constructor
  · rintro ⟨a, s₁, o₁, o₂, ha, hf, rfl⟩
    obtain ⟨hp, rfl, rfl⟩ := (hx a s₁ o₁).1 ha
    exact ⟨a, hp, hf⟩
  · rintro ⟨a, hp, hf⟩
    exact ⟨a, s, [], out, (hx a s []).2 ⟨hp, rfl, rfl⟩, hf, rfl⟩

theorem emit_bind_ok_iff {w : ω} {f : Unit → Stage σ ω ε β} {s s' : σ} {b : β} {out : List ω} :
    (emit w >>= f).run s = ⟨.ok b, s', out⟩ ↔
      ∃ o, (f ()).run s = ⟨.ok b, s', o⟩ ∧ out = w :: o := by
  rw [bind_ok_iff]
  constructor
  · rintro ⟨_, _, _, o, h, hf, rfl⟩
    obtain ⟨rfl, rfl⟩ := emit_ok_iff.1 h
    exact ⟨o, hf, rfl⟩
  · rintro ⟨o, hf, rfl⟩
    exact ⟨(), s, [w], o, rfl, hf, rfl⟩

theorem collect_ok_iff {f : List ω → List ω'} {x : Stage σ ω ε Unit} {s s' : σ} {ws : List ω}
    {out : List ω'} :
    (x.collect f).run s = ⟨.ok ws, s', out⟩ ↔ x.run s = ⟨.ok (), s', ws⟩ ∧ out = f ws := by
  rw [run, run, collect]
  rcases x s with ⟨e | _, s₁, o⟩
  · simp [Except.map]
  · simp only [Except.map, Outcome.mk.injEq, Except.ok.injEq, true_and]
    grind

/-! ## Faults -/

/-- The stage stops with no other faults than these. -/
def FailsOnly (x : Stage σ ω ε α) (P : ε → Prop) : Prop :=
  ∀ s e, (x.run s).result = .error e → P e

namespace FailsOnly

variable {P Q : ε → Prop} {x : Stage σ ω ε α} {f : α → Stage σ ω ε β}

theorem mono (h : x.FailsOnly P) (himp : ∀ e, P e → Q e) : x.FailsOnly Q :=
  fun s e he => himp e (h s e he)

protected theorem pure (a : α) : (pure a : Stage σ ω ε α).FailsOnly P := nofun

protected theorem emit (w : ω) : (emit w : Stage σ ω ε Unit).FailsOnly P := nofun

protected theorem emitAll (ws : List ω) : (emitAll ws : Stage σ ω ε Unit).FailsOnly P := nofun

protected theorem update (f : σ → α × σ) : (update f : Stage σ ω ε α).FailsOnly P := nofun

protected theorem fail {e : ε} (h : P e) : (fail e : Stage σ ω ε α).FailsOnly P := by
  rintro s _ ⟨⟩
  exact h

/-- Two stages in a row; the second matters only for values that the first gives. -/
theorem bind_run (hx : x.FailsOnly P)
    (hf : ∀ a s s' out, x.run s = ⟨.ok a, s', out⟩ → (f a).FailsOnly P) :
    (x >>= f).FailsOnly P := by
  intro s e he
  rcases hrun : x.run s with ⟨e' | a, s₁, out⟩
  · rw [bind_run_error f hrun] at he
    cases he
    exact hx s e (by rw [hrun])
  · rw [bind_run_ok hrun] at he
    exact hf a s s₁ out hrun s₁ e he

theorem bind (hx : x.FailsOnly P) (hf : ∀ a, (f a).FailsOnly P) : (x >>= f).FailsOnly P :=
  hx.bind_run fun a _ _ _ _ => hf a

protected theorem ite {b : Prop} [Decidable b] {y : Stage σ ω ε α} (hx : x.FailsOnly P)
    (hy : y.FailsOnly P) : (if b then x else y).FailsOnly P := by
  split
  · exact hx
  · exact hy

theorem collect {g : List ω → List ω'} {x : Stage σ ω ε Unit} (hx : x.FailsOnly P) :
    (x.collect g).FailsOnly P := by
  intro s e he
  rcases hrun : x.run s with ⟨e' | u, s₁, out⟩
  · have hcollect : (x.collect g).run s = ⟨.error e', s₁, g out⟩ := by
      rw [Stage.run] at hrun
      rw [Stage.run, Stage.collect, hrun]
      rfl
    rw [hcollect] at he
    cases he
    exact hx s e (by rw [hrun])
  · rw [collect_ok_iff.2 ⟨hrun, rfl⟩] at he
    cases he

theorem mapM' {l : List α} (h : ∀ a ∈ l, (f a).FailsOnly P) : (l.mapM' f).FailsOnly P := by
  induction l with
  | nil => exact .pure []
  | cons a l ih =>
    rw [List.forall_mem_cons] at h
    exact .bind h.1 fun b => .bind (ih h.2) fun bs => .pure (b :: bs)

end FailsOnly

/-- A run over a list that ends well goes through a member from where the members before it have
led. -/
theorem mapM'_append_cons_ok {f : α → Stage σ ω ε β} {l l' : List α} {a : α}
    {s s' : σ} {bs : List β} {out : List ω}
    (h : ((l ++ a :: l').mapM' f).run s = ⟨.ok bs, s', out⟩) :
    ∃ first b rest s₁ o₁ s₂ o₂, (l.mapM' f).run s = ⟨.ok first, s₁, o₁⟩ ∧
      (f a).run s₁ = ⟨.ok b, s₂, o₂⟩ ∧ bs = first ++ b :: rest ∧ first.length = l.length := by
  induction l generalizing s s' bs out with
  | nil =>
    simp only [List.nil_append, List.mapM'_cons, bind_ok_iff, pure_ok_iff] at h
    obtain ⟨b, s₂, o₂, _, ha, ⟨rest, _, _, _, -, ⟨rfl, -⟩, -⟩, -⟩ := h
    exact ⟨[], b, rest, s, [], s₂, o₂, rfl, ha, rfl, rfl⟩
  | cons c l ih =>
    simp only [List.cons_append, List.mapM'_cons, bind_ok_iff, pure_ok_iff] at h
    obtain ⟨b, s₁, o₁, _, hc, ⟨bs', _, _, _, hl, ⟨rfl, -⟩, -⟩, -⟩ := h
    obtain ⟨first, b', rest, s₂, o₂, s₃, o₃, hfirst, hb', rfl, hlength⟩ := ih hl
    refine ⟨b :: first, b', rest, s₂, o₁ ++ o₂, s₃, o₃, ?_, hb', rfl, congrArg Nat.succ hlength⟩
    simp only [List.mapM'_cons, bind_ok_iff, pure_ok_iff]
    exact ⟨b, s₁, o₁, o₂, hc,
      ⟨first, s₂, o₂, [], hfirst, ⟨rfl, rfl, rfl⟩, (List.append_nil _).symm⟩, rfl⟩

/-- A run over a list that ends well has ended well for each member, and has no other results. -/
theorem mapM'_ok {f : α → Stage σ ω ε β} {l : List α} {s s' : σ} {bs : List β} {out : List ω}
    (h : (l.mapM' f).run s = ⟨.ok bs, s', out⟩) :
    (∀ a ∈ l, ∃ b ∈ bs, ∃ s₁ s₂ o, (f a).run s₁ = ⟨.ok b, s₂, o⟩) ∧
      ∀ b ∈ bs, ∃ a ∈ l, ∃ s₁ s₂ o, (f a).run s₁ = ⟨.ok b, s₂, o⟩ := by
  induction l generalizing s s' bs out with
  | nil =>
    obtain ⟨rfl, -, -⟩ := pure_ok_iff.1 h
    exact ⟨nofun, nofun⟩
  | cons a l ih =>
    simp only [List.mapM'_cons, bind_ok_iff, pure_ok_iff] at h
    obtain ⟨b, s₁, o₁, _, ha, ⟨bs', s₂, o₂, _, hl, ⟨rfl, -⟩, -⟩, -⟩ := h
    obtain ⟨hleft, hright⟩ := ih hl
    have hrun : ∃ s₁ s₂ o, (f a).run s₁ = ⟨.ok b, s₂, o⟩ := ⟨s, s₁, o₁, ha⟩
    constructor
    · rw [List.forall_mem_cons]
      refine ⟨⟨b, List.mem_cons_self .., hrun⟩, fun a' ha' => ?_⟩
      obtain ⟨b', hb', hrun'⟩ := hleft a' ha'
      exact ⟨b', List.mem_cons_of_mem _ hb', hrun'⟩
    · rw [List.forall_mem_cons]
      refine ⟨⟨a, List.mem_cons_self .., hrun⟩, fun b' hb' => ?_⟩
      obtain ⟨a', ha', hrun'⟩ := hright b' hb'
      exact ⟨a', List.mem_cons_of_mem _ ha', hrun'⟩

/-- What each member adds is put together in order, with the states in between. -/
theorem mapM'_related {γ : Type} {f : α → Stage σ ω ε β} {g : β → List γ}
    {R : σ → σ → List γ → Prop} (nil : ∀ s, R s s [])
    (append : ∀ {s s₁ s₂ k₁ k₂}, R s s₁ k₁ → R s₁ s₂ k₂ → R s s₂ (k₁ ++ k₂))
    (step : ∀ {a s b s' o}, (f a).run s = ⟨.ok b, s', o⟩ → R s s' (g b)) {l : List α} {s s' : σ}
    {bs : List β} {out : List ω} (h : (l.mapM' f).run s = ⟨.ok bs, s', out⟩) :
    R s s' (bs.flatMap g) := by
  induction l generalizing s bs out with
  | nil =>
    obtain ⟨rfl, rfl, -⟩ := pure_ok_iff.1 h
    exact nil s'
  | cons a l ih =>
    simp only [List.mapM'_cons, bind_ok_iff, pure_ok_iff] at h
    obtain ⟨b, s₁, o₁, _, ha, ⟨bs', s₂, o₂, _, hl, ⟨rfl, rfl, -⟩, -⟩, -⟩ := h
    rw [List.flatMap_cons]
    exact append (step ha) (ih hl)

end Stage

/-! ## Stages whose faults do not depend on the state -/

/-- The fault that a result is, if it is one. -/
def faultOf {ε α : Type} : Except ε α → Option ε
  | .ok _ => none
  | .error e => some e

section

variable {σ ω ω' ε α β : Type}

theorem faultOf_eq_none_iff {r : Except ε α} : faultOf r = none ↔ ∃ a, r = .ok a := by
  cases r <;> simp [faultOf]

theorem faultOf_eq_some_iff {r : Except ε α} {e : ε} : faultOf r = some e ↔ r = .error e := by
  cases r <;> simp [faultOf]

theorem faultOf_bind {r : Except ε α} {f : α → Except ε β} {fault : Option ε}
    (h : ∀ a, faultOf (f a) = fault) : faultOf (r >>= f) = (faultOf r).or fault := by
  cases r with
  | error e => rfl
  | ok a => exact h a

theorem faultOf_map {r : Except ε α} {f : α → β} :
    faultOf (r >>= fun a => .ok (f a)) = faultOf r := by
  cases r <;> rfl

/-- From every state the stage stops with the fault, or ends well if there is none. -/
def Stage.FailsWith (x : Stage σ ω ε α) (fault : Option ε) : Prop :=
  ∀ s, faultOf (x.run s).result = fault

namespace Stage.FailsWith

variable {x : Stage σ ω ε α} {f : α → Stage σ ω ε β} {fault fault' : Option ε}

protected theorem pure (a : α) : (pure a : Stage σ ω ε α).FailsWith none := fun _ => rfl

protected theorem emit (w : ω) : (emit w : Stage σ ω ε Unit).FailsWith none := fun _ => rfl

protected theorem emitAll (ws : List ω) :
    (emitAll ws : Stage σ ω ε Unit).FailsWith none := fun _ => rfl

protected theorem update (f : σ → α × σ) : (update f : Stage σ ω ε α).FailsWith none := fun _ => rfl

protected theorem fail (e : ε) : (fail e : Stage σ ω ε α).FailsWith (some e) := fun _ => rfl

protected theorem ofExcept (r : Except ε α) :
    (ofExcept r : Stage σ ω ε α).FailsWith (faultOf r) := by
  intro s
  cases r <;> rfl

/-- Of two stages in a row, the first one that fails counts. -/
theorem bind (hx : x.FailsWith fault) (hf : ∀ a, (f a).FailsWith fault') :
    (x >>= f).FailsWith (fault.or fault') := by
  intro s
  rw [← hx s]
  rcases hrun : x.run s with ⟨e | a, s₁, out⟩
  · rw [bind_run_error f hrun]
    rfl
  · rw [bind_run_ok hrun]
    exact hf a s₁

theorem collect {g : List ω → List ω'} {x : Stage σ ω ε Unit} (hx : x.FailsWith fault) :
    (x.collect g).FailsWith fault := by
  intro s
  rw [← hx s, run, Stage.collect, run]
  cases (x s).result <;> rfl

/-- A step that cannot fail, before the rest. -/
theorem after (hx : x.FailsWith none) (hf : ∀ a, (f a).FailsWith fault) :
    (x >>= f).FailsWith fault := by
  rw [← Option.none_or (o := fault)]
  exact hx.bind hf

/-- A step that cannot fail, after the rest. -/
theorem before (hx : x.FailsWith fault) (hf : ∀ a, (f a).FailsWith none) :
    (x >>= f).FailsWith fault := by
  rw [← Option.or_none (o := fault)]
  exact hx.bind hf

end Stage.FailsWith

end

/-! ## What a stage gives and writes -/

namespace Stage

variable {σ ω ω' ε α β γ : Type}

/-- All values that the stage gives are in `V`, and all items that it writes in `P`, also before a
fault. -/
def Ensures (x : Stage σ ω ε α) (V : α → Prop) (P : ω → Prop) : Prop :=
  ∀ s, (∀ w ∈ (x.run s).output, P w) ∧ ∀ a, (x.run s).result = .ok a → V a

namespace Ensures

variable {V : α → Prop} {W : β → Prop} {P : ω → Prop} {x : Stage σ ω ε α} {f : α → Stage σ ω ε β}

protected theorem pure {a : α} (h : V a) : (pure a : Stage σ ω ε α).Ensures V P := by
  intro s
  refine ⟨List.forall_mem_nil _, ?_⟩
  rintro _ ⟨⟩
  exact h

protected theorem fail (e : ε) : (fail e : Stage σ ω ε α).Ensures V P := by
  intro s
  refine ⟨List.forall_mem_nil _, ?_⟩
  rintro _ ⟨⟩

protected theorem update {f : σ → α × σ} (h : ∀ s, V (f s).1) :
    (update f : Stage σ ω ε α).Ensures V P := by
  intro s
  refine ⟨List.forall_mem_nil _, ?_⟩
  rintro _ ⟨⟩
  exact h s

protected theorem emit {w : ω} (h : P w) : (emit w : Stage σ ω ε Unit).Ensures (fun _ => True) P :=
  fun _ => ⟨List.forall_mem_singleton.2 h, fun _ _ => trivial⟩

protected theorem emitAll {ws : List ω} (h : ∀ w ∈ ws, P w) :
    (emitAll ws : Stage σ ω ε Unit).Ensures (fun _ => True) P :=
  fun _ => ⟨h, fun _ _ => trivial⟩

protected theorem ofExcept {r : Except ε α} (h : ∀ a, r = .ok a → V a) :
    (ofExcept r : Stage σ ω ε α).Ensures V P := by
  cases r with
  | error e => exact .fail e
  | ok a => exact .pure (h a rfl)

/-- The second stage may rely on what the first gives. -/
theorem bind (hx : x.Ensures V P) (hf : ∀ a, V a → (f a).Ensures W P) : (x >>= f).Ensures W P := by
  intro s
  obtain ⟨hout, hval⟩ := hx s
  rcases hrun : x.run s with ⟨e | a, s₁, out⟩
  · rw [hrun] at hout
    rw [bind_run_error f hrun]
    refine ⟨hout, ?_⟩
    rintro _ ⟨⟩
  · rw [hrun] at hout hval
    obtain ⟨hnext, hlast⟩ := hf a (hval a rfl) s₁
    rw [bind_run_ok hrun]
    exact ⟨List.forall_mem_append.2 ⟨hout, hnext⟩, hlast⟩

end Ensures

/-! ## Labels on what is written -/

/-- The stage with a label on each item that it writes. -/
def labelled (l : γ) (x : Stage σ ω ε α) : Stage σ (γ × ω) ε α := fun s =>
  let o := x.run s
  ⟨o.result, o.state, o.output.map fun w => (l, w)⟩

/-- The stage without the labels of its items. -/
def unlabelled (x : Stage σ (γ × ω) ε α) : Stage σ ω ε α := fun s =>
  let o := x.run s
  ⟨o.result, o.state, o.output.map Prod.snd⟩

theorem unlabelled_labelled (l : γ) (x : Stage σ ω ε α) : (x.labelled l).unlabelled = x := by
  apply ext
  intro s
  show Outcome.mk (x.run s).result (x.run s).state
    (((x.run s).output.map fun w => (l, w)).map Prod.snd) =
    x.run s
  rw [List.map_map]
  show Outcome.mk _ _ ((x.run s).output.map id) = _
  rw [List.map_id]

theorem unlabelled_bind (x : Stage σ (γ × ω) ε α) (f : α → Stage σ (γ × ω) ε β) :
    (x >>= f).unlabelled = x.unlabelled >>= fun a => (f a).unlabelled := by
  apply ext
  intro s
  rcases hrun : x.run s with ⟨e | a, s₁, out⟩
  · have hx : x.unlabelled.run s = ⟨.error e, s₁, out.map Prod.snd⟩ := by
      rw [run, unlabelled, hrun]
    rw [bind_run_error _ hx, run, unlabelled, bind_run_error f hrun]
  · have hx : x.unlabelled.run s = ⟨.ok a, s₁, out.map Prod.snd⟩ := by
      rw [run, unlabelled, hrun]
    rw [bind_run_ok hx, run, unlabelled, bind_run_ok hrun]
    simp only [List.map_append]
    rfl

theorem unlabelled_emit (l : γ) (w : ω) :
    (emit (l, w) : Stage σ (γ × ω) ε Unit).unlabelled = emit w := rfl

theorem Ensures.labelled {l : γ} {x : Stage σ ω ε α} {V : α → Prop} {P : γ × ω → Prop}
    (hx : x.Ensures V fun w => P (l, w)) : (x.labelled l).Ensures V P := by
  intro s
  refine ⟨?_, (hx s).2⟩
  intro q hq
  obtain ⟨w, hw, rfl⟩ := List.mem_map.1 hq
  exact (hx s).1 w hw

end Stage

end MiniJava
