import MiniJava.Proofs.Stage
import Mathlib.Data.List.Forall2

/-!
# Stages side by side

Two stages go in lockstep if from related states they come to related states, both with a value or
both with a fault, and what they give and write is related (`Stage.Lockstep`). They are alike if the
states are even the same (`Stage.Alike`). Stages that are put together from such parts are of this
kind, too, so a comparison of two runs of the compiler is a comparison of their parts.
-/

namespace MiniJava

variable {σ σ' ω ω' ε ε' α α' β β' : Type}

/-- What follows from a relation for members of the lists holds along both. -/
theorem forall₂_imp_mem {R Q : α → β → Prop} {l : List α} {l' : List β} (h : List.Forall₂ R l l')
    (himp : ∀ a ∈ l, ∀ b ∈ l', R a b → Q a b) : List.Forall₂ Q l l' := by
  induction h with
  | nil => exact .nil
  | cons hab _ ih =>
    refine .cons (himp _ List.mem_cons_self _ List.mem_cons_self hab) (ih fun a ha b hb => ?_)
    exact himp a (List.mem_cons_of_mem _ ha) b (List.mem_cons_of_mem _ hb)

theorem exists_mem_of_forall₂ {R : α → β → Prop} {l : List α} {l' : List β}
    (h : List.Forall₂ R l l') {b : β} (hb : b ∈ l') : ∃ a ∈ l, R a b := by
  induction h with
  | nil => cases hb
  | cons hab _ ih =>
    rcases List.mem_cons.1 hb with rfl | hb
    · exact ⟨_, List.mem_cons_self, hab⟩
    · obtain ⟨a, ha, hR⟩ := ih hb
      exact ⟨a, List.mem_cons_of_mem _ ha, hR⟩

theorem map_eq_of_forall₂ {f g : α → β} {l l' : List α}
    (h : List.Forall₂ (fun a a' => g a' = f a) l l') : l'.map g = l.map f := by
  induction h with
  | nil => rfl
  | cons ha _ ih => rw [List.map_cons, List.map_cons, ha, ih]

/-- Both are values, or both are faults, and they are related. -/
inductive ResultsAlike (E : ε → ε' → Prop) (V : α → α' → Prop) : Except ε α → Except ε' α' → Prop
  | ok {a : α} {a' : α'} : V a a' → ResultsAlike E V (.ok a) (.ok a')
  | error {e : ε} {e' : ε'} : E e e' → ResultsAlike E V (.error e) (.error e')

theorem ResultsAlike.mono {E F : ε → ε' → Prop} {V W : α → α' → Prop} {r : Except ε α}
    {r' : Except ε' α'} (h : ResultsAlike E V r r') (hE : ∀ e e', E e e' → F e e')
    (hV : ∀ a a', V a a' → W a a') : ResultsAlike F W r r' := by
  cases h with
  | ok hv => exact .ok (hV _ _ hv)
  | error he => exact .error (hE _ _ he)

theorem ResultsAlike.bind {E : ε → ε' → Prop} {V : α → α' → Prop} {W : β → β' → Prop}
    {r : Except ε α} {r' : Except ε' α'} (h : ResultsAlike E V r r') {f : α → Except ε β}
    {g : α' → Except ε' β'} (hfg : ∀ a a', V a a' → ResultsAlike E W (f a) (g a')) :
    ResultsAlike E W (r >>= f) (r' >>= g) := by
  cases h with
  | ok hv => exact hfg _ _ hv
  | error he => exact .error he

theorem ResultsAlike.refl (r : Except ε α) : ResultsAlike Eq Eq r r := by
  cases r with
  | ok a => exact .ok rfl
  | error e => exact .error rfl

theorem ResultsAlike.eq {r r' : Except ε α} (h : ResultsAlike Eq Eq r r') : r = r' := by
  cases h with
  | ok ha => rw [ha]
  | error he => rw [he]

theorem ResultsAlike.ok_iff {E : ε → ε' → Prop} {r : Except ε α} {r' : Except ε' α}
    (h : ResultsAlike E Eq r r') (a : α) : r = .ok a ↔ r' = .ok a := by
  cases h with
  | ok ha => rw [ha, Except.ok.injEq, Except.ok.injEq]
  | error _ => simp only [reduceCtorEq]

/-- The relation between outputs holds for outputs in a row. -/
structure Joins (O : List ω → List ω' → Prop) : Prop where
  nil : O [] []
  append : ∀ {a a' b b'}, O a a' → O b b' → O (a ++ b) (a' ++ b')

theorem joins_eq : Joins (Eq : List ω → List ω → Prop) where
  nil := rfl
  append := by
    intro a a' b b' ha hb
    rw [ha, hb]

theorem joins_forall₂ (R : ω → ω' → Prop) : Joins (List.Forall₂ R) where
  nil := .nil
  append := fun ha hb => List.rel_append ha hb

theorem joins_map (f : ω → ω') : Joins fun out out' => out' = out.map f where
  nil := rfl
  append := by
    rintro a _ b _ rfl rfl
    exact List.map_append.symm

theorem joins_true : Joins fun (_ : List ω) (_ : List ω') => True where
  nil := trivial
  append := fun _ _ => trivial

/-! ## Related states -/

structure Outcome.Lockstep (S : σ → σ' → Prop) (O : List ω → List ω' → Prop) (E : ε → ε' → Prop)
    (V : α → α' → Prop) (o : Outcome σ ω ε α) (o' : Outcome σ' ω' ε' α') : Prop where
  result : ResultsAlike E V o.result o'.result
  state : S o.state o'.state
  output : O o.output o'.output

namespace Stage

/-- From related states the stages come to related states, with related results and output. -/
def Lockstep (S : σ → σ' → Prop) (O : List ω → List ω' → Prop) (E : ε → ε' → Prop)
    (V : α → α' → Prop) (x : Stage σ ω ε α) (y : Stage σ' ω' ε' α') : Prop :=
  ∀ s s', S s s' → (x.run s).Lockstep S O E V (y.run s')

namespace Lockstep

variable {S : σ → σ' → Prop} {O : List ω → List ω' → Prop} {E : ε → ε' → Prop} {V : α → α' → Prop}
  {W : β → β' → Prop} {x : Stage σ ω ε α} {y : Stage σ' ω' ε' α'}

protected theorem pure (hO : Joins O) {a : α} {a' : α'} (h : V a a') :
    Lockstep S O E V (pure a : Stage σ ω ε α) (pure a') :=
  fun _ _ hs => ⟨.ok h, hs, hO.nil⟩

protected theorem fail (hO : Joins O) {e : ε} {e' : ε'} (h : E e e') :
    Lockstep S O E V (fail e : Stage σ ω ε α) (fail e') :=
  fun _ _ hs => ⟨.error h, hs, hO.nil⟩

protected theorem emitAll {ws : List ω} {ws' : List ω'} (h : O ws ws') :
    Lockstep S O E Eq (emitAll ws : Stage σ ω ε Unit) (emitAll ws') :=
  fun _ _ hs => ⟨.ok rfl, hs, h⟩

protected theorem bind (hO : Joins O) (h : Lockstep S O E V x y) {f : α → Stage σ ω ε β}
    {g : α' → Stage σ' ω' ε' β'} (hf : ∀ a a', V a a' → Lockstep S O E W (f a) (g a')) :
    Lockstep S O E W (x >>= f) (y >>= g) := by
  intro s s' hs
  have hfirst := h s s' hs
  rcases hx : x.run s with ⟨rx, sx, ox⟩
  rcases hy : y.run s' with ⟨ry, sy, oy⟩
  rw [hx, hy] at hfirst
  obtain ⟨hresult, hstate, houtput⟩ := hfirst
  dsimp only at hresult hstate houtput
  cases hresult with
  | ok hv =>
    rw [bind_run_ok hx, bind_run_ok hy]
    have hnext := hf _ _ hv sx sy hstate
    exact ⟨hnext.result, hnext.state, hO.append houtput hnext.output⟩
  | error he =>
    rw [bind_run_error f hx, bind_run_error g hy]
    exact ⟨.error he, hstate, houtput⟩

/-- What the first stage does to its state before it starts is not seen by the second. -/
theorem enter {T : σ → σ' → Prop} {f : σ → σ} (hin : ∀ s s', S s s' → T (f s) s')
    (hout : ∀ s s', T s s' → S s s') (h : Lockstep T O E V x y) :
    Lockstep S O E V (update (fun s => ((), f s)) >>= fun _ => x) y := by
  intro s s' hs
  have hrun := h (f s) s' (hin s s' hs)
  exact ⟨hrun.result, hout _ _ hrun.state, hrun.output⟩

/-- What two stages write becomes their value. -/
theorem collect {x : Stage σ ω ε Unit} {y : Stage σ' ω' ε' Unit} {V : Unit → Unit → Prop}
    (h : Lockstep S O E V x y) {τ τ' : Type} {P : List τ → List τ' → Prop} {f : List ω → List τ}
    {g : List ω' → List τ'} (hfg : ∀ a b, O a b → P (f a) (g b)) :
    Lockstep S P E O (x.collect f) (y.collect g) := by
  intro s s' hs
  have hboth := h s s' hs
  refine ⟨?_, hboth.state, hfg _ _ hboth.output⟩
  show ResultsAlike E O ((x.run s).result.map fun _ => (x.run s).output)
    ((y.run s').result.map fun _ => (y.run s').output)
  rcases hx : x.run s with ⟨rx, sx, ox⟩
  rcases hy : y.run s' with ⟨ry, sy, oy⟩
  rw [hx, hy] at hboth
  obtain ⟨hresult, -, houtput⟩ := hboth
  dsimp only at hresult houtput ⊢
  cases hresult with
  | ok _ => exact .ok houtput
  | error he => exact .error he

/-- A run over two lists, member by member. -/
theorem mapM' (hO : Joins O) {f : α → Stage σ ω ε β} {g : α' → Stage σ' ω' ε' β'} {l : List α}
    {l' : List α'} (h : List.Forall₂ (fun a a' => Lockstep S O E W (f a) (g a')) l l') :
    Lockstep S O E (List.Forall₂ W) (l.mapM' f) (l'.mapM' g) := by
  induction h with
  | nil => exact .pure hO .nil
  | cons ha _ ih =>
    rw [List.mapM'_cons, List.mapM'_cons]
    exact .bind hO ha fun b b' hb => .bind hO ih fun bs bs' hbs => .pure hO (.cons hb hbs)

end Lockstep

end Stage

/-! ## Equal states -/

structure Outcome.Alike (O : List ω → List ω' → Prop) (E : ε → ε' → Prop) (V : α → α' → Prop)
    (o : Outcome σ ω ε α) (o' : Outcome σ ω' ε' α') : Prop where
  result : ResultsAlike E V o.result o'.result
  state : o'.state = o.state
  output : O o.output o'.output

namespace Stage

/-- From the same state the stages come to the same state, with related results and output. -/
def Alike (O : List ω → List ω' → Prop) (E : ε → ε' → Prop) (V : α → α' → Prop)
    (x : Stage σ ω ε α) (y : Stage σ ω' ε' α') : Prop :=
  ∀ s, (x.run s).Alike O E V (y.run s)

namespace Alike

variable {O : List ω → List ω' → Prop} {E : ε → ε' → Prop} {V : α → α' → Prop} {W : β → β' → Prop}
  {x : Stage σ ω ε α} {y : Stage σ ω' ε' α'}

protected theorem pure (hO : Joins O) {a : α} {a' : α'} (h : V a a') :
    Alike O E V (pure a : Stage σ ω ε α) (pure a') :=
  fun _ => ⟨.ok h, rfl, hO.nil⟩

/-- Every stage is like itself. -/
protected theorem refl {E : ε → ε → Prop} (x : Stage σ ω ε α) (hE : ∀ e, E e e) :
    Alike Eq E Eq x x := by
  intro s
  refine ⟨?_, rfl, rfl⟩
  cases (x.run s).result with
  | ok a => exact .ok rfl
  | error e => exact .error (hE e)

protected theorem fail (hO : Joins O) {e : ε} {e' : ε'} (h : E e e') :
    Alike O E V (fail e : Stage σ ω ε α) (fail e') :=
  fun _ => ⟨.error h, rfl, hO.nil⟩

protected theorem emitAll {ws : List ω} {ws' : List ω'} (h : O ws ws') :
    Alike O E Eq (emitAll ws : Stage σ ω ε Unit) (emitAll ws') :=
  fun _ => ⟨.ok rfl, rfl, h⟩

protected theorem emit {w : ω} {w' : ω'} (h : O [w] [w']) :
    Alike O E Eq (emit w : Stage σ ω ε Unit) (emit w') :=
  Alike.emitAll h

protected theorem update (hO : Joins O) (f : σ → α × σ) :
    Alike O E Eq (update f : Stage σ ω ε α) (update f) :=
  fun _ => ⟨.ok rfl, rfl, hO.nil⟩

/-- Alike stages are those that go in lockstep with equal states. -/
theorem iff_lockstep : Alike O E V x y ↔ Lockstep (fun s s' => s' = s) O E V x y := by
  constructor
  · intro h s s' hs
    rw [hs]
    exact ⟨(h s).result, (h s).state, (h s).output⟩
  · intro h s
    have hs := h s s rfl
    exact ⟨hs.result, hs.state, hs.output⟩

protected theorem bind (hO : Joins O) (h : Alike O E V x y) {f : α → Stage σ ω ε β}
    {g : α' → Stage σ ω' ε' β'} (hf : ∀ a a', V a a' → Alike O E W (f a) (g a')) :
    Alike O E W (x >>= f) (y >>= g) :=
  iff_lockstep.2 (.bind hO (iff_lockstep.1 h) fun a a' ha => iff_lockstep.1 (hf a a' ha))

theorem mono (h : Alike O E V x y) {O' : List ω → List ω' → Prop} {E' : ε → ε' → Prop}
    {V' : α → α' → Prop} (hO : ∀ a b, O a b → O' a b) (hE : ∀ a b, E a b → E' a b)
    (hV : ∀ a b, V a b → V' a b) : Alike O' E' V' x y := by
  intro s
  have hs := h s
  exact ⟨hs.result.mono hE hV, hs.state, hO _ _ hs.output⟩

protected theorem ofExcept (hO : Joins O) {r : Except ε α} {r' : Except ε' α'}
    (h : ResultsAlike E V r r') : Alike O E V (ofExcept r : Stage σ ω ε α) (ofExcept r') := by
  cases h with
  | ok hv => exact .pure hO hv
  | error he => exact .fail hO he

/-- What two stages write becomes their value. -/
theorem collect {x : Stage σ ω ε Unit} {y : Stage σ ω' ε' Unit} {V : Unit → Unit → Prop}
    (h : Alike O E V x y) {τ τ' : Type} {P : List τ → List τ' → Prop} {f : List ω → List τ}
    {g : List ω' → List τ'} (hfg : ∀ a b, O a b → P (f a) (g b)) :
    Alike P E O (x.collect f) (y.collect g) :=
  iff_lockstep.2 ((iff_lockstep.1 h).collect hfg)

/-- A run over two lists, member by member. -/
theorem mapM' (hO : Joins O) {f : α → Stage σ ω ε β} {g : α' → Stage σ ω' ε' β'} {l : List α}
    {l' : List α'} (h : List.Forall₂ (fun a a' => Alike O E W (f a) (g a')) l l') :
    Alike O E (List.Forall₂ W) (l.mapM' f) (l'.mapM' g) :=
  iff_lockstep.2 (.mapM' hO (h.imp fun _ _ ha => iff_lockstep.1 ha))

end Alike

/-- A run over a list that ends well has a result for each member, in order. -/
theorem forall₂_of_mapM' {f : α → Stage σ ω ε β} {l : List α} {s s' : σ} {bs : List β}
    {out : List ω} (h : (l.mapM' f).run s = ⟨.ok bs, s', out⟩) :
    List.Forall₂ (fun a b => ∃ s₁ s₂ o, (f a).run s₁ = ⟨.ok b, s₂, o⟩) l bs := by
  induction l generalizing s s' bs out with
  | nil =>
    obtain ⟨rfl, -, -⟩ := pure_ok_iff.1 h
    exact .nil
  | cons a l ih =>
    simp only [List.mapM'_cons, bind_ok_iff, pure_ok_iff] at h
    obtain ⟨b, s₁, o₁, _, ha, ⟨bs', s₂, o₂, _, hl, ⟨rfl, -⟩, -⟩, -⟩ := h
    exact .cons ⟨s, s₁, o₁, ha⟩ (ih hl)

end Stage

end MiniJava
