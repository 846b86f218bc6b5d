import MiniJava.Proofs.Semantics.World

/-!
# Running labelled code

The three-address code and the stack machine have the same kind of control: a program counter that
moves on by one, and jumps to labels that stand in the code. A `Machine` says what each single
instruction does with the data of the machine; `Machine.step` is one step of a program,
`Machine.Reaches` several steps and `Machine.Runs` a run to its end, with everything that was
requested of the world on the way.

To show that a piece of code does what a computation says, we use `Machine.Realizes`: from a state
of the machine, whenever the computation gives a value, the machine gets to a state that fits the
value, and whenever the computation stops early, so does the machine, both after the same requests.
Computations in a row are realized by pieces of code in a row (`Realizes.bind`).
-/

namespace MiniJava

variable {O : Type} {W : World O} {ι δ α β : Type}

/-! ## Machines -/

/-- What a method gives back, if anything. -/
abbrev Result (W : World O) : Type := Option (Value W.Ref)

/-- Where control goes after an instruction, and with which data. -/
inductive Flow (W : World O) (δ : Type) where
  | next (data : δ)
  | jump (label : String) (data : δ)
  | done (result : Result W)

/-- The state of a machine with data of type `δ`. -/
structure Control (δ : Type) where
  pc : Nat
  data : δ

/-- What a step leads to. -/
inductive Next (W : World O) (δ : Type) where
  | go (state : Control δ)
  | done (result : Result W)

/-- How instructions of type `ι` work on data of type `δ`. -/
structure Machine (W : World O) (ι δ : Type) where
  /-- The label that an instruction sets. -/
  label? : ι → Option String
  exec : ι → δ → Run W (Flow W δ)

namespace Machine

variable (M : Machine W ι δ) (code : List ι)

/-- The place of the first instruction that sets the label. -/
def labelAt (l : String) : Option Nat := code.findIdx? fun i => M.label? i == some l

/-- The state that control goes to from `pc`. -/
def follow (pc : Nat) : Flow W δ → Run W (Next W δ)
  | .next d => pure (.go ⟨pc + 1, d⟩)
  | .jump l d =>
    match M.labelAt code l with
    | some k => pure (.go ⟨k, d⟩)
    | none => Stage.fail .stuck
  | .done v => pure (.done v)

/-- One step of a program. There is none behind the end of the code. -/
def step (s : Control δ) : Run W (Next W δ) :=
  match code[s.pc]? with
  | some i => do
    let flow ← M.exec i s.data
    M.follow code s.pc flow
  | none => Stage.fail .stuck

/-- Several steps, with the requests that they make. -/
inductive Reaches : Control δ → W.Heap → List (Request O W.Ref) → Control δ → W.Heap → Prop
  | refl (s : Control δ) (h : W.Heap) : Reaches s h [] s h
  | step {s s₁ s₂ : Control δ} {h h₁ h₂ : W.Heap} {t₁ t₂ : List (Request O W.Ref)} :
      (M.step code s).run h = ⟨.ok (.go s₁), h₁, t₁⟩ → Reaches s₁ h₁ t₂ s₂ h₂ →
      Reaches s h (t₁ ++ t₂) s₂ h₂

/-- A run to the end: a result, or the reason why it stopped early. -/
inductive Runs : Control δ → W.Heap →
    Outcome W.Heap (Request O W.Ref) (Halt W.Fault) (Result W) → Prop
  | done {s : Control δ} {h h' : W.Heap} {t : List (Request O W.Ref)} {v : Result W} :
      (M.step code s).run h = ⟨.ok (.done v), h', t⟩ → Runs s h ⟨.ok v, h', t⟩
  | halt {s : Control δ} {h h' : W.Heap} {t : List (Request O W.Ref)} {e : Halt W.Fault} :
      (M.step code s).run h = ⟨.error e, h', t⟩ → Runs s h ⟨.error e, h', t⟩
  | step {s s₁ : Control δ} {h h₁ h₂ : W.Heap} {t₁ t₂ : List (Request O W.Ref)}
      {r : Except (Halt W.Fault) (Result W)} :
      (M.step code s).run h = ⟨.ok (.go s₁), h₁, t₁⟩ → Runs s₁ h₁ ⟨r, h₂, t₂⟩ →
      Runs s h ⟨r, h₂, t₁ ++ t₂⟩

variable {M code}

theorem Reaches.trans {s s₁ s₂ : Control δ} {h h₁ h₂ : W.Heap} {t₁ t₂ : List (Request O W.Ref)}
    (h₁₂ : M.Reaches code s h t₁ s₁ h₁) (h₂₃ : M.Reaches code s₁ h₁ t₂ s₂ h₂) :
    M.Reaches code s h (t₁ ++ t₂) s₂ h₂ := by
  induction h₁₂ with
  | refl => exact h₂₃
  | step hstep _ ih =>
    rw [List.append_assoc]
    exact .step hstep (ih h₂₃)

/-- Steps and then steps without requests. -/
theorem Reaches.skip {s s₁ s₂ : Control δ} {h h₁ h₂ : W.Heap} {t : List (Request O W.Ref)}
    (h₁₂ : M.Reaches code s h t s₁ h₁) (h₂₃ : M.Reaches code s₁ h₁ [] s₂ h₂) :
    M.Reaches code s h t s₂ h₂ := by
  have := h₁₂.trans h₂₃
  rwa [List.append_nil] at this

theorem Reaches.one {s s₁ : Control δ} {h h₁ : W.Heap} {t : List (Request O W.Ref)}
    (hstep : (M.step code s).run h = ⟨.ok (.go s₁), h₁, t⟩) : M.Reaches code s h t s₁ h₁ := by
  rw [← List.append_nil t]
  exact .step hstep (.refl s₁ h₁)

/-- What a run does after some steps it also does before them. -/
theorem Reaches.runs {s s₁ : Control δ} {h h₁ h₂ : W.Heap} {t₁ t₂ : List (Request O W.Ref)}
    {r : Except (Halt W.Fault) (Result W)} (hr : M.Reaches code s h t₁ s₁ h₁)
    (hruns : M.Runs code s₁ h₁ ⟨r, h₂, t₂⟩) : M.Runs code s h ⟨r, h₂, t₁ ++ t₂⟩ := by
  induction hr with
  | refl => exact hruns
  | step hstep _ ih =>
    rw [List.append_assoc]
    exact .step hstep (ih hruns)

/-- An instruction that ends the run. -/
theorem Runs.return {pc : Nat} {i : ι} {d : δ} {v : Result W} {h : W.Heap} (hi : code[pc]? = some i)
    (hexec : M.exec i d = pure (.done v)) : M.Runs code ⟨pc, d⟩ h ⟨.ok v, h, []⟩ := by
  refine .done ?_
  simp [Machine.step, hi, hexec, follow]

variable (M code) in
/-- The run from a state, if it ends within `n` steps. -/
def runFor : Nat → Control δ → W.Heap →
    Option (Outcome W.Heap (Request O W.Ref) (Halt W.Fault) (Result W))
  | 0, _, _ => none
  | n + 1, s, h =>
    match (M.step code s).run h with
    | ⟨.ok (.go s₁), h₁, t⟩ => do
      let o ← runFor n s₁ h₁
      some ⟨o.result, o.state, t ++ o.output⟩
    | ⟨.ok (.done v), h₁, t⟩ => some ⟨.ok v, h₁, t⟩
    | ⟨.error e, h₁, t⟩ => some ⟨.error e, h₁, t⟩

/-- A run to the end can be computed with enough steps. -/
theorem runs_iff {s : Control δ} {h : W.Heap}
    {o : Outcome W.Heap (Request O W.Ref) (Halt W.Fault) (Result W)} :
    M.Runs code s h o ↔ ∃ n, M.runFor code n s h = some o := by
  constructor
  · intro hruns
    induction hruns with
    | done hstep | halt hstep => exact ⟨1, by simp only [runFor, hstep]⟩
    | step hstep _ ih =>
      obtain ⟨n, hn⟩ := ih
      exact ⟨n + 1, by simp only [runFor, hstep, hn]; rfl⟩
  · rintro ⟨n, hn⟩
    induction n generalizing s h o with
    | zero => cases hn
    | succ n ih =>
      rcases hstep : (M.step code s).run h with ⟨e | s₁ | v, h₁, t⟩ <;>
        simp only [runFor, hstep] at hn
      · cases hn
        exact .halt hstep
      · obtain ⟨o₁, ho₁, hn⟩ := Option.bind_eq_some_iff.1 hn
        cases hn
        exact .step hstep (ih ho₁)
      · cases hn
        exact .done hstep

/-- A program does not run in two ways. -/
theorem Runs.unique {s : Control δ} {h : W.Heap}
    {o o' : Outcome W.Heap (Request O W.Ref) (Halt W.Fault) (Result W)} (ho : M.Runs code s h o)
    (ho' : M.Runs code s h o') : o = o' := by
  -- A step has one outcome, so the second run has to take it as well.
  induction ho generalizing o' with
  | done hstep =>
    cases ho' with
    | done hstep' =>
      rw [hstep] at hstep'
      cases hstep'
      rfl
    | halt hstep' | step hstep' =>
      rw [hstep] at hstep'
      cases hstep'
  | halt hstep =>
    cases ho' with
    | halt hstep' =>
      rw [hstep] at hstep'
      cases hstep'
      rfl
    | done hstep' | step hstep' =>
      rw [hstep] at hstep'
      cases hstep'
  | step hstep _ ih =>
    cases ho' with
    | done hstep' | halt hstep' =>
      rw [hstep] at hstep'
      cases hstep'
    | step hstep' hruns' =>
      rw [hstep] at hstep'
      cases hstep'
      cases ih hruns'
      rfl

theorem Reaches.next {pc : Nat} {i : ι} {d d' : δ} {h : W.Heap} (hi : code[pc]? = some i)
    (hexec : M.exec i d = pure (.next d')) : M.Reaches code ⟨pc, d⟩ h [] ⟨pc + 1, d'⟩ h := by
  refine .one ?_
  simp [Machine.step, hi, hexec, follow]

theorem Reaches.jump {pc k : Nat} {i : ι} {l : String} {d d' : δ} {h : W.Heap}
    (hi : code[pc]? = some i) (hexec : M.exec i d = pure (.jump l d'))
    (hl : M.labelAt code l = some k) : M.Reaches code ⟨pc, d⟩ h [] ⟨k, d'⟩ h := by
  refine .one ?_
  simp [Machine.step, hi, hexec, follow, hl]

/-- A label that is set only once is found where it is set. -/
theorem labelAt_of_nodup {k : Nat} {i : ι} {l : String}
    (hcode : (code.filterMap M.label?).Nodup) (hi : code[k]? = some i)
    (hl : M.label? i = some l) : M.labelAt code l = some k := by
  obtain ⟨hk, rfl⟩ := List.getElem?_eq_some_iff.1 hi
  rw [labelAt, List.findIdx?_eq_some_iff_getElem]
  refine ⟨hk, by simp [hl], ?_⟩
  intro j hj hset
  have hpair := List.pairwise_filterMap.1 hcode
  have hne := List.pairwise_iff_getElem.1 hpair j k (by omega) hk hj
  exact hne l (by simpa using hset) l hl rfl

/-! ## Realizing a computation -/

variable (M code) in
/-- From `s` the machine does what the computation does: it gets to a state that fits the value, or
stops for the same reason. Nothing is said where the computation has no meaning. -/
structure Realizes (s : Control δ) (x : Run W α) (post : α → Control δ → Prop) : Prop where
  ok : ∀ {h a h' t}, x.run h = ⟨.ok a, h', t⟩ → ∃ s', post a s' ∧ M.Reaches code s h t s' h'
  error : ∀ {h e h' t}, x.run h = ⟨.error e, h', t⟩ → e ≠ .stuck → M.Runs code s h ⟨.error e, h', t⟩

namespace Realizes

variable {s : Control δ} {x : Run W α} {post post' : α → Control δ → Prop}

protected theorem pure {a : α} (hp : post a s) : M.Realizes code s (pure a) post where
  ok h := by
    obtain ⟨rfl, rfl, rfl⟩ := Stage.pure_ok_iff.1 h
    exact ⟨s, hp, .refl _ _⟩
  error h := by simp at h

theorem stuck : M.Realizes code s (Stage.fail .stuck : Run W α) post where
  ok h := absurd h Stage.fail_ne_ok
  error h hne := by
    injection h with h
    injection h with h
    exact absurd h.symm hne

theorem mono (hx : M.Realizes code s x post) (himp : ∀ a s', post a s' → post' a s') :
    M.Realizes code s x post' where
  ok h := by
    obtain ⟨s', hp, hr⟩ := hx.ok h
    exact ⟨s', himp _ _ hp, hr⟩
  error h hne := hx.error h hne

/-- Computations in a row are realized by what realizes the first and then goes on from any state
that fits its value. -/
theorem bind {f : α → Run W β} {post' : β → Control δ → Prop} (hx : M.Realizes code s x post)
    (hf : ∀ a s', post a s' → M.Realizes code s' (f a) post') :
    M.Realizes code s (x >>= f) post' where
  ok h := by
    obtain ⟨a, h₁, t₁, t₂, hx', hf', rfl⟩ := Stage.bind_ok_iff.1 h
    obtain ⟨s₁, hp, hr⟩ := hx.ok hx'
    obtain ⟨s₂, hp', hr'⟩ := (hf a s₁ hp).ok hf'
    exact ⟨s₂, hp', hr.trans hr'⟩
  error := by
    intro h e h' t hrun hne
    rcases hx' : x.run h with ⟨e₁ | a, h₁, t₁⟩
    · rw [Stage.bind_run_error f hx'] at hrun
      injection hrun with hres hstate hout
      injection hres with hres
      subst hres hstate hout
      exact hx.error hx' hne
    · rw [Stage.bind_run_ok hx'] at hrun
      injection hrun with hres hstate hout
      obtain ⟨s₁, hp, hr⟩ := hx.ok hx'
      rw [← hout]
      refine hr.runs ((hf a s₁ hp).error ?_ hne)
      rw [← hres, ← hstate]

/-- Steps without requests before what realizes the computation. -/
theorem of_reaches {s₁ : Control δ} (hr : ∀ h, M.Reaches code s h [] s₁ h)
    (hx : M.Realizes code s₁ x post) : M.Realizes code s x post where
  ok hrun := by
    obtain ⟨s', hp, hr'⟩ := hx.ok hrun
    exact ⟨s', hp, (hr _).trans hr'⟩
  error hrun hne := (hr _).runs (hx.error hrun hne)

/-- An instruction realizes the computation that it makes before control goes on. -/
theorem instr {pc : Nat} {i : ι} {d : δ} {flow : α → Flow W δ} {k : α → Control δ}
    (hi : code[pc]? = some i) (hexec : M.exec i d = x >>= fun a => pure (flow a))
    (hflow : ∀ a, M.follow code pc (flow a) = pure (.go (k a))) :
    M.Realizes code ⟨pc, d⟩ x fun a s' => s' = k a := by
  have hstep : M.step code ⟨pc, d⟩ = x >>= fun a => pure (.go (k a)) := by
    simp [step, hi, hexec, hflow]
  constructor
  · intro h a h' t hx
    refine ⟨k a, rfl, Reaches.one ?_⟩
    rw [hstep, Stage.bind_run_ok hx]
    simp
  · intro h e h' t hx _
    refine Runs.halt ?_
    rw [hstep, Stage.bind_run_error _ hx]

/-- An instruction after which control moves on by one. -/
theorem next {pc : Nat} {i : ι} {d : δ} {k : α → δ} (hi : code[pc]? = some i)
    (hexec : M.exec i d = x >>= fun a => pure (.next (k a))) :
    M.Realizes code ⟨pc, d⟩ x fun a s' => s' = ⟨pc + 1, k a⟩ :=
  instr hi hexec fun _ => rfl

/-- A computation and what then ends the run without further requests. -/
theorem done {k : α → Result W} (hx : M.Realizes code s x post)
    (hdone : ∀ a s' h, post a s' → M.Runs code s' h ⟨.ok (k a), h, []⟩) {h h' : W.Heap} {a : α}
    {t : List (Request O W.Ref)} (hrun : x.run h = ⟨.ok a, h', t⟩) :
    M.Runs code s h ⟨.ok (k a), h', t⟩ := by
  obtain ⟨s', hp, hr⟩ := hx.ok hrun
  have := hr.runs (hdone a s' h' hp)
  rwa [List.append_nil] at this

end Realizes

end Machine

/-! ## Pieces of code -/

/-- The piece stands in the code from `pc` on. -/
def CodeAt (code : List ι) (pc : Nat) (piece : List ι) : Prop :=
  ∀ k, k < piece.length → code[pc + k]? = piece[k]?

namespace CodeAt

variable {code p q : List ι} {pc : Nat} {i : ι}

theorem of_append (pre p post : List ι) : CodeAt (pre ++ p ++ post) pre.length p := by
  intro k hk
  rw [List.append_assoc, List.getElem?_append_right (Nat.le_add_right _ _), Nat.add_sub_cancel_left,
    List.getElem?_append_left hk]

theorem left (h : CodeAt code pc (p ++ q)) : CodeAt code pc p := by
  intro k hk
  rw [h k (by rw [List.length_append]; omega), List.getElem?_append_left hk]

theorem right (h : CodeAt code pc (p ++ q)) : CodeAt code (pc + p.length) q := by
  intro k hk
  rw [Nat.add_assoc, h (p.length + k) (by rw [List.length_append]; omega),
    List.getElem?_append_right (Nat.le_add_right _ _), Nat.add_sub_cancel_left]

theorem head (h : CodeAt code pc (i :: p)) : code[pc]? = some i := by
  simpa using h 0 (by simp)

theorem tail (h : CodeAt code pc (i :: p)) : CodeAt code (pc + 1) p :=
  CodeAt.right (p := [i]) h

end CodeAt

end MiniJava
