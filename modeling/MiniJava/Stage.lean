/-!
# Stages

A stage of the compiler keeps a state of type `σ`, writes items of type `ω` in order, and either
gives a value or stops with a fault of type `ε`. What was counted and written before a fault stays.

The items written are output only: no stage can read back what it wrote, so the output of two
stages in a row is the output of the first followed by the output of the second.
-/

namespace MiniJava

/-- What running a stage leaves behind. -/
structure Outcome (σ ω ε α : Type) where
  result : Except ε α
  state : σ
  output : List ω

def Stage (σ ω ε α : Type) : Type := σ → Outcome σ ω ε α

namespace Stage

variable {σ σ' ω ω' ε ε' α β : Type}

def run (x : Stage σ ω ε α) (s : σ) : Outcome σ ω ε α := x s

/-- Goes on after an outcome, unless it is a fault. -/
def andThen (o : Outcome σ ω ε α) (f : α → Stage σ ω ε β) : Outcome σ ω ε β :=
  match o.result with
  | .error e => ⟨.error e, o.state, o.output⟩
  | .ok a =>
    let next := f a o.state
    ⟨next.result, next.state, o.output ++ next.output⟩

instance : Monad (Stage σ ω ε) where
  pure a := fun s => ⟨.ok a, s, []⟩
  bind x f := fun s => andThen (x s) f

/-- Stops with a fault. -/
def fail (e : ε) : Stage σ ω ε α := fun s => ⟨.error e, s, []⟩

/-- Writes one item. -/
def emit (w : ω) : Stage σ ω ε Unit := fun s => ⟨.ok (), s, [w]⟩

/-- Writes several items. -/
def emitAll (ws : List ω) : Stage σ ω ε Unit := fun s => ⟨.ok (), s, ws⟩

/-- Reads the state and replaces it. -/
def update (f : σ → α × σ) : Stage σ ω ε α := fun s => ⟨.ok (f s).1, (f s).2, []⟩

/-- A value, or the fault in its place. -/
def ofExcept : Except ε α → Stage σ ω ε α
  | .ok a => pure a
  | .error e => fail e

/-- Gives the items that a stage wrote as its value, and writes what `f` makes of them. -/
def collect (f : List ω → List ω') (x : Stage σ ω ε Unit) : Stage σ ω' ε (List ω) := fun s =>
  let o := x s
  ⟨o.result.map fun _ => o.output, o.state, f o.output⟩

/-- Runs a stage on a state of its own, as a part of a stage with another state and other faults. -/
def within (s : σ) (fault : ε → ε') (x : Stage σ ω ε α) : Stage σ' ω ε' α := fun s' =>
  let o := x s
  ⟨o.result.mapError fault, s', o.output⟩

/-! ## Running -/

theorem run_pure (a : α) (s : σ) : (pure a : Stage σ ω ε α).run s = ⟨.ok a, s, []⟩ := rfl

theorem run_bind (x : Stage σ ω ε α) (f : α → Stage σ ω ε β) (s : σ) :
    (x >>= f).run s = andThen (x.run s) f := rfl

theorem andThen_ok (a : α) (s : σ) (out : List ω) (f : α → Stage σ ω ε β) :
    andThen ⟨.ok a, s, out⟩ f =
      ⟨((f a).run s).result, ((f a).run s).state, out ++ ((f a).run s).output⟩ := rfl

theorem andThen_error (e : ε) (s : σ) (out : List ω) (f : α → Stage σ ω ε β) :
    andThen ⟨.error e, s, out⟩ f = ⟨.error e, s, out⟩ := rfl

end Stage

end MiniJava
