import MiniJava.Assembly.Emission
import MiniJava.Event

/-!
# Emitters

An `Emitter` makes the assembly text of one class. The text is made once and then kept; a failed
attempt is made again, with comparison labels numbered on from where it stopped. Making the text
asks for the register tables of the methods, which are frozen from then on.
-/

namespace MiniJava.Assembly

open Ir

structure Emitter (κ : Type := Nat) [Counting κ] where
  unit : ClassUnit
  limits : Limits := {}
  /-- The number of comparisons that have got their labels. -/
  comparisons : κ := Counting.zero
  text : Option String := none

/-- The piece begins a method, whose register table is asked for then. -/
def Piece.opens : Piece → Bool
  | heading _ => true
  | _ => false

/-- What is logged when a piece is written. -/
def Piece.event? : Piece → Option Event
  | block i code => some (.emittedInstr i (code.map Asm.text))
  | _ => none

/-- Freezes the methods that satisfy `p`, as many of them as `n` says. -/
def freezeFirst (p : Method → Bool) : Nat → List Method → List Method
  | _, [] => []
  | 0, ms => ms
  | n + 1, m :: ms => if p m then m.freeze :: freezeFirst p n ms else m :: freezeFirst p (n + 1) ms

/-- The unit after the register tables of the first `n` methods in the order of emission have been
asked for. -/
def freezeEmitted (u : ClassUnit) (n : Nat) : ClassUnit :=
  let constructors := (u.methods.filter (·.isConstructor)).length
  { u with
    methods := freezeFirst (!·.isConstructor) (n - constructors)
      (freezeFirst (·.isConstructor) n u.methods) }

namespace Emitter

/-- What a call of `build` gives: text or fault, the emitter afterwards, and what was logged. -/
structure Attempt (κ : Type := Nat) [Counting κ] where
  result : Except EmitError String
  emitter : Emitter κ
  events : List Event

/-- Makes the text, or gives the one made before. -/
def build {κ : Type} [Counting κ] (e : Emitter κ) : Attempt κ :=
  match e.text with
  | some text => ⟨.ok text, e, []⟩
  | none =>
    let o := e.unit.pieces.run e.comparisons
    let unit := freezeEmitted e.unit (o.output.countP Piece.opens)
    let events := o.output.filterMap Piece.event?
    match o.result with
    | .ok () =>
      let text := classText e.unit e.limits o.output
      ⟨.ok text, { e with unit, comparisons := o.state, text := some text },
        events ++ [.emittedClass e.unit.name text.utf8ByteSize]⟩
    | .error fault => ⟨.error fault, { e with unit, comparisons := o.state }, events⟩

end Emitter

/-- The assembly text of a class, made by a new emitter. -/
def emit (u : ClassUnit) (limits : Limits) : Except EmitError String :=
  (Emitter.build { unit := u, limits }).result

/-- The assembly texts of several classes, up to the first fault. -/
def emitAll (limits : Limits) : List ClassUnit → Except EmitError (List String)
  | [] => .ok []
  | u :: us => do
    let text ← emit u limits
    let texts ← emitAll limits us
    .ok (text :: texts)

end MiniJava.Assembly
