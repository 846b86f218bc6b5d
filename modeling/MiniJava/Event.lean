import MiniJava.Ir.Basic
import MiniJava.Text.Quoted

/-!
# Events

What the compiler logs while it works. Coarse events are of level `debug`, single nodes, calls and
instructions of level `trace`.
-/

namespace MiniJava

inductive Level where
  | debug
  | trace
deriving DecidableEq

def Level.word : Level → String
  | debug => "DEBUG"
  | trace => "TRACE"

inductive Event where
  | loaded (classes nodes : Nat)
  | typed (id : Nat) (ty : Ty)
  | annotated (classes types diagnostics : Nat)
  | called (kind : Ir.CallKind) (target : Ir.Operand) (method : String)
  | loweredMethod (className method : String) (instructions : Nat)
  | loweredClass (name : String) (methods temporaries : Nat)
  | emittedInstr (instr : Ir.Instr) (lines : List String)
  | emittedClass (name : String) (bytes : Nat)
  | compiled (classes : Nat)
deriving DecidableEq

namespace Event

def level : Event → Level
  | typed .. | called .. | emittedInstr .. => .trace
  | _ => .debug

def message : Event → String
  | loaded classes nodes => s!"loaded {classes} classes, {nodes} expression nodes"
  | typed id ty => s!"node NodeId({id}) : {ty.text}"
  | annotated classes types diagnostics =>
    s!"annotated {classes} classes: {types} typed nodes, {diagnostics} diagnostics"
  | called kind target method => s!"call {kind.mnemonic} {target.text}.{method}"
  | loweredMethod c m n => s!"lowered method {c}.{m}: {n} instructions"
  | loweredClass c methods temps =>
    s!"lowered class {c} ({methods} methods, {temps} temporaries so far)"
  | emittedInstr i lines => s!"{i.text} => {Text.quotedList lines}"
  | emittedClass c bytes => s!"emitted class {c} ({bytes} bytes)"
  | compiled n => s!"compiled {n} classes"

/-- The event as a line of a log. -/
def line (e : Event) : String := s!"{e.level.word} {e.message}"

/-- The event is logged when everything up to `level` is. -/
def shownAt (e : Event) (level : Level) : Bool := level == .trace || e.level == .debug

end Event

end MiniJava
