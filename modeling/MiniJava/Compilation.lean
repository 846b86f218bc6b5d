import MiniJava.Annotation.Program
import MiniJava.Assembly.Emitter
import MiniJava.Bundle.Decode
import MiniJava.Lowering.Program

/-!
# Compilation

A program is annotated, lowered and emitted, each step only if the one before has found no fault.
All steps log what they do; `Program.lowered` and `Program.compiled` give the result alone.

Types are kept by the ids of expressions, so every step asks for a program with unique ids: one that
was just numbered, or one whose expressions come from a single builder.
-/

namespace MiniJava

open Assembly Ir

inductive CompileError where
  | semantic (diagnostics : List Diagnostic)
  | lower (fault : LowerError)
  | emit (fault : EmitError)
  /-- The file with the bundle cannot be read. -/
  | unreadable (path reason : String)
  | invalidBundle (fault : Json.Fault)
  /-- Two expressions have the same id. -/
  | sharedIds

namespace CompileError

def message : CompileError → String
  | semantic ds => s!"{ds.countP Diagnostic.isError} semantic error(s)"
  | lower e => s!"lowering failed: {e.message}"
  | emit e => s!"emission failed: {e.message}"
  | unreadable path reason => s!"cannot read '{path}': {reason}"
  | invalidBundle f => "invalid input bundle: " ++ f.message?.getD "malformed text"
  | sharedIds => "expression ids are not unique"

/-- The error as diagnostics, for uniform reports. -/
def diagnostics : CompileError → List Diagnostic
  | semantic ds => ds
  | lower e => [(Diagnostic.error e.message e.span).withOrigin .lowering]
  | emit e => [(Diagnostic.error e.message Span.unknown).withOrigin .emission]
  | e => [Diagnostic.error e.message Span.unknown]

end CompileError

/-- A part of a compilation. It writes events. -/
abbrev Pass := Stage Unit Event CompileError

/-! ## Loading -/

/-- Numbers the expressions of a bundle that has just been read. -/
def Bundle.numberPass (b : Bundle) : Pass Bundle := do
  Stage.emit (.loaded b.program.classes.length b.program.number.2)
  pure b.number

/-- Reads a bundle from its text and numbers its expressions. -/
def Bundle.load (text : String) : Pass Bundle := do
  let b ← Stage.ofExcept ((Bundle.decoder.parse text).mapError .invalidBundle)
  b.numberPass

/-! ## Options and output -/

structure Options where
  limits : Limits := {}
  /-- Keep the text of the three-address code. -/
  keepIr : Bool := false

structure CompiledClass where
  name : String
  /-- The text of the three-address code, if it was asked for. -/
  ir : Option String
  assembly : String
deriving DecidableEq

structure Output where
  /-- In order of declaration. -/
  classes : List CompiledClass
  warnings : List Diagnostic

/-- The assembly of all classes, with a blank line between them. -/
def Output.assembly (o : Output) : String :=
  String.intercalate "\n" (o.classes.map CompiledClass.assembly)

/-! ## Steps -/

def Note.event? : Note → Option Event
  | typed id ty => some (.typed id ty)
  | _ => none

namespace Program

/-- Annotates a program and stops if there are errors. -/
def checkPass (p : Program) (table : SymbolTable) : Pass Annotation :=
  if p.uniqueIds then do
    let a := p.annotate table
    Stage.emitAll ((p.notes table).filterMap Note.event?)
    Stage.emit (.annotated p.classes.length a.types.size a.diagnostics.length)
    Stage.ofExcept (a.accepted.mapError .semantic)
  else Stage.fail .sharedIds

/-- Lowers a program by the given types, with counters that start at zero. -/
def lowerPass (p : Program) (table : SymbolTable) (types : TypeMap) : Pass (List ClassUnit) :=
  (p.lower table types).within {} .lower

end Program

/-- Emits one class. -/
def emitPass (options : Options) (u : ClassUnit) : Pass CompiledClass := do
  let b := Emitter.build { unit := u, limits := options.limits }
  Stage.emitAll b.events
  let assembly ← Stage.ofExcept (b.result.mapError .emit)
  pure { name := u.name, ir := if options.keepIr then some u.text else none, assembly }

def emitAllPass (options : Options) : List ClassUnit → Pass (List CompiledClass)
  | [] => pure []
  | u :: us => do
    let c ← emitPass options u
    let cs ← emitAllPass options us
    pure (c :: cs)

namespace Program

def compilePass (p : Program) (table : SymbolTable) (options : Options) : Pass Output := do
  let a ← p.checkPass table
  let units ← p.lowerPass table a.types
  let classes ← emitAllPass options units
  Stage.emit (.compiled classes.length)
  pure { classes, warnings := a.warnings }

/-! ## Results alone -/

/-- The annotation of a program that can be compiled. -/
def checked (p : Program) (table : SymbolTable) : Except CompileError Annotation :=
  ((p.checkPass table).run ()).result

/-- The three-address code of a program. -/
def lowered (p : Program) (table : SymbolTable) : Except CompileError (List ClassUnit) :=
  let pass : Pass (List ClassUnit) := do
    let a ← p.checkPass table
    p.lowerPass table a.types
  (pass.run ()).result

/-- The assembly of a program. -/
def compiled (p : Program) (table : SymbolTable) (options : Options) : Except CompileError Output :=
  ((p.compilePass table options).run ()).result

end Program

end MiniJava
