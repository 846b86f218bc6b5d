import MiniJava.Event
import MiniJava.Ir.Unit
import MiniJava.Lowering.Stmt

/-!
# Lowering programs

Each class becomes a `ClassUnit` with its methods and one constructor. The stage writes events here:
the calls in the order in which they are lowered, then each finished method and class. Counters
move on also through a class that fails, and nothing else of it is left behind.
-/

namespace MiniJava

open Ir

/-- A stage that writes events and counts in `κ`. -/
abbrev BuildIn (κ : Type) [Counting κ] := Stage (Counters κ) Event LowerError

/-- A stage that writes events. -/
abbrev Build := BuildIn Nat

variable {κ : Type} [Counting κ]

/-- The call that an instruction makes, constructors apart. -/
def Ir.Instr.call? : Instr → Option Event
  | .call .special .. => none
  | .call kind target method .. => some (.called kind target method)
  | .assign _ _ (.call .special ..) => none
  | .assign _ _ (.call kind target method ..) => some (.called kind target method)
  | _ => none

/-- The return that a method without a value needs at its end. -/
def MethodDecl.finalReturn (d : MethodDecl) : List Instr :=
  if d.returnTy.node == .void && !Stmt.lastReturns d.body then [.ret .void none] else []

/-- Lowers a method of a class with the given symbols. Parameters and locals come from the symbol
table, the rest of the heading from the declaration. -/
def MethodDecl.lower (table : SymbolTable) (types : TypeMap) (cls : ClassSymbols)
    (d : MethodDecl) : BuildIn κ Method :=
  match cls.method? d.name.node with
  | none => Stage.fail (.missingMethod cls.name d.name.node)
  | some method => do
    let sc : Scope := { table, cls, method, isStatic := d.isStatic }
    let body ← (Stmt.lowerAll sc types d.body).collect (·.filterMap Instr.call?)
    let code := body ++ d.finalReturn
    Stage.emit (.loweredMethod cls.name d.name.node code.length)
    pure
      { name := d.name.node
        className := cls.name
        access := if d.isPublic then .pub else .package
        isStatic := d.isStatic
        params := method.params
        locals := method.locals
        returnTy := d.returnTy.node
        code }

def MethodDecl.lowerAll (table : SymbolTable) (types : TypeMap) (cls : ClassSymbols) :
    List MethodDecl → BuildIn κ (List Method)
  | [] => pure []
  | d :: ds => do
    let m ← d.lower table types cls
    let ms ← lowerAll table types cls ds
    pure (m :: ms)

/-- Lowers a class and adds its constructor. -/
def ClassDecl.lower (table : SymbolTable) (types : TypeMap) (imports : List String)
    (d : ClassDecl) : BuildIn κ ClassUnit :=
  match table.class? d.name.node with
  | none => Stage.fail (.missingClass d.name.node)
  | some cls => do
    let methods ← MethodDecl.lowerAll table types cls d.methods
    let methods := methods ++ [Method.defaultConstructor d.name.node]
    let temps ← Stage.update fun c => (Counting.number c.temps, c)
    Stage.emit (.loweredClass d.name.node methods.length temps)
    pure
      { imports
        name := d.name.node
        superName := d.superName.map (·.node)
        fields := d.fields.map fun f => { name := f.name.node, ty := f.ty.node, access := .pub }
        methods }

def ClassDecl.lowerAll (table : SymbolTable) (types : TypeMap) (imports : List String) :
    List ClassDecl → BuildIn κ (List ClassUnit)
  | [] => pure []
  | d :: ds => do
    let u ← d.lower table types imports
    let us ← lowerAll table types imports ds
    pure (u :: us)

/-- Lowers the classes of a program in order, each with the imports of the program. -/
def Program.lower (p : Program) (table : SymbolTable) (types : TypeMap) :
    BuildIn κ (List ClassUnit) :=
  ClassDecl.lowerAll table types (p.imports.map (·.node)) p.classes

end MiniJava
