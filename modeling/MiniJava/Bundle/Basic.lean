import MiniJava.Symbols.Derived
import MiniJava.Syntax.Numbering

/-!
# Bundles

What the compiler is given: a program, optionally with a symbol table made elsewhere and with the
source text that its spans refer to.
-/

namespace MiniJava

structure Bundle where
  program : Program
  symbols : Option SymbolTable := none
  source : Option String := none
  filename : Option String := none

namespace Bundle

/-- A bundle of a program alone, its expressions numbered. -/
def ofProgram (p : Program) : Bundle := { program := p.number.1 }

/-- Numbers the expressions of the program. -/
def number (b : Bundle) : Bundle := { b with program := b.program.number.1 }

def withSymbols (b : Bundle) (t : SymbolTable) : Bundle := { b with symbols := some t }

def withSource (b : Bundle) (filename source : String) : Bundle :=
  { b with filename := some filename, source := some source }

/-- The bundled table, or else the one that the declarations give. -/
def table (b : Bundle) : SymbolTable := b.symbols.getD (SymbolTable.ofProgram b.program)

/-- The name under which diagnostics are reported. -/
def displayName (b : Bundle) (fallback : String) : String := b.filename.getD fallback

end Bundle

end MiniJava
