import MiniJava.Symbols.Basic
import Std.Data.TreeMap

/-!
# Registers

Each variable of a method has a register of the machine. Registers are given out in the order in
which variables are declared, and only the first declaration of a name counts. A register number
has sixteen bits, so numbers start over after 65536 names.
-/

namespace MiniJava.Ir

structure Register where
  index : UInt16
  ty : Ty
deriving DecidableEq

structure RegisterTable where
  registers : Std.TreeMap String Register := ∅

namespace RegisterTable

def empty : RegisterTable := {}

def get? (t : RegisterTable) (name : String) : Option Register := t.registers.get? name

def size (t : RegisterTable) : Nat := t.registers.size

def isEmpty (t : RegisterTable) : Bool := t.size == 0

/-- Gives the next register to a variable that has none yet. -/
def declare (t : RegisterTable) (v : Symbol) : RegisterTable :=
  ⟨t.registers.insertIfNew v.name ⟨UInt16.ofNat t.size, v.ty⟩⟩

def ofDeclarations (vs : List Symbol) : RegisterTable := vs.foldl declare empty

/-- All registers in ascending order, those of one number by the names of their variables. -/
def slots (t : RegisterTable) : List (String × Register) :=
  t.registers.toList.mergeSort fun a b => a.2.index ≤ b.2.index

/-- The tables give the same registers to the same names. -/
def same (t u : RegisterTable) : Bool := t.registers.toList == u.registers.toList

end RegisterTable

end MiniJava.Ir
