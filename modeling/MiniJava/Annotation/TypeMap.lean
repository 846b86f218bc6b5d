import MiniJava.Syntax.Basic

/-!
# Type maps

The types that the annotator found, by the id of the expression. Entries are kept in ascending
order of their ids, so that two maps are equal when they have the same entries.
-/

namespace MiniJava

structure TypeMap where
  entries : List (Nat × Ty) := []
deriving DecidableEq

namespace TypeMap

def empty : TypeMap := ⟨[]⟩

def size (m : TypeMap) : Nat := m.entries.length

/-- The type of the expression with that id. -/
def get? (m : TypeMap) (id : Nat) : Option Ty := m.entries.lookup id

/-- The type of an expression. -/
def typeOf (m : TypeMap) (e : Expr) : Option Ty := m.get? e.id

/-- Puts an entry in its place among entries in ascending order, over an old one of the same id. -/
def put (id : Nat) (ty : Ty) : List (Nat × Ty) → List (Nat × Ty)
  | [] => [(id, ty)]
  | (k, t) :: rest =>
    if id < k then (id, ty) :: (k, t) :: rest
    else if id = k then (id, ty) :: rest
    else (k, t) :: put id ty rest

def insert (m : TypeMap) (id : Nat) (ty : Ty) : TypeMap := ⟨put id ty m.entries⟩

/-- Inserts a type unless the expression has one. -/
def insertIfNew (m : TypeMap) (id : Nat) (ty : Ty) : TypeMap :=
  match m.get? id with
  | some _ => m
  | none => m.insert id ty

def erase (m : TypeMap) (id : Nat) : TypeMap := ⟨m.entries.filter (·.1 != id)⟩

end TypeMap

end MiniJava
