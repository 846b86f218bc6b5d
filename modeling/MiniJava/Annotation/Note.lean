import MiniJava.Annotation.Problem
import MiniJava.Annotation.TypeMap

/-!
# Notes of the annotator

The annotator walks the tree once and writes down what it finds. A note says that an expression has
a type, that it takes over the type that its surroundings expect, or that there is a problem. It
never reads its own notes, so the notes of a tree are the notes of its parts put together; the type
map and the diagnostics are read off the notes at the end.
-/

namespace MiniJava

inductive Note where
  /-- The expression has this type. -/
  | typed (id : Nat) (ty : Ty)
  /-- The expression has no type of its own and takes this one, unless it already has one. -/
  | adopted (id : Nat) (ty : Ty)
  | report (problem : Problem) (span : Span)
deriving DecidableEq

/-- A value together with the notes made on the way to it. -/
structure Noted (α : Type) where
  value : α
  notes : List Note := []

namespace Noted

instance : Monad Noted where
  pure a := { value := a }
  bind x f :=
    let y := f x.value
    { value := y.value, notes := x.notes ++ y.notes }

variable {α β : Type}

@[simp] theorem value_pure (a : α) : (pure a : Noted α).value = a := rfl

@[simp] theorem notes_pure (a : α) : (pure a : Noted α).notes = [] := rfl

@[simp] theorem value_bind (x : Noted α) (f : α → Noted β) :
    (x >>= f).value = (f x.value).value := rfl

@[simp] theorem notes_bind (x : Noted α) (f : α → Noted β) :
    (x >>= f).notes = x.notes ++ (f x.value).notes := rfl

def note (n : Note) : Noted Unit := { value := (), notes := [n] }

def report (p : Problem) (span : Span) : Noted Unit := note (.report p span)

/-- Makes a report if the condition holds. -/
def reportIf (condition : Bool) (p : Problem) (span : Span) : Noted Unit :=
  if condition then report p span else pure ()

/-- Runs the steps one after the other. -/
def all : List (Noted Unit) → Noted Unit
  | [] => pure ()
  | x :: xs => do
    x
    all xs

end Noted

/-! ## What the notes say -/

def TypeMap.ofNotes (notes : List Note) : TypeMap :=
  notes.foldl (fun m n =>
    match n with
    | .typed id ty => m.insert id ty
    | .adopted id ty => m.insertIfNew id ty
    | .report .. => m) TypeMap.empty

def Note.diagnostic? : Note → Option Diagnostic
  | report p span => some (p.diagnostic span)
  | _ => none

/-- The result of annotating a program. -/
structure Annotation where
  types : TypeMap
  /-- In the order in which they were found. -/
  diagnostics : List Diagnostic

namespace Annotation

def ofNotes (notes : List Note) : Annotation where
  types := TypeMap.ofNotes notes
  diagnostics := notes.filterMap Note.diagnostic?

def hasErrors (a : Annotation) : Bool := a.diagnostics.any Diagnostic.isError

/-- The annotation if it has no errors, or else all diagnostics. -/
def accepted (a : Annotation) : Except (List Diagnostic) Annotation :=
  if a.hasErrors then .error a.diagnostics else .ok a

def warnings (a : Annotation) : List Diagnostic := a.diagnostics.filter fun d => !d.isError

end Annotation

end MiniJava
