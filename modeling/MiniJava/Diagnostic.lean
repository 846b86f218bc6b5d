import MiniJava.Span

/-!
# Diagnostics

A report of the compiler: an error or a warning, the stage that made it, its place, and optional
notes and help. `Diagnostic.text` is its plain form, used when there is no source to show.
-/

namespace MiniJava

inductive Severity where
  | error
  | warning
deriving DecidableEq

def Severity.word : Severity → String
  | error => "error"
  | warning => "warning"

/-- The part of the compiler that a report comes from. -/
inductive Origin where
  | semantic
  | lowering
  | emission
deriving DecidableEq

def Origin.word : Origin → String
  | semantic => "semantic"
  | lowering => "lowering"
  | emission => "emission"

structure Diagnostic where
  severity : Severity
  origin : Origin := .semantic
  message : String
  span : Span
  notes : List String := []
  help : Option String := none
deriving DecidableEq

namespace Diagnostic

def error (message : String) (span : Span) : Diagnostic := { severity := .error, message, span }

def warning (message : String) (span : Span) : Diagnostic :=
  { severity := .warning, message, span }

def withOrigin (d : Diagnostic) (origin : Origin) : Diagnostic := { d with origin }

def withNote (d : Diagnostic) (note : String) : Diagnostic := { d with notes := d.notes ++ [note] }

def withHelp (d : Diagnostic) (help : String) : Diagnostic := { d with help := some help }

def isError (d : Diagnostic) : Bool := d.severity == .error

/-- The plain form: a headline with the place, if known, then notes and help on lines of their
own. -/
def text (d : Diagnostic) : String :=
  let place := if d.span.isUnknown then "" else s!" (at {d.span.text})"
  let notes := String.join (d.notes.map ("\n  note: " ++ ·))
  let help := (d.help.map ("\n  help: " ++ ·)).getD ""
  s!"{d.severity.word}[{d.origin.word}]: {d.message}{place}{notes}{help}"

/-- The form used where there is a source to point at: a headline of its own, then the place in the
file, notes and help, all indented. It stands for a rendering that quotes the source and draws marks
under it. What is said is the same and comes in the same order, but the layout is one of its own. -/
def report (d : Diagnostic) (filename : String) : String :=
  let kind := if d.isError then "Error" else "Warning"
  let notes := String.join (d.notes.map ("\n  note: " ++ ·))
  let help := (d.help.map ("\n  help: " ++ ·)).getD ""
  s!"{kind}: [{d.origin.word}] {d.message}\n  --> {filename} at {d.span.text}{notes}{help}"

end Diagnostic

end MiniJava
