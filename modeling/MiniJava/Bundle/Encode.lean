import MiniJava.Bundle.Basic
import MiniJava.Json.Writer

/-!
# Writing trees and tables

The JSON form of everything a bundle holds. Every field is written, also where reading has a
default for it; ids of expressions are not.
-/

namespace MiniJava

open Json (text list record tagged option)

def Span.toJson (s : Span) : Json :=
  record [("start", .nat s.start.toNat), ("end", .nat s.stop.toNat)]

/-- A value with its place. -/
def Json.located (node : Json) (span : Span) : Json :=
  record [("node", node), ("span", span.toJson)]

def Located.toJson {α : Type} (f : α → Json) (l : Located α) : Json := .located (f l.node) l.span

def Ty.toJson : Ty → Json
  | int => .text "Int"
  | bool => .text "Bool"
  | str => .text "Str"
  | void => .text "Void"
  | cls name => tagged "Class" (.text name)
  | array e => tagged "Array" e.toJson

def BinOp.name : BinOp → String
  | add => "Add"
  | sub => "Sub"
  | mul => "Mul"
  | div => "Div"
  | lt => "Lt"
  | and => "And"

def BinOp.toJson (op : BinOp) : Json := text op.name

namespace Expr

/-- An expression from what it is. -/
def wrap (n : Node) (kind : Json) : Json := record [("kind", kind), ("span", n.span.toJson)]

mutual

def toJson : Expr → Json
  | int n v => wrap n (tagged "IntLit" (.int v.toInt))
  | bool n v => wrap n (tagged "BoolLit" (.bool v))
  | var n x => wrap n (tagged "Var" (text x))
  | this n => wrap n (text "This")
  | not n e => wrap n (tagged "Negate" e.toJson)
  | binary n op l r =>
    wrap n (tagged "Binary" (record [("op", op.toJson), ("lhs", l.toJson), ("rhs", r.toJson)]))
  | call n r m args =>
    wrap n (tagged "Call" (record
      [("receiver", r.toJson), ("method", m.toJson text), ("args", list (toJsonAll args))]))
  | newObject n c => wrap n (tagged "NewObject" (c.toJson text))
  | newArray n e => wrap n (tagged "NewArray" e.toJson)
  | length n e => wrap n (tagged "Length" e.toJson)
  | index n a i =>
    wrap n (tagged "Index" (record [("array", a.toJson), ("index", i.toJson)]))
  | paren n e => wrap n (tagged "Paren" e.toJson)

def toJsonAll : List Expr → List Json
  | [] => []
  | e :: es => e.toJson :: toJsonAll es

end

end Expr

def VarDecl.toJson (d : VarDecl) : Json :=
  record [("name", d.name.toJson text), ("ty", d.ty.toJson Ty.toJson)]

namespace Stmt

mutual

def toJson : Stmt → Json
  | varDecl s d => .located (tagged "VarDecl" d.toJson) s
  | block s body => .located (tagged "Block" (list (toJsonAll body))) s
  | ifThen s c t =>
    .located (tagged "If" (record
      [("cond", c.toJson), ("then_branch", t.toJson), ("else_branch", .null)])) s
  | ifElse s c t e =>
    .located (tagged "If" (record
      [("cond", c.toJson), ("then_branch", t.toJson), ("else_branch", e.toJson)])) s
  | whileLoop s c b =>
    .located (tagged "While" (record [("cond", c.toJson), ("body", b.toJson)])) s
  | expr s e => .located (tagged "Expr" e.toJson) s
  | assign s x v =>
    .located (tagged "Assign" (record [("target", x.toJson text), ("value", v.toJson)])) s
  | arrayAssign s x i v =>
    .located (tagged "ArrayAssign" (record
      [("target", x.toJson text), ("index", i.toJson), ("value", v.toJson)])) s
  | ret s v => .located (tagged "Return" (option Expr.toJson v)) s

def toJsonAll : List Stmt → List Json
  | [] => []
  | s :: ss => s.toJson :: toJsonAll ss

end

end Stmt

def MethodDecl.toJson (d : MethodDecl) : Json :=
  record [("is_public", .bool d.isPublic), ("is_static", .bool d.isStatic),
    ("name", d.name.toJson text), ("return_ty", d.returnTy.toJson Ty.toJson),
    ("params", list (d.params.map VarDecl.toJson)), ("body", list (Stmt.toJsonAll d.body))]

def ClassDecl.toJson (d : ClassDecl) : Json :=
  record [("name", d.name.toJson text),
    ("super_name", option (Located.toJson text) d.superName),
    ("fields", list (d.fields.map VarDecl.toJson)),
    ("methods", list (d.methods.map MethodDecl.toJson))]

def Program.toJson (p : Program) : Json :=
  record [("imports", list (p.imports.map (Located.toJson text))),
    ("classes", list (p.classes.map ClassDecl.toJson))]

def Symbol.toJson (s : Symbol) : Json := record [("name", text s.name), ("ty", s.ty.toJson)]

def MethodSymbols.toJson (m : MethodSymbols) : Json :=
  record [("name", text m.name), ("return_ty", m.returnTy.toJson),
    ("params", list (m.params.map Symbol.toJson)), ("locals", list (m.locals.map Symbol.toJson)),
    ("is_public", .bool m.isPublic), ("is_static", .bool m.isStatic)]

def ClassSymbols.toJson (c : ClassSymbols) : Json :=
  record [("name", text c.name), ("super_name", option text c.superName),
    ("fields", list (c.fields.map Symbol.toJson)),
    ("methods", list (c.methods.map MethodSymbols.toJson))]

def SymbolTable.toJson (t : SymbolTable) : Json :=
  record [("imports", list (t.imports.map text)),
    ("classes", list (t.classes.map ClassSymbols.toJson))]

def Bundle.toJson (b : Bundle) : Json :=
  record [("program", b.program.toJson), ("symbols", option SymbolTable.toJson b.symbols),
    ("source", option text b.source), ("filename", option text b.filename)]

end MiniJava
