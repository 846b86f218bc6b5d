import MiniJava.Bundle.Basic
import MiniJava.Json.Decoder

/-!
# Reading trees and tables

The decoders of everything a bundle holds. Each recursive type has a decoder of one level
(`Expr.level`), which takes the decoder of the parts; the decoder of the whole type repeats it once
for each level of nesting that the text may have.
-/

namespace MiniJava

open Json
open Json.Decoder (string bool int32 uint32 option list record variant tooDeep)
open Json.Field (required withDefault optional)

/-- Enough rounds for every text, since each opens a list or an object. -/
def rounds : Nat := Json.maxDepth + 1

def Span.decoder : Decoder Span :=
  (record "struct Span" (.cons (required "start" uint32) (.last (required "end" uint32)))).map
    fun (start, stop) => ⟨start, stop⟩

def Located.decoder {α : Type} (d : Decoder α) : Decoder (Located α) :=
  (record "struct Spanned"
    (.cons (required "node" d) (.last (withDefault "span" Span.decoder Span.unknown)))).map
    fun (node, span) => ⟨node, span⟩

/-! ## Types and operators -/

namespace Ty

def variants : List String := ["Int", "Bool", "Str", "Void", "Class", "Array"]

def level (self : Decoder Ty) : Decoder Ty :=
  variant variants fun
    | "Int" => some (.unit .int)
    | "Bool" => some (.unit .bool)
    | "Str" => some (.unit .str)
    | "Void" => some (.unit .void)
    | "Class" => some (.value (string.map .cls))
    | "Array" => some (.value (self.map .array))
    | _ => none

def decoderUpTo : Nat → Decoder Ty
  | 0 => tooDeep
  | n + 1 => level (decoderUpTo n)

def decoder : Decoder Ty := decoderUpTo rounds

end Ty

namespace BinOp

def variants : List String := ["Add", "Sub", "Mul", "Div", "Lt", "And"]

def ofName? : String → Option BinOp
  | "Add" => some .add
  | "Sub" => some .sub
  | "Mul" => some .mul
  | "Div" => some .div
  | "Lt" => some .lt
  | "And" => some .and
  | _ => none

def decoder : Decoder BinOp := variant variants fun name => (ofName? name).map .unit

end BinOp

/-! ## Expressions -/

namespace Expr

def variants : List String :=
  ["IntLit", "BoolLit", "Var", "This", "Negate", "Binary", "Call", "NewObject", "NewArray",
    "Length", "Index", "Paren"]

/-- What an expression is, as a function of its node. -/
def kind (self : Decoder Expr) : Decoder (Node → Expr) :=
  variant variants fun
    | "IntLit" => some (.value (int32.map fun v n => .int n v))
    | "BoolLit" => some (.value (Decoder.bool.map fun v n => .bool n v))
    | "Var" => some (.value (string.map fun x n => .var n x))
    | "This" => some (.unit fun n => .this n)
    | "Negate" => some (.value (self.map fun e n => .not n e))
    | "Binary" => some (.record
        ((record "struct variant ExprKind::Binary"
          (.cons (required "op" BinOp.decoder)
            (.cons (required "lhs" self) (.last (required "rhs" self))))).map
          fun (op, l, r) n => .binary n op l r))
    | "Call" => some (.record
        ((record "struct variant ExprKind::Call"
          (.cons (required "receiver" self)
            (.cons (required "method" (Located.decoder string))
              (.last (required "args" (list self)))))).map
          fun (r, m, args) n => .call n r m args))
    | "NewObject" => some (.value ((Located.decoder string).map fun c n => .newObject n c))
    | "NewArray" => some (.value (self.map fun e n => .newArray n e))
    | "Length" => some (.value (self.map fun e n => .length n e))
    | "Index" => some (.record
        ((record "struct variant ExprKind::Index"
          (.cons (required "array" self) (.last (required "index" self)))).map
          fun (a, i) n => .index n a i))
    | "Paren" => some (.value (self.map fun e n => .paren n e))
    | _ => none

def level (self : Decoder Expr) : Decoder Expr :=
  (record "struct Expr"
    (.cons (required "kind" (kind self))
      (.last (withDefault "span" Span.decoder Span.unknown)))).map
    fun (make, span) => make { span }

def decoderUpTo : Nat → Decoder Expr
  | 0 => tooDeep
  | n + 1 => level (decoderUpTo n)

/-- Ids are not part of the text: every expression gets the id zero. -/
def decoder : Decoder Expr := decoderUpTo rounds

end Expr

/-! ## Statements and declarations -/

def VarDecl.decoder : Decoder VarDecl :=
  (record "struct VarDecl"
    (.cons (required "name" (Located.decoder string))
      (.last (required "ty" (Located.decoder Ty.decoder))))).map
    fun (name, ty) => ⟨name, ty⟩

namespace Stmt

def variants : List String :=
  ["VarDecl", "Block", "If", "While", "Expr", "Assign", "ArrayAssign", "Return"]

/-- What a statement is, as a function of its span. -/
def kind (self : Decoder Stmt) : Decoder (Span → Stmt) :=
  variant variants fun
    | "VarDecl" => some (.value (VarDecl.decoder.map fun d s => .varDecl s d))
    | "Block" => some (.value ((list self).map fun body s => .block s body))
    | "If" => some (.record
        ((record "struct variant Stmt::If"
          (.cons (required "cond" Expr.decoder)
            (.cons (required "then_branch" self) (.last (optional "else_branch" self))))).map
          fun
            | (c, t, none), s => .ifThen s c t
            | (c, t, some e), s => .ifElse s c t e))
    | "While" => some (.record
        ((record "struct variant Stmt::While"
          (.cons (required "cond" Expr.decoder) (.last (required "body" self)))).map
          fun (c, b) s => .whileLoop s c b))
    | "Expr" => some (.value (Expr.decoder.map fun e s => .expr s e))
    | "Assign" => some (.record
        ((record "struct variant Stmt::Assign"
          (.cons (required "target" (Located.decoder string))
            (.last (required "value" Expr.decoder)))).map
          fun (x, v) s => .assign s x v))
    | "ArrayAssign" => some (.record
        ((record "struct variant Stmt::ArrayAssign"
          (.cons (required "target" (Located.decoder string))
            (.cons (required "index" Expr.decoder) (.last (required "value" Expr.decoder))))).map
          fun (x, i, v) s => .arrayAssign s x i v))
    | "Return" => some (.value ((option Expr.decoder).map fun v s => .ret s v))
    | _ => none

def level (self : Decoder Stmt) : Decoder Stmt :=
  (Located.decoder (kind self)).map fun l => l.node l.span

def decoderUpTo : Nat → Decoder Stmt
  | 0 => tooDeep
  | n + 1 => level (decoderUpTo n)

def decoder : Decoder Stmt := decoderUpTo rounds

end Stmt

def MethodDecl.decoder : Decoder MethodDecl :=
  (record "struct MethodDecl"
    (.cons (withDefault "is_public" bool false)
      (.cons (withDefault "is_static" bool false)
        (.cons (required "name" (Located.decoder string))
          (.cons (required "return_ty" (Located.decoder Ty.decoder))
            (.cons (withDefault "params" (list VarDecl.decoder) [])
              (.last (withDefault "body" (list Stmt.decoder) [])))))))).map
    fun (isPublic, isStatic, name, returnTy, params, body) =>
      { isPublic, isStatic, name, returnTy, params, body }

def ClassDecl.decoder : Decoder ClassDecl :=
  (record "struct ClassDecl"
    (.cons (required "name" (Located.decoder string))
      (.cons (withDefault "super_name" (option (Located.decoder string)) none)
        (.cons (withDefault "fields" (list VarDecl.decoder) [])
          (.last (withDefault "methods" (list MethodDecl.decoder) [])))))).map
    fun (name, superName, fields, methods) => { name, superName, fields, methods }

def Program.decoder : Decoder Program :=
  (record "struct Program"
    (.cons (withDefault "imports" (list (Located.decoder string)) [])
      (.last (required "classes" (list ClassDecl.decoder))))).map
    fun (imports, classes) => { imports, classes }

/-! ## Symbol tables and bundles -/

def Symbol.decoder : Decoder Symbol :=
  (record "struct Symbol"
    (.cons (required "name" string) (.last (required "ty" Ty.decoder)))).map
    fun (name, ty) => ⟨name, ty⟩

def MethodSymbols.decoder : Decoder MethodSymbols :=
  (record "struct MethodSymbols"
    (.cons (required "name" string)
      (.cons (required "return_ty" Ty.decoder)
        (.cons (withDefault "params" (list Symbol.decoder) [])
          (.cons (withDefault "locals" (list Symbol.decoder) [])
            (.cons (withDefault "is_public" bool true)
              (.last (withDefault "is_static" bool false)))))))).map
    fun (name, returnTy, params, locals, isPublic, isStatic) =>
      { name, returnTy, params, locals, isPublic, isStatic }

def ClassSymbols.decoder : Decoder ClassSymbols :=
  (record "struct ClassSymbols"
    (.cons (required "name" string)
      (.cons (withDefault "super_name" (option string) none)
        (.cons (withDefault "fields" (list Symbol.decoder) [])
          (.last (withDefault "methods" (list MethodSymbols.decoder) [])))))).map
    fun (name, superName, fields, methods) => { name, superName, fields, methods }

def SymbolTable.decoder : Decoder SymbolTable :=
  (record "struct SymbolTable"
    (.cons (withDefault "imports" (list string) [])
      (.last (withDefault "classes" (list ClassSymbols.decoder) [])))).map
    fun (imports, classes) => { imports, classes }

namespace Bundle

def decoder : Decoder Bundle :=
  (record "struct CompilationInput"
    (.cons (required "program" Program.decoder)
      (.cons (withDefault "symbols" (option SymbolTable.decoder) none)
        (.cons (withDefault "source" (option string) none)
          (.last (withDefault "filename" (option string) none)))))).map
    fun (program, symbols, source, filename) => { program, symbols, source, filename }

/-- Reads a bundle and numbers its expressions. -/
def parse (text : String) : Except Fault Bundle := (decoder.parse text).map number

end Bundle

end MiniJava
