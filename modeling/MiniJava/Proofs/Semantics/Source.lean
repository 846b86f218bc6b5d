import MiniJava.Proofs.Semantics.World
import MiniJava.Symbols.Scope
import MiniJava.Syntax.Traversal

/-!
# What programs mean

The meaning of method bodies, independent of any code. Expressions compute a value (`Expr.eval`):
operands from left to right, both operands of `&&` always, the arguments of a call before its
receiver, and a field when it is reached. Statements are executed by rules (`Exec`), since a loop
need not end.

Names mean what the scope says: a local, a parameter, a field of `this`, or a class, which is only
good for calling a static method on it. The environment holds the locals and parameters, and under
the name `this` the object that the method runs on.
-/

namespace MiniJava

/-- The operations that programs ask for. -/
inductive Source.Op where
  /-- Calls a method of the first operand. -/
  | call (method : String)
  | callStatic (className method : String)
  | newObject (className : String)
  /-- Runs the constructor on a new object. -/
  | construct
  | newArray
  | length
  | getField (name : String)
  | putField (name : String)
  | readItem
  | writeItem
deriving DecidableEq

namespace Expr

/-- The class that a receiver names, if it is a class name and not a value. -/
def className? (sc : Scope) (e : Expr) : Option String :=
  match e.strip with
  | var _ x => if (sc.resolve x).isNone && sc.isClassName x then some x else none
  | _ => none

variable (sc : Scope) (W : World Source.Op) (env : Env W)

def evalField (x : String) : Run W (Value W.Ref) := do
  let self ← env.read "this"
  W.request (.getField x) [self]

/-- The value of a variable. A class name has none. -/
def evalVar (x : String) : Run W (Value W.Ref) :=
  match sc.resolve x with
  | some (.field _) => evalField W env x
  | some _ => env.read x
  | none => Stage.fail .stuck

mutual

/-- The value of an expression. -/
def eval : Expr → Run W (Value W.Ref)
  | int _ v => pure (.int v)
  | bool _ b => pure (.ofBool b)
  | var _ x => evalVar sc W env x
  | this _ => env.read "this"
  | not _ e => do
    let v ← e.eval
    v.negated W
  | binary _ op l r => do
    let a ← l.eval
    let b ← r.eval
    op.apply W a b
  | call _ r m args => do
    let vs ← evalAll args
    match r.className? sc with
    | some c => W.request (.callStatic c m.node) vs
    | none => do
      let object ← r.eval
      W.request (.call m.node) (object :: vs)
  | newObject _ c => do
    let object ← W.request (.newObject c.node) []
    let _ ← W.request .construct [object]
    pure object
  | newArray _ e => do
    let n ← e.eval
    W.request .newArray [n]
  | length _ a => do
    let v ← a.eval
    W.request .length [v]
  | index _ a i => do
    let array ← a.eval
    let place ← i.eval
    W.request .readItem [array, place]
  | paren _ e => e.eval

def evalAll : List Expr → Run W (List (Value W.Ref))
  | [] => pure []
  | e :: es => do
    let v ← e.eval
    let vs ← evalAll es
    pure (v :: vs)

end

/-- The value of a condition. -/
def evalTest (e : Expr) : Run W Bool := do
  let v ← e.eval sc W env
  v.test W

end Expr

/-! ## Statements -/

/-- How a statement ends: control goes on behind it, or the method gives back a result. -/
inductive Completion (W : World Source.Op) where
  | normal (env : Env W)
  | returned (result : Option (Value W.Ref))

/-- The end of an execution: how it ended, the heap, and the requests that were made. -/
abbrev Final (W : World Source.Op) : Type :=
  Outcome W.Heap (Request Source.Op W.Ref) (Halt W.Fault) (Completion W)

/-- The end of an execution that was preceded by the requests `t`. -/
def Final.after {W : World Source.Op} (t : List (Request Source.Op W.Ref)) (o : Final W) :
    Final W :=
  { o with output := t ++ o.output }

/-- Control does not go on behind the statement. -/
def Final.Leaves {W : World Source.Op} (o : Final W) : Prop :=
  ∀ env, o.result ≠ .ok (.normal env)

namespace Stmt

variable (sc : Scope) (W : World Source.Op) (env : Env W)

/-- Stores a value in a variable or a field. -/
def evalAssign (x : String) (v : Expr) : Run W (Completion W) :=
  match sc.resolve x with
  | some (.field _) => do
    let v ← v.eval sc W env
    let self ← env.read "this"
    let _ ← W.request (.putField x) [self, v]
    pure (.normal env)
  | some _ => do
    let v ← v.eval sc W env
    pure (.normal (env.set x v))
  | none => Stage.fail .stuck

/-- Stores a value in an item: the array, the index and the value are computed in this order. -/
def evalArrayAssign (x : String) (i v : Expr) : Run W (Completion W) := do
  let array ← Expr.evalVar sc W env x
  let place ← i.eval sc W env
  let v ← v.eval sc W env
  let _ ← W.request .writeItem [array, place, v]
  pure (.normal env)

def evalReturn : Option Expr → Run W (Completion W)
  | none => pure (.returned none)
  | some v => do
    let v ← v.eval sc W env
    pure (.returned (some v))

def evalEffect (e : Expr) : Run W (Completion W) := do
  let _ ← e.eval sc W env
  pure (.normal env)

end Stmt

/-- Execution of a statement in an environment and a heap. -/
inductive Exec (sc : Scope) (W : World Source.Op) : Stmt → Env W → W.Heap → Final W → Prop
  | varDecl {s d env h} : Exec sc W (.varDecl s d) env h ⟨.ok (.normal env), h, []⟩
  | expr {s e env h} : Exec sc W (.expr s e) env h ((Stmt.evalEffect sc W env e).run h)
  | assign {s x v env h} :
      Exec sc W (.assign s x v) env h ((Stmt.evalAssign sc W env x.node v).run h)
  | arrayAssign {s x i v env h} :
      Exec sc W (.arrayAssign s x i v) env h ((Stmt.evalArrayAssign sc W env x.node i v).run h)
  | ret {s v env h} : Exec sc W (.ret s v) env h ((Stmt.evalReturn sc W env v).run h)
  | blockEnd {s env h} : Exec sc W (.block s []) env h ⟨.ok (.normal env), h, []⟩
  | blockNext {s b bs env env₁ h h₁ t₁ o} :
      Exec sc W b env h ⟨.ok (.normal env₁), h₁, t₁⟩ → Exec sc W (.block s bs) env₁ h₁ o →
      Exec sc W (.block s (b :: bs)) env h (o.after t₁)
  | blockLeave {s b bs env h o} :
      Exec sc W b env h o → o.Leaves → Exec sc W (.block s (b :: bs)) env h o
  | ifThenTrue {s c t env h h₁ t₁ o} :
      (c.evalTest sc W env).run h = ⟨.ok true, h₁, t₁⟩ → Exec sc W t env h₁ o →
      Exec sc W (.ifThen s c t) env h (o.after t₁)
  | ifThenFalse {s c t env h h₁ t₁} :
      (c.evalTest sc W env).run h = ⟨.ok false, h₁, t₁⟩ →
      Exec sc W (.ifThen s c t) env h ⟨.ok (.normal env), h₁, t₁⟩
  | ifThenHalt {s c t env h h₁ t₁ e} :
      (c.evalTest sc W env).run h = ⟨.error e, h₁, t₁⟩ →
      Exec sc W (.ifThen s c t) env h ⟨.error e, h₁, t₁⟩
  | ifElseTrue {s c t f env h h₁ t₁ o} :
      (c.evalTest sc W env).run h = ⟨.ok true, h₁, t₁⟩ → Exec sc W t env h₁ o →
      Exec sc W (.ifElse s c t f) env h (o.after t₁)
  | ifElseFalse {s c t f env h h₁ t₁ o} :
      (c.evalTest sc W env).run h = ⟨.ok false, h₁, t₁⟩ → Exec sc W f env h₁ o →
      Exec sc W (.ifElse s c t f) env h (o.after t₁)
  | ifElseHalt {s c t f env h h₁ t₁ e} :
      (c.evalTest sc W env).run h = ⟨.error e, h₁, t₁⟩ →
      Exec sc W (.ifElse s c t f) env h ⟨.error e, h₁, t₁⟩
  | whileFalse {s c b env h h₁ t₁} :
      (c.evalTest sc W env).run h = ⟨.ok false, h₁, t₁⟩ →
      Exec sc W (.whileLoop s c b) env h ⟨.ok (.normal env), h₁, t₁⟩
  | whileHalt {s c b env h h₁ t₁ e} :
      (c.evalTest sc W env).run h = ⟨.error e, h₁, t₁⟩ →
      Exec sc W (.whileLoop s c b) env h ⟨.error e, h₁, t₁⟩
  | whileLeave {s c b env h h₁ t₁ o} :
      (c.evalTest sc W env).run h = ⟨.ok true, h₁, t₁⟩ → Exec sc W b env h₁ o → o.Leaves →
      Exec sc W (.whileLoop s c b) env h (o.after t₁)
  | whileAgain {s c b env env₁ h h₁ h₂ t₁ t₂ o} :
      (c.evalTest sc W env).run h = ⟨.ok true, h₁, t₁⟩ →
      Exec sc W b env h₁ ⟨.ok (.normal env₁), h₂, t₂⟩ →
      Exec sc W (.whileLoop s c b) env₁ h₂ o →
      Exec sc W (.whileLoop s c b) env h (o.after (t₁ ++ t₂))

/-- What a method gives back. One that ends behind its last statement gives back nothing. -/
def Completion.result {W : World Source.Op} : Completion W → Option (Value W.Ref)
  | normal _ => none
  | returned v => v

/-- The body of a method gives back the result, or stops early for the reason given. -/
def ExecBody (sc : Scope) (W : World Source.Op) (body : List Stmt) (env : Env W) (h : W.Heap)
    (o : Outcome W.Heap (Request Source.Op W.Ref) (Halt W.Fault) (Option (Value W.Ref))) : Prop :=
  ∃ r, Exec sc W (.block Span.unknown body) env h ⟨r, o.state, o.output⟩ ∧
    o.result = r.map Completion.result

end MiniJava
