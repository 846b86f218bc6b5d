import MiniJava.Lowering.Basic
import MiniJava.Proofs.SideBySide
import MiniJava.Proofs.Syntax
import MiniJava.Symbols.Derived

/-!
# Variations of programs

Two trees that differ in what the code does not depend on: the ids of expressions, spans,
parentheses and the names of locals and parameters. A `Variation` says which of these differences
there are, and `Expr.Variant` and `Stmt.Variant` relate a tree to the varied one. What a name stands
for in the varied method is what the old name stood for before (`Variation.Scopes.resolve`).
-/

namespace MiniJava

/-! ## Renamings -/

/-- New names for variables. Different names stay different, and the names that the compiler uses
itself, `this` and those of temporaries, stay as they are. -/
structure Renaming where
  name : String → String
  injective : Function.Injective name
  this : name "this" = "this"
  temp : ∀ k, name (Lower.tempName k) = Lower.tempName k

namespace Renaming

/-- The renaming that changes nothing. -/
protected def id : Renaming := ⟨fun x => x, fun _ _ h => h, rfl, fun _ => rfl⟩

@[simp] theorem name_id (x : String) : Renaming.id.name x = x := rfl

def symbol (ρ : Renaming) (s : Symbol) : Symbol := { s with name := ρ.name s.name }

@[simp] theorem symbol_id (s : Symbol) : Renaming.id.symbol s = s := rfl

@[simp] theorem name_symbol (ρ : Renaming) (s : Symbol) : (ρ.symbol s).name = ρ.name s.name := rfl

@[simp] theorem ty_symbol (ρ : Renaming) (s : Symbol) : (ρ.symbol s).ty = s.ty := rfl

/-- What a new name stands for. Fields keep their names. -/
def binding (ρ : Renaming) : Binding → Binding
  | .loc s => .loc (ρ.symbol s)
  | .param k s => .param k (ρ.symbol s)
  | .field s => .field s

@[simp] theorem ty_binding (ρ : Renaming) (b : Binding) : (ρ.binding b).ty = b.ty := by
  cases b <;> rfl

@[simp] theorem isField_binding (ρ : Renaming) (b : Binding) :
    (ρ.binding b).isField = b.isField := by
  cases b <;> rfl

theorem beq_name (ρ : Renaming) (x y : String) : (ρ.name x == ρ.name y) = (x == y) := by
  rw [Bool.eq_iff_iff, beq_iff_eq, beq_iff_eq, ρ.injective.eq_iff]

end Renaming

/-! ## Variants of trees -/

/-- How two trees may differ. -/
structure Variation where
  rename : Renaming
  /-- The names that variables may have in the first tree. -/
  admits : String → Prop
  /-- How the spans that a fault can show may differ. -/
  spans : Span → Span → Prop

/-- The second expression is the first with variables renamed, some parentheses dropped, and other
ids and spans. -/
inductive Expr.Variant (v : Variation) : Expr → Expr → Prop
  | int {n n' : Node} {k : Int32} : Variant v (.int n k) (.int n' k)
  | bool {n n' : Node} {b : Bool} : Variant v (.bool n b) (.bool n' b)
  | var {n n' : Node} {x : String} : v.spans n.span n'.span → v.admits x →
      Variant v (.var n x) (.var n' (v.rename.name x))
  | this {n n' : Node} : Variant v (.this n) (.this n')
  | not {n n' : Node} {e e' : Expr} : Variant v e e' → Variant v (.not n e) (.not n' e')
  | binary {n n' : Node} {op : BinOp} {l l' r r' : Expr} : v.spans n.span n'.span →
      Variant v l l' → Variant v r r' → Variant v (.binary n op l r) (.binary n' op l' r')
  | call {n n' : Node} {r r' : Expr} {m m' : Located String} {args args' : List Expr} :
      v.spans n.span n'.span → Variant v r r' → m'.node = m.node →
      List.Forall₂ (Variant v) args args' → Variant v (.call n r m args) (.call n' r' m' args')
  | newObject {n n' : Node} {c c' : Located String} : c'.node = c.node →
      Variant v (.newObject n c) (.newObject n' c')
  | newArray {n n' : Node} {e e' : Expr} : v.spans n.span n'.span → Variant v e e' →
      Variant v (.newArray n e) (.newArray n' e')
  | length {n n' : Node} {a a' : Expr} : Variant v a a' → Variant v (.length n a) (.length n' a')
  | index {n n' : Node} {a a' i i' : Expr} : v.spans n.span n'.span → Variant v a a' →
      Variant v i i' → Variant v (.index n a i) (.index n' a' i')
  | paren {n n' : Node} {e e' : Expr} : Variant v e e' → Variant v (.paren n e) (.paren n' e')
  /-- Parentheses that the second expression does not have. -/
  | dropped {n : Node} {e e' : Expr} : Variant v e e' → Variant v (.paren n e) e'

/-- The second variable is the first with its new name. -/
structure Variation.Target (v : Variation) (x x' : Located String) : Prop where
  admitted : v.admits x.node
  name : x'.node = v.rename.name x.node
  span : v.spans x.span x'.span

inductive Stmt.Variant (v : Variation) : Stmt → Stmt → Prop
  | varDecl {s s' : Span} {d d' : VarDecl} : d'.symbol = v.rename.symbol d.symbol →
      Variant v (.varDecl s d) (.varDecl s' d')
  | block {s s' : Span} {body body' : List Stmt} : List.Forall₂ (Variant v) body body' →
      Variant v (.block s body) (.block s' body')
  | ifThen {s s' : Span} {c c' : Expr} {t t' : Stmt} : c.Variant v c' → Variant v t t' →
      Variant v (.ifThen s c t) (.ifThen s' c' t')
  | ifElse {s s' : Span} {c c' : Expr} {t t' e e' : Stmt} : c.Variant v c' → Variant v t t' →
      Variant v e e' → Variant v (.ifElse s c t e) (.ifElse s' c' t' e')
  | whileLoop {s s' : Span} {c c' : Expr} {b b' : Stmt} : c.Variant v c' → Variant v b b' →
      Variant v (.whileLoop s c b) (.whileLoop s' c' b')
  | expr {s s' : Span} {e e' : Expr} : e.Variant v e' → Variant v (.expr s e) (.expr s' e')
  | assign {s s' : Span} {x x' : Located String} {e e' : Expr} : v.Target x x' → e.Variant v e' →
      Variant v (.assign s x e) (.assign s' x' e')
  | arrayAssign {s s' : Span} {x x' : Located String} {i i' e e' : Expr} : v.Target x x' →
      i.Variant v i' → e.Variant v e' → Variant v (.arrayAssign s x i e) (.arrayAssign s' x' i' e')
  | retNone {s s' : Span} : Variant v (.ret s none) (.ret s' none)
  | ret {s s' : Span} {e e' : Expr} : e.Variant v e' →
      Variant v (.ret s (some e)) (.ret s' (some e'))

variable {v : Variation}

theorem Expr.Variant.strip {e e' : Expr} (h : e.Variant v e') : e.strip.Variant v e'.strip := by
  induction e using Expr.induction generalizing e' with
  | paren n e ih => cases h with
    | paren he => simpa only [Expr.strip] using ih he
    | dropped he => simpa only [Expr.strip] using ih he
  | _ => cases h; constructor <;> assumption

namespace Stmt.Variant

theorem lastReturns_of {ss ss' : List Stmt}
    (h : List.Forall₂ (fun s s' => s'.definitelyReturns = s.definitelyReturns) ss ss') :
    lastReturns ss' = lastReturns ss := by
  induction h with
  | nil => rfl
  | cons hs hrest ih =>
    cases hrest with
    | nil => exact hs
    | cons hs' hrest' => exact ih

theorem definitelyReturns {s s' : Stmt} (h : s.Variant v s') :
    s'.definitelyReturns = s.definitelyReturns := by
  induction s using Stmt.induction generalizing s' with
  | block sp body ih => cases h with
    | block hbody => exact lastReturns_of (forall₂_imp_mem hbody fun t ht t' _ htt' => ih t ht htt')
  | ifElse sp c t e iht ihe => cases h with
    | ifElse hc ht he => rw [Stmt.definitelyReturns, Stmt.definitelyReturns, iht ht, ihe he]
  | _ => cases h <;> rfl

theorem lastReturns {ss ss' : List Stmt} (h : List.Forall₂ (Variant v) ss ss') :
    Stmt.lastReturns ss' = Stmt.lastReturns ss :=
  lastReturns_of (h.imp fun _ _ hs => hs.definitelyReturns)

end Stmt.Variant

/-! ## Scopes -/

/-- What other classes and methods can know of a method. -/
def MethodSymbols.signature (m : MethodSymbols) : List Ty × Ty :=
  (m.params.map Symbol.ty, m.returnTy)

/-- The second scope is the first with the parameters and locals of the method renamed. A variable
that is neither keeps its name. -/
structure Variation.Scopes (v : Variation) (sc sc' : Scope) : Prop where
  imports : sc'.table.imports = sc.table.imports
  className : sc'.cls.name = sc.cls.name
  superName : sc'.cls.superName = sc.cls.superName
  fields : sc'.cls.fields = sc.cls.fields
  signatures : ∀ m, (sc'.cls.method? m).map MethodSymbols.signature =
    (sc.cls.method? m).map MethodSymbols.signature
  isStatic : sc'.isStatic = sc.isStatic
  returnTy : sc'.method.returnTy = sc.method.returnTy
  params : sc'.method.params = sc.method.params.map v.rename.symbol
  locals : sc'.method.locals = sc.method.locals.map v.rename.symbol
  fixed : ∀ x, v.admits x → x ∉ (sc.method.locals ++ sc.method.params).map Symbol.name →
    v.rename.name x = x

theorem Renaming.find?_symbol (ρ : Renaming) (l : List Symbol) (x : String) :
    (l.map ρ.symbol).find? (·.name == ρ.name x) = (l.find? (·.name == x)).map ρ.symbol := by
  rw [List.find?_map]
  congr 2
  funext s
  exact ρ.beq_name s.name x

theorem Renaming.findParam_symbol (ρ : Renaming) (l : List Symbol) (x : String) (k : Nat) :
    ClassSymbols.findParam (ρ.name x) (l.map ρ.symbol) k =
      (ClassSymbols.findParam x l k).map ρ.binding := by
  induction l generalizing k with
  | nil => rfl
  | cons s l ih =>
    rw [List.map_cons, ClassSymbols.findParam, ClassSymbols.findParam, name_symbol, beq_name, ih]
    split <;> rfl

theorem ClassSymbols.findParam_eq_none {x : String} {ps : List Symbol} {k : Nat}
    (h : findParam x ps k = none) : x ∉ ps.map Symbol.name := by
  induction ps generalizing k with
  | nil => simp
  | cons p ps ih =>
    rw [findParam] at h
    split at h
    · cases h
    · next hp =>
      rw [List.map_cons, List.mem_cons, not_or]
      exact ⟨fun heq => hp (beq_iff_eq.2 heq.symm), ih h⟩

theorem ClassSymbols.isField_of_findParam {x : String} {ps : List Symbol} {k : Nat} {b : Binding}
    (h : findParam x ps k = some b) : b.isField = false := by
  induction ps generalizing k with
  | nil => cases h
  | cons p ps ih =>
    rw [findParam] at h
    split at h
    · cases h
      rfl
    · exact ih h

namespace Variation.Scopes

variable {sc sc' : Scope}

/-- A variable that is neither a local nor a parameter keeps its name. -/
theorem name_of_free (h : v.Scopes sc sc') {x : String} (hx : v.admits x)
    (hlocal : sc.method.locals.find? (·.name == x) = none)
    (hparam : ClassSymbols.findParam x sc.method.params 1 = none) : v.rename.name x = x := by
  refine h.fixed x hx ?_
  rw [List.map_append, List.mem_append, not_or]
  exact ⟨by simpa using hlocal, ClassSymbols.findParam_eq_none hparam⟩

/-- A new name stands for what the old one stood for. -/
theorem resolve (h : v.Scopes sc sc') {x : String} (hx : v.admits x) :
    sc'.resolve (v.rename.name x) = (sc.resolve x).map v.rename.binding := by
  unfold Scope.resolve ClassSymbols.resolve ClassSymbols.field?
  rw [h.params, h.locals, h.fields, v.rename.find?_symbol, v.rename.findParam_symbol]
  cases hlocal : sc.method.locals.find? (·.name == x) with
  | some s => rfl
  | none =>
    cases hparam : ClassSymbols.findParam x sc.method.params 1 with
    | some b => rfl
    | none =>
      rw [h.name_of_free hx hlocal hparam]
      cases sc.cls.fields.find? (·.name == x) <;> rfl

/-- Fields and class names are not renamed. -/
theorem name_of_resolve (h : v.Scopes sc sc') {x : String} (hx : v.admits x)
    (hresolve : ∀ b, sc.resolve x = some b → b.isField = true) : v.rename.name x = x := by
  cases hlocal : sc.method.locals.find? (·.name == x) with
  | some s =>
    have hs : sc.resolve x = some (.loc s) := by
      rw [Scope.resolve, ClassSymbols.resolve, hlocal]
      rfl
    cases hresolve _ hs
  | none =>
    cases hparam : ClassSymbols.findParam x sc.method.params 1 with
    | some b =>
      have hb : sc.resolve x = some b := by
        rw [Scope.resolve, ClassSymbols.resolve, hlocal, hparam]
        rfl
      have hfield : b.isField = true := hresolve b hb
      rw [ClassSymbols.isField_of_findParam hparam] at hfield
      cases hfield
    | none => exact h.name_of_free hx hlocal hparam

theorem isImported (h : v.Scopes sc sc') (c : String) :
    sc'.table.isImported c = sc.table.isImported c := by
  rw [SymbolTable.isImported, SymbolTable.importPath, h.imports]
  rfl

theorem isClassName (h : v.Scopes sc sc') (c : String) : sc'.isClassName c = sc.isClassName c := by
  rw [Scope.isClassName, SymbolTable.isClassName, h.isImported, h.className, h.superName]
  rfl

theorem assignable (h : v.Scopes sc sc') (source target : Ty) :
    sc'.assignable source target = sc.assignable source target := by
  unfold Scope.assignable
  rw [h.className, h.superName]
  simp only [h.isImported]

theorem thisTy (h : v.Scopes sc sc') : sc'.thisTy = sc.thisTy := by
  rw [Scope.thisTy, h.className]
  rfl

/-- Both scopes know a method, with the same signature, or none does. -/
theorem method? (h : v.Scopes sc sc') (m : String) :
    (sc.cls.method? m = none ∧ sc'.cls.method? m = none) ∨
      ∃ sig sig', sc.cls.method? m = some sig ∧ sc'.cls.method? m = some sig' ∧
        sig'.params.map Symbol.ty = sig.params.map Symbol.ty ∧ sig'.returnTy = sig.returnTy := by
  have hsig := h.signatures m
  cases hold : sc.cls.method? m with
  | none =>
    rw [hold, Option.map_none, Option.map_eq_none_iff] at hsig
    exact .inl ⟨rfl, hsig⟩
  | some sig =>
    rw [hold, Option.map_some] at hsig
    obtain ⟨sig', hnew, heq⟩ := Option.map_eq_some_iff.1 hsig
    exact .inr ⟨sig, sig', rfl, hnew, congrArg Prod.fst heq, congrArg Prod.snd heq⟩

end Variation.Scopes

end MiniJava
