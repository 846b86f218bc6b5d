import MiniJava.Proofs.Variation.Plain

/-!
# Outlines

The outline of a program is the program without the ids of its expressions, and with its spans
replaced. Types go from the annotator to the lowering through a map that is keyed by ids, and every
report has a span; what a program is compiled to depends on neither.

**Theorem** (`compiled_of_same_outline`). Two programs with unique ids that are equal apart from ids
and spans are compiled to the same, or neither is compiled, for the same reasons.
-/

namespace MiniJava

open Ir

/-! ## Trees without ids -/

section

variable (place : Span → Span)

def Node.outline (n : Node) : Node := { span := place n.span }

def Located.outline {α : Type} (x : Located α) : Located α := { x with span := place x.span }

namespace Expr

mutual

/-- The expression without ids, with its spans replaced. -/
def outline : Expr → Expr
  | int n k => int (n.outline place) k
  | bool n b => bool (n.outline place) b
  | var n x => var (n.outline place) x
  | this n => this (n.outline place)
  | not n e => not (n.outline place) e.outline
  | binary n op l r => binary (n.outline place) op l.outline r.outline
  | call n r m args => call (n.outline place) r.outline (m.outline place) (outlineAll args)
  | newObject n c => newObject (n.outline place) (c.outline place)
  | newArray n e => newArray (n.outline place) e.outline
  | length n a => length (n.outline place) a.outline
  | index n a i => index (n.outline place) a.outline i.outline
  | paren n e => paren (n.outline place) e.outline

def outlineAll : List Expr → List Expr
  | [] => []
  | e :: es => e.outline :: outlineAll es

end

theorem outlineAll_eq_map (es : List Expr) : outlineAll place es = es.map (outline place) := by
  induction es with
  | nil => rfl
  | cons e es ih => rw [outlineAll, List.map_cons, ih]

end Expr

def VarDecl.outline (d : VarDecl) : VarDecl :=
  { name := d.name.outline place, ty := d.ty.outline place }

namespace Stmt

mutual

def outline : Stmt → Stmt
  | varDecl s d => varDecl (place s) (d.outline place)
  | block s body => block (place s) (outlineAll body)
  | ifThen s c t => ifThen (place s) (c.outline place) t.outline
  | ifElse s c t e => ifElse (place s) (c.outline place) t.outline e.outline
  | whileLoop s c b => whileLoop (place s) (c.outline place) b.outline
  | expr s e => expr (place s) (e.outline place)
  | assign s x e => assign (place s) (x.outline place) (e.outline place)
  | arrayAssign s x i e => arrayAssign (place s) (x.outline place) (i.outline place)
      (e.outline place)
  | ret s e => ret (place s) (e.map (Expr.outline place))

def outlineAll : List Stmt → List Stmt
  | [] => []
  | s :: ss => s.outline :: outlineAll ss

end

theorem outlineAll_eq_map (ss : List Stmt) : outlineAll place ss = ss.map (outline place) := by
  induction ss with
  | nil => rfl
  | cons s ss ih => rw [outlineAll, List.map_cons, ih]

end Stmt

def MethodDecl.outline (d : MethodDecl) : MethodDecl :=
  { d with
    name := d.name.outline place
    returnTy := d.returnTy.outline place
    params := d.params.map (VarDecl.outline place)
    body := Stmt.outlineAll place d.body }

def ClassDecl.outline (d : ClassDecl) : ClassDecl where
  name := d.name.outline place
  superName := d.superName.map (Located.outline place)
  fields := d.fields.map (VarDecl.outline place)
  methods := d.methods.map (MethodDecl.outline place)

/-- The program without ids, with its spans replaced. -/
def Program.outline (p : Program) : Program where
  imports := p.imports.map (Located.outline place)
  classes := p.classes.map (ClassDecl.outline place)

end

/-! ## Equal outlines -/

/-- Spans that are replaced by the same. -/
abbrev Variation.placed (place : Span → Span) : Variation := .plain fun s s' => place s' = place s

variable {place : Span → Span}

theorem forall₂_of_map_eq {α β : Type} {R : α → α → Prop} {f : α → β} {l l' : List α}
    (h : l'.map f = l.map f) (himp : ∀ a ∈ l, ∀ a', f a' = f a → R a a') : List.Forall₂ R l l' := by
  have hrel : List.Forall₂ (fun a a' => f a' = f a) l l' := by
    rw [← List.forall₂_eq_eq_eq, List.forall₂_map_left_iff, List.forall₂_map_right_iff] at h
    exact h.flip
  exact forall₂_imp_mem hrel fun a ha a' _ haa' => himp a ha a' haa'

theorem Located.node_of_outline {α : Type} {x x' : Located α}
    (h : x'.outline place = x.outline place) :
    x'.node = x.node := by
  show (x'.outline place).node = (x.outline place).node
  rw [h]

theorem Located.span_of_outline {α : Type} {x x' : Located α}
    (h : x'.outline place = x.outline place) :
    place x'.span = place x.span := by
  show (x'.outline place).span = (x.outline place).span
  rw [h]

theorem Node.span_of_outline {n n' : Node} (h : n'.outline place = n.outline place) :
    place n'.span = place n.span := by
  show (n'.outline place).span = (n.outline place).span
  rw [h]

theorem VarDecl.symbol_of_outline {d d' : VarDecl} (h : d'.outline place = d.outline place) :
    d'.symbol = d.symbol := by
  show (d'.outline place).symbol = (d.outline place).symbol
  rw [h]

theorem VarDecl.symbols_of_outline {ds ds' : List VarDecl}
    (h : ds'.map (VarDecl.outline place) = ds.map (VarDecl.outline place)) :
    ds'.map VarDecl.symbol = ds.map VarDecl.symbol := by
  have hsymbols := congrArg (List.map VarDecl.symbol) h
  rw [List.map_map, List.map_map] at hsymbols
  exact hsymbols

theorem Located.nodes_of_outline {α : Type} {xs xs' : List (Located α)}
    (h : xs'.map (Located.outline place) = xs.map (Located.outline place)) :
    (xs'.map fun x => x.node) = xs.map fun x => x.node := by
  have hnodes := congrArg (List.map Located.node) h
  rw [List.map_map, List.map_map] at hnodes
  exact hnodes

/-- Expressions with the same outline are variants of each other. -/
theorem Expr.variant_of_outline {e e' : Expr} (h : e'.outline place = e.outline place) :
    e.Variant (.placed place) e' := by
  -- Outlines keep the constructor, so the other tree has the same one.
  induction e using Expr.induction generalizing e' with
  | int n k =>
    cases e' <;> simp only [outline, Expr.int.injEq, reduceCtorEq] at h
    rw [h.2]
    exact .int
  | bool n b =>
    cases e' <;> simp only [outline, Expr.bool.injEq, reduceCtorEq] at h
    rw [h.2]
    exact .bool
  | var n x =>
    cases e' <;> simp only [outline, Expr.var.injEq, reduceCtorEq] at h
    rw [h.2]
    exact .var (Node.span_of_outline h.1) trivial
  | this n =>
    cases e' <;> simp only [outline, reduceCtorEq] at h
    exact .this
  | not n e ih =>
    cases e' <;> simp only [outline, Expr.not.injEq, reduceCtorEq] at h
    exact .not (ih h.2)
  | binary n op l r ihl ihr =>
    cases e' <;> simp only [outline, Expr.binary.injEq, reduceCtorEq] at h
    obtain ⟨hn, rfl, hl, hr⟩ := h
    exact .binary (Node.span_of_outline hn) (ihl hl) (ihr hr)
  | call n r m args ihr ihargs =>
    cases e' <;> simp only [outline, Expr.call.injEq, reduceCtorEq] at h
    obtain ⟨hn, hr, hm, hargs⟩ := h
    rw [outlineAll_eq_map, outlineAll_eq_map] at hargs
    exact .call (Node.span_of_outline hn) (ihr hr) (Located.node_of_outline hm)
      (forall₂_of_map_eq hargs fun a ha a' haa' => ihargs a ha haa')
  | newObject n c =>
    cases e' <;> simp only [outline, Expr.newObject.injEq, reduceCtorEq] at h
    exact .newObject (Located.node_of_outline h.2)
  | newArray n e ih =>
    cases e' <;> simp only [outline, Expr.newArray.injEq, reduceCtorEq] at h
    exact .newArray (Node.span_of_outline h.1) (ih h.2)
  | length n a ih =>
    cases e' <;> simp only [outline, Expr.length.injEq, reduceCtorEq] at h
    exact .length (ih h.2)
  | index n a i iha ihi =>
    cases e' <;> simp only [outline, Expr.index.injEq, reduceCtorEq] at h
    exact .index (Node.span_of_outline h.1) (iha h.2.1) (ihi h.2.2)
  | paren n e ih =>
    cases e' <;> simp only [outline, Expr.paren.injEq, reduceCtorEq] at h
    exact .paren (ih h.2)

theorem Variation.target_of_outline {x x' : Located String}
    (h : x'.outline place = x.outline place) :
    (Variation.placed place).Target x x' :=
  ⟨trivial, Located.node_of_outline h, Located.span_of_outline h⟩

theorem Stmt.variant_of_outline {s s' : Stmt} (h : s'.outline place = s.outline place) :
    s.Variant (.placed place) s' := by
  induction s using Stmt.induction generalizing s' with
  | varDecl sp d =>
    cases s' <;> simp only [outline, Stmt.varDecl.injEq, reduceCtorEq] at h
    exact .varDecl (VarDecl.symbol_of_outline h.2)
  | block sp body ih =>
    cases s' <;> simp only [outline, Stmt.block.injEq, reduceCtorEq] at h
    rw [outlineAll_eq_map, outlineAll_eq_map] at h
    exact .block (forall₂_of_map_eq h.2 fun t ht t' htt' => ih t ht htt')
  | ifThen sp c t ih =>
    cases s' <;> simp only [outline, Stmt.ifThen.injEq, reduceCtorEq] at h
    exact .ifThen (Expr.variant_of_outline h.2.1) (ih h.2.2)
  | ifElse sp c t e iht ihe =>
    cases s' <;> simp only [outline, Stmt.ifElse.injEq, reduceCtorEq] at h
    exact .ifElse (Expr.variant_of_outline h.2.1) (iht h.2.2.1) (ihe h.2.2.2)
  | whileLoop sp c b ih =>
    cases s' <;> simp only [outline, Stmt.whileLoop.injEq, reduceCtorEq] at h
    exact .whileLoop (Expr.variant_of_outline h.2.1) (ih h.2.2)
  | expr sp e =>
    cases s' <;> simp only [outline, Stmt.expr.injEq, reduceCtorEq] at h
    exact .expr (Expr.variant_of_outline h.2)
  | assign sp x e =>
    cases s' <;> simp only [outline, Stmt.assign.injEq, reduceCtorEq] at h
    exact .assign (Variation.target_of_outline h.2.1) (Expr.variant_of_outline h.2.2)
  | arrayAssign sp x i e =>
    cases s' <;> simp only [outline, Stmt.arrayAssign.injEq, reduceCtorEq] at h
    obtain ⟨-, hx, hi, he⟩ := h
    exact .arrayAssign (Variation.target_of_outline hx) (Expr.variant_of_outline hi)
      (Expr.variant_of_outline he)
  | ret sp e =>
    cases s' <;> simp only [outline, Stmt.ret.injEq, reduceCtorEq] at h
    next sp' e' =>
    cases e with
    | none => cases e' with
      | none => exact .retNone
      | some e' => cases h.2
    | some e => cases e' with
      | none => cases h.2
      | some e' => exact .ret (Expr.variant_of_outline (Option.some.inj h.2))

theorem MethodDecl.variant_of_outline {d d' : MethodDecl} (h : d'.outline place = d.outline place) :
    d.Variant (.placed place) d' := by
  simp only [outline, MethodDecl.mk.injEq] at h
  obtain ⟨hpublic, hstatic, hname, hreturn, hparams, hbody⟩ := h
  rw [Stmt.outlineAll_eq_map, Stmt.outlineAll_eq_map] at hbody
  refine ⟨hpublic, hstatic, Located.node_of_outline hname, Located.node_of_outline hreturn, ?_, ?_⟩
  · rw [VarDecl.symbols_of_outline hparams]
    exact (List.map_id _).symm
  · exact forall₂_of_map_eq hbody fun s _ s' hs => Stmt.variant_of_outline hs

theorem ClassDecl.variantIn_of_outline {table : SymbolTable} {d d' : ClassDecl}
    (h : d'.outline place = d.outline place) : d.VariantIn (· = .placed place) table table d' := by
  simp only [outline, ClassDecl.mk.injEq] at h
  obtain ⟨hname, hsuper, hfields, hmethods⟩ := h
  refine variantIn_plain (Located.node_of_outline hname) ?_ (VarDecl.symbols_of_outline hfields)
    (forall₂_of_map_eq hmethods fun md _ md' hmd => MethodDecl.variant_of_outline hmd)
  have hnames := congrArg (Option.map Located.node) hsuper
  rw [Option.map_map, Option.map_map] at hnames
  exact hnames

theorem Program.variantIn_of_outline {table : SymbolTable} {p p' : Program}
    (h : p'.outline place = p.outline place) : p.VariantIn (· = .placed place) table table p' := by
  simp only [outline, Program.mk.injEq] at h
  exact ⟨Located.nodes_of_outline h.1,
    forall₂_of_map_eq h.2 fun d _ d' hd => ClassDecl.variantIn_of_outline hd⟩

/-! ## Compilation -/

/-- Both are compiled to the same classes with warnings that say the same, or neither is compiled:
both have errors that say the same, or both cannot be lowered for the same cause. -/
inductive SameOutcome : Except CompileError Output → Except CompileError Output → Prop
  | ok {o o' : Output} : o'.classes = o.classes →
      o'.warnings.map Diagnostic.gist = o.warnings.map Diagnostic.gist →
        SameOutcome (.ok o) (.ok o')
  | semantic {ds ds' : List Diagnostic} : ds'.map Diagnostic.gist = ds.map Diagnostic.gist →
      SameOutcome (.error (.semantic ds)) (.error (.semantic ds'))
  | lower {e e' : LowerError} : e'.placeless = e.placeless →
      SameOutcome (.error (.lower e)) (.error (.lower e'))

/-- Two programs are compiled alike if the annotator says the same of them and lowering gives the
same. -/
theorem Program.VariantIn.compiled_plain {S : Span → Span → Prop} {table : SymbolTable}
    {p p' : Program} (h : p.VariantIn (· = .plain S) table table p') (hids : p.uniqueIds = true)
    (hids' : p'.uniqueIds = true) (options : Options) :
    SameOutcome (p.compiled table options) (p'.compiled table options) := by
  -- Three ways to end: errors of the annotator, a fault of the lowering, or classes.
  cases herrors : (p.annotate table).hasErrors with
  | true =>
    have herrors' : (p'.annotate table).hasErrors = true := h.hasErrors_eq.trans herrors
    rw [compiled_of_hasErrors hids herrors, compiled_of_hasErrors hids' herrors']
    exact .semantic h.gists
  | false =>
    have hp : p.checked table = .ok (p.annotate table) := checked_of_not_hasErrors hids herrors
    have hp' : p'.checked table = .ok (p'.annotate table) :=
      checked_of_not_hasErrors hids' (h.hasErrors_eq.trans herrors)
    have hlower := h.lower_plain hids hids'
    generalize hold : ((p.lower table (p.annotate table).types).run {}).result = r,
      hnew : ((p'.lower table (p'.annotate table).types).run {}).result = r' at hlower
    cases hlower with
    | error he =>
      rw [compiled_of_fault hp hold, compiled_of_fault hp' hnew]
      exact .lower he.placeless_eq
    | ok hunits =>
      subst hunits
      obtain ⟨classes, hcompiled, hclasses⟩ := compiled_of_lower options hp hold
      obtain ⟨classes', hcompiled', hclasses'⟩ := compiled_of_lower options hp' hnew
      rw [hcompiled, hcompiled']
      exact .ok (ClassUnit.CompilesTo.all_unique hclasses hclasses') h.gists_warnings

/-- **Ids and spans do not matter.** Two programs that are equal apart from the ids of expressions
and from spans, both with unique ids, have the same outcome with any symbol table and any
options. -/
theorem compiled_of_same_outline {p q : Program}
    (h : q.outline (fun _ => .unknown) = p.outline fun _ => .unknown) (hp : p.uniqueIds = true)
    (hq : q.uniqueIds = true) (table : SymbolTable) (options : Options) :
    SameOutcome (p.compiled table options) (q.compiled table options) :=
  (Program.variantIn_of_outline h).compiled_plain hp hq options

namespace Cup

/-- `int fill(int a) { return (a + io.read()); }`, with the given nodes. -/
def fill (node : Nat → Node) : MethodDecl where
  name := { node := "fill", span := (node 0).span }
  returnTy := { node := .int }
  params := [{ name := { node := "a" }, ty := { node := .int, span := (node 1).span } }]
  body := [.ret (node 0).span (some (.paren (node 0) (.binary (node 1) .add (.var (node 2) "a")
    (.call (node 3) (.var (node 4) "io") { node := "read", span := (node 4).span } []))))]

def decl (node : Nat → Node) : ClassDecl where
  name := { node := "Cup", span := (node 2).span }
  methods := [fill node]

def program (node : Nat → Node) : Program where
  imports := [{ node := "io", span := (node 3).span }, { node := "net.Socket" }]
  classes := [decl node]

/-- Nodes in order, without spans. -/
def ascending (i : Nat) : Node := { id := i }

/-- Other nodes, with spans. -/
def descending (i : Nat) : Node := { id := 40 - 3 * i, span := ⟨UInt32.ofNat i, 7⟩ }

theorem same_outcome :
    (program descending).outline (fun _ => .unknown) =
      (program ascending).outline (fun _ => .unknown) ∧
    (program ascending).uniqueIds = true ∧ (program descending).uniqueIds = true ∧
    SameOutcome ((program ascending).compiled (.ofProgram (program ascending)) { keepIr := true })
      ((program descending).compiled (.ofProgram (program ascending)) { keepIr := true }) := by
  have houtline : (program descending).outline (fun _ => .unknown) =
      (program ascending).outline fun _ => .unknown := rfl
  have hascending : (program ascending).uniqueIds = true :=
    Program.uniqueIds_iff_nodup.2 (by decide)
  have hdescending : (program descending).uniqueIds = true :=
    Program.uniqueIds_iff_nodup.2 (by decide)
  exact ⟨houtline, hascending, hdescending,
    compiled_of_same_outline houtline hascending hdescending _ _⟩

end Cup

end MiniJava
