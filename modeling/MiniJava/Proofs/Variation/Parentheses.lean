import MiniJava.Proofs.Variation.Outline

/-!
# Parentheses

Parentheses are nodes of the tree with an id and a type of their own. The annotator, the adoption of
types and the lowering each have a rule for them, and the rule for expressions that stand as
statements looks for a call without looking inside them. Taken together the rules make no difference
between an expression and the same expression in parentheses.

**Theorem** (`parentheses_transparent`). A program and the same program without its parentheses,
numbered anew, have diagnostics that say the same, and lowering gives the same for both.
-/

namespace MiniJava

open Ir

/-! ## Removing parentheses -/

namespace Expr

mutual

/-- The expression with everything in parentheses in the place of the parentheses. -/
def unparen : Expr → Expr
  | int n k => int n k
  | bool n b => bool n b
  | var n x => var n x
  | this n => this n
  | not n e => not n e.unparen
  | binary n op l r => binary n op l.unparen r.unparen
  | call n r m args => call n r.unparen m (unparenAll args)
  | newObject n c => newObject n c
  | newArray n e => newArray n e.unparen
  | length n a => length n a.unparen
  | index n a i => index n a.unparen i.unparen
  | paren _ e => e.unparen

def unparenAll : List Expr → List Expr
  | [] => []
  | e :: es => e.unparen :: unparenAll es

end

theorem unparenAll_eq_map (es : List Expr) : unparenAll es = es.map unparen := by
  induction es with
  | nil => rfl
  | cons e es ih => rw [unparenAll, List.map_cons, ih]

end Expr

namespace Stmt

mutual

def unparen : Stmt → Stmt
  | varDecl s d => varDecl s d
  | block s body => block s (unparenAll body)
  | ifThen s c t => ifThen s c.unparen t.unparen
  | ifElse s c t e => ifElse s c.unparen t.unparen e.unparen
  | whileLoop s c b => whileLoop s c.unparen b.unparen
  | expr s e => expr s e.unparen
  | assign s x e => assign s x e.unparen
  | arrayAssign s x i e => arrayAssign s x i.unparen e.unparen
  | ret s e => ret s (e.map Expr.unparen)

def unparenAll : List Stmt → List Stmt
  | [] => []
  | s :: ss => s.unparen :: unparenAll ss

end

theorem unparenAll_eq_map (ss : List Stmt) : unparenAll ss = ss.map unparen := by
  induction ss with
  | nil => rfl
  | cons s ss ih => rw [unparenAll, List.map_cons, ih]

end Stmt

def MethodDecl.unparen (d : MethodDecl) : MethodDecl := { d with body := Stmt.unparenAll d.body }

def ClassDecl.unparen (d : ClassDecl) : ClassDecl :=
  { d with methods := d.methods.map MethodDecl.unparen }

/-- The program without parentheses. -/
def Program.unparen (p : Program) : Program := { p with classes := p.classes.map ClassDecl.unparen }

/-! ## Variants without parentheses -/

variable {v : Variation}

/-- A variant of the expression without parentheses is one of the expression itself. -/
theorem Expr.Variant.of_unparen {e e' : Expr} (h : e.unparen.Variant v e') : e.Variant v e' := by
  induction e using Expr.induction generalizing e' with
  | int | bool | var | this | newObject => exact h
  | not n e ih => cases h with
    | not he => exact .not (ih he)
  | binary n op l r ihl ihr => cases h with
    | binary hspan hl hr => exact .binary hspan (ihl hl) (ihr hr)
  | call n r m args ihr ihargs => cases h with
    | call hspan hr hm hargs =>
      rw [unparenAll_eq_map, List.forall₂_map_left_iff] at hargs
      exact .call hspan (ihr hr) hm (forall₂_imp_mem hargs fun a ha a' _ haa' => ihargs a ha haa')
  | newArray n e ih => cases h with
    | newArray hspan he => exact .newArray hspan (ih he)
  | length n a ih => cases h with
    | length ha => exact .length (ih ha)
  | index n a i iha ihi => cases h with
    | index hspan ha hi => exact .index hspan (iha ha) (ihi hi)
  | paren n e ih => exact .dropped (ih h)

theorem Stmt.Variant.of_unparen {s s' : Stmt} (h : s.unparen.Variant v s') : s.Variant v s' := by
  induction s using Stmt.induction generalizing s' with
  | varDecl sp d => exact h
  | block sp body ih => cases h with
    | block hbody =>
      rw [unparenAll_eq_map, List.forall₂_map_left_iff] at hbody
      exact .block (forall₂_imp_mem hbody fun t ht t' _ htt' => ih t ht htt')
  | ifThen sp c t ih => cases h with
    | ifThen hc ht => exact .ifThen hc.of_unparen (ih ht)
  | ifElse sp c t e iht ihe => cases h with
    | ifElse hc ht he => exact .ifElse hc.of_unparen (iht ht) (ihe he)
  | whileLoop sp c b ih => cases h with
    | whileLoop hc hb => exact .whileLoop hc.of_unparen (ih hb)
  | expr sp e => cases h with
    | expr he => exact .expr he.of_unparen
  | assign sp x e => cases h with
    | assign hx he => exact .assign hx he.of_unparen
  | arrayAssign sp x i e => cases h with
    | arrayAssign hx hi he => exact .arrayAssign hx hi.of_unparen he.of_unparen
  | ret sp e =>
    cases e with
    | none => exact h
    | some e => cases h with
      | ret he => exact .ret he.of_unparen

theorem MethodDecl.Variant.of_unparen {d d' : MethodDecl} (h : d.unparen.Variant v d') :
    d.Variant v d' := by
  have hbody : List.Forall₂ (Stmt.Variant v) (Stmt.unparenAll d.body) d'.body := h.body
  rw [Stmt.unparenAll_eq_map, List.forall₂_map_left_iff] at hbody
  exact ⟨h.isPublic, h.isStatic, h.name, h.returnTy, h.params,
    hbody.imp fun _ _ hs => hs.of_unparen⟩

theorem ClassDecl.VariantIn.of_unparen {V : Variation → Prop} {table table' : SymbolTable}
    {d d' : ClassDecl} (h : d.unparen.VariantIn V table table' d') :
    d.VariantIn V table table' d' := by
  have hmethods := h.methods
  rw [ClassDecl.unparen, List.forall₂_map_left_iff] at hmethods
  refine ⟨h.name, h.superName, h.fields, h.found, hmethods.imp fun md md' hmd => ?_⟩
  obtain ⟨w, hw, hvariant, hfound⟩ := hmd
  exact ⟨w, hw, hvariant.of_unparen, hfound⟩

theorem Program.VariantIn.of_unparen {V : Variation → Prop} {table table' : SymbolTable}
    {p p' : Program} (h : p.unparen.VariantIn V table table' p') :
    p.VariantIn V table table' p' := by
  have hclasses := h.classes
  rw [Program.unparen, List.forall₂_map_left_iff] at hclasses
  exact ⟨h.imports, hclasses.imp fun d d' hd => hd.of_unparen⟩

/-! ## Transparency -/

/-- **Parentheses are transparent.** Let `q` be `p` without parentheses, with ids given anew, and
let ids be unique in both. Then the diagnostics of both say the same in the same order, and lowering
gives the same classes or the same fault. So if there are no errors, the programs are compiled to
the same code and assembly or fail alike. -/
theorem parentheses_transparent {p q : Program}
    (h : q.outline (fun s => s) = p.unparen.outline fun s => s) (hp : p.uniqueIds = true)
    (hq : q.uniqueIds = true) (table : SymbolTable) (options : Options) :
    (q.annotate table).diagnostics.map Diagnostic.gist =
      (p.annotate table).diagnostics.map Diagnostic.gist ∧
    ((q.lower table (q.annotate table).types).run {}).result =
      ((p.lower table (p.annotate table).types).run {}).result ∧
    ((p.annotate table).hasErrors = false → q.lowered table = p.lowered table ∧
      (q.compiled table options).map Output.classes =
        (p.compiled table options).map Output.classes) := by
  -- Both programs have the same outline once the parentheses are gone, and that makes one a variant
  -- of the other.
  have hvariant : p.VariantIn (· = .placed fun s => s) table table q :=
    (Program.variantIn_of_outline h).of_unparen
  have hlower : ((q.lower table (q.annotate table).types).run {}).result =
      ((p.lower table (p.annotate table).types).run {}).result := by
    have halike := hvariant.lower_plain hp hq
    generalize ((p.lower table (p.annotate table).types).run {}).result = r,
      ((q.lower table (q.annotate table).types).run {}).result = r' at halike ⊢
    cases halike with
    | ok hunits => rw [hunits]
    -- The spans are equal too, so not only the cause of a fault is the same.
    | error he => rw [he.eq fun _ _ hspan => hspan]
  refine ⟨hvariant.gists, hlower, fun herrors => ?_⟩
  have hpc : p.checked table = .ok (p.annotate table) := Program.checked_of_not_hasErrors hp herrors
  have hqc : q.checked table = .ok (q.annotate table) :=
    Program.checked_of_not_hasErrors hq (hvariant.hasErrors_eq.trans herrors)
  refine ⟨?_, ?_⟩
  · rw [Program.lowered_eq hpc, Program.lowered_eq hqc, hlower]
  · cases hresult : ((p.lower table (p.annotate table).types).run {}).result with
    | error e =>
      rw [Program.compiled_of_fault hpc hresult,
        Program.compiled_of_fault hqc (hlower.trans hresult)]
    | ok units =>
      obtain ⟨classes, hcompiled, hall⟩ := Program.compiled_of_lower options hpc hresult
      obtain ⟨classes', hcompiled', hall'⟩ :=
        Program.compiled_of_lower options hqc (hlower.trans hresult)
      rw [hcompiled, hcompiled', ClassUnit.CompilesTo.all_unique hall hall']
      rfl

namespace Brim

/-- `int pour(int a) { (io.print((a))); return ((a) + (io.read())); }`. -/
def pour : MethodDecl where
  name := { node := "pour" }
  returnTy := { node := .int }
  params := [{ name := { node := "a" }, ty := { node := .int } }]
  body := [
    .expr .unknown
      (.paren { id := 0 } (.call { id := 1 } (.var { id := 2 } "io") { node := "print" }
      [.paren { id := 3 } (.var { id := 4 } "a")])),
    .ret .unknown (some (.paren { id := 5 } (.binary { id := 6 } .add
      (.paren { id := 7 } (.var { id := 8 } "a"))
      (.paren { id := 9 } (.call { id := 10 } (.var { id := 11 } "io") { node := "read" } [])))))]

/-- `int pour(int a) { io.print(a); return a + io.read(); }`. -/
def pourBare : MethodDecl where
  name := { node := "pour" }
  returnTy := { node := .int }
  params := [{ name := { node := "a" }, ty := { node := .int } }]
  body := [
    .expr .unknown
      (.call { id := 0 } (.var { id := 1 } "io") { node := "print" } [.var { id := 2 } "a"]),
    .ret .unknown (some (.binary { id := 3 } .add (.var { id := 4 } "a")
      (.call { id := 5 } (.var { id := 6 } "io") { node := "read" } [])))]

def program (d : MethodDecl) : Program where
  imports := [{ node := "io" }]
  classes := [{ name := { node := "Brim" }, methods := [d] }]

theorem pour_transparent : (program pour).uniqueIds = true ∧ (program pourBare).uniqueIds = true ∧
    (program pourBare).outline (fun s => s) = (program pour).unparen.outline (fun s => s) ∧
    ((program pour).annotate (.ofProgram (program pour))).hasErrors = false ∧
    (program pourBare).lowered (.ofProgram (program pour)) =
      (program pour).lowered (.ofProgram (program pour)) := by
  have hpour : (program pour).uniqueIds = true := Program.uniqueIds_iff_nodup.2 (by decide)
  have hbare : (program pourBare).uniqueIds = true := Program.uniqueIds_iff_nodup.2 (by decide)
  have houtline : (program pourBare).outline (fun s => s) =
      (program pour).unparen.outline fun s => s := rfl
  have herrors : ((program pour).annotate (.ofProgram (program pour))).hasErrors = false := rfl
  have hall := parentheses_transparent houtline hpour hbare (.ofProgram (program pour)) {}
  exact ⟨hpour, hbare, houtline, herrors, (hall.2.2 herrors).1⟩

end Brim

end MiniJava
