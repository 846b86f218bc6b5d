import MiniJava.Bundle.Decode
import MiniJava.Bundle.Encode
import MiniJava.Proofs.Json.Decoding
import MiniJava.Proofs.Variation.Outline

/-!
# Bundles are read as they were written

**Theorem** (`bundles_read_back`). A bundle that is written as JSON and nests lists and objects no
deeper than texts may is read again as the same bundle, its expressions numbered. In the same way a
program is read again without its ids, and a symbol table as it is.

Every type has one lemma, which goes along its decoder field by field. Expressions and statements
are read in rounds, one for each level of the tree.
-/

namespace MiniJava

open Json (Decoder Fields)
open Json.Decoder

variable {k : Nat}

/-! ## Parts -/

theorem Span.reads (s : Span) : Span.decoder.Reads k s.toJson s :=
  (Fields.Reads.cons rfl (reads_uint32 s.start)
    (Fields.reads_last (reads_uint32 s.stop))).record.down.map _

theorem Located.reads_located {α : Type} {d : Decoder α} {node : Json} {a : α}
    (h : d.Reads k node a) (span : Span) :
    (Located.decoder d).Reads (k + 1) (.located node span) ⟨a, span⟩ :=
  (Fields.Reads.cons rfl h (Fields.reads_last span.reads)).record.map _

theorem Located.reads_text (l : Located String) :
    (Located.decoder string).Reads k (l.toJson Json.text) l :=
  (reads_located (reads_string l.node) l.span).down

theorem Ty.readsUpTo (t : Ty) : ∀ k, (decoderUpTo k).Reads k t.toJson t := by
  induction t with
  | int | bool | str | void => exact Reads.of_succ fun k => reads_bare rfl
  | cls c => exact Reads.of_succ fun k => reads_tagged rfl ((reads_string c).map _)
  | array t ih => exact Reads.of_succ fun k => reads_tagged rfl ((ih k).map _)

theorem Ty.reads (t : Ty) : Ty.decoder.Reads k t.toJson t := (t.readsUpTo rounds).of_maxDepth

theorem Located.reads_ty (l : Located Ty) :
    (Located.decoder Ty.decoder).Reads k (l.toJson Ty.toJson) l :=
  (reads_located l.node.reads l.span).down

theorem BinOp.reads (op : BinOp) : BinOp.decoder.Reads k op.toJson op := by
  cases op <;> exact reads_bare rfl

theorem VarDecl.reads (d : VarDecl) : VarDecl.decoder.Reads k d.toJson d :=
  (Fields.Reads.cons rfl d.name.reads_text (Fields.reads_last d.ty.reads_ty)).record.down.map _

/-! ## Expressions -/

namespace Expr

/-- What an expression is may be read with one round less. -/
theorem reads_wrap {self : Decoder Expr} {kind : Json} {make : Node → Expr} {e : Expr} (n : Node)
    (h : (Expr.kind self).Reads (k + 1) kind make) (hmake : make { span := n.span } = e) :
    (level self).Reads (k + 1) (wrap n kind) e := by
  rw [← hmake]
  exact (Fields.Reads.cons rfl h.down (Fields.reads_last n.span.reads)).record.map _

theorem toJsonAll_eq_map (es : List Expr) : toJsonAll es = es.map toJson := by
  induction es with
  | nil => rfl
  | cons e es ih => rw [toJsonAll, ih, List.map_cons]

theorem readsUpTo (e : Expr) : ∀ k, (decoderUpTo k).Reads k e.toJson (e.outline fun s => s) := by
  -- For every number of rounds at once: each level of the tree takes one round, and its parts are
  -- read with what is left.
  induction e using Expr.induction with
  | int n v =>
    refine Reads.of_succ fun k => ?_
    rw [toJson]
    exact reads_wrap n (reads_tagged rfl ((reads_int32 v).map _)) rfl
  | bool n v =>
    refine Reads.of_succ fun k => ?_
    rw [toJson]
    exact reads_wrap n (reads_tagged rfl ((reads_bool v).map _)) rfl
  | var n x =>
    refine Reads.of_succ fun k => ?_
    rw [toJson]
    exact reads_wrap n (reads_tagged rfl ((reads_string x).map _)) rfl
  | this n =>
    refine Reads.of_succ fun k => ?_
    rw [toJson]
    exact reads_wrap n (reads_bare rfl) rfl
  | newObject n c =>
    refine Reads.of_succ fun k => ?_
    rw [toJson]
    exact reads_wrap n (reads_tagged rfl (c.reads_text.map _)) rfl
  | not n e ih | newArray n e ih | length n e ih | paren n e ih =>
    refine Reads.of_succ fun k => ?_
    rw [toJson]
    exact reads_wrap n (reads_tagged rfl ((ih k).map _)) rfl
  | binary n op l r ihl ihr =>
    refine Reads.of_succ fun k => ?_
    rw [toJson]
    exact reads_wrap n (reads_tagged rfl ((Fields.Reads.cons rfl op.reads
      (.cons rfl (ihl k) (Fields.reads_last (ihr k)))).record.down.map _)) rfl
  | index n a i iha ihi =>
    refine Reads.of_succ fun k => ?_
    rw [toJson]
    exact reads_wrap n (reads_tagged rfl ((Fields.Reads.cons rfl (iha k)
      (Fields.reads_last (ihi k))).record.down.map _)) rfl
  | call n r m args ihr ihargs =>
    refine Reads.of_succ fun k => ?_
    rw [toJson, toJsonAll_eq_map, outline, outlineAll_eq_map]
    have hargs := reads_list fun a ha => ihargs a ha k
    exact reads_wrap n (reads_tagged rfl ((Fields.Reads.cons rfl (ihr k)
      (.cons rfl m.reads_text (Fields.reads_last hargs.down))).record.down.map _)) rfl

theorem reads (e : Expr) : Expr.decoder.Reads k e.toJson (e.outline fun s => s) :=
  (e.readsUpTo rounds).of_maxDepth

theorem toJson_ne_null (e : Expr) : e.toJson ≠ .null := by
  intro h
  cases e <;> cases h

end Expr

/-! ## Statements -/

namespace Stmt

theorem reads_level {self : Decoder Stmt} {node : Json} {make : Span → Stmt}
    {s : Stmt} (span : Span) (h : (Stmt.kind self).Reads (k + 1) node make)
    (hmake : make span = s) :
    (level self).Reads (k + 1) (.located node span) s := by
  rw [← hmake]
  exact (Located.reads_located h.down span).map _

theorem toJsonAll_eq_map (ss : List Stmt) : toJsonAll ss = ss.map toJson := by
  induction ss with
  | nil => rfl
  | cons s ss ih => rw [toJsonAll, ih, List.map_cons]

theorem toJson_ne_null (s : Stmt) : s.toJson ≠ .null := by
  intro h
  cases s <;> cases h

theorem readsUpTo (s : Stmt) : ∀ k, (decoderUpTo k).Reads k s.toJson (s.outline fun s => s) := by
  induction s using Stmt.induction with
  | varDecl s d =>
    refine Reads.of_succ fun k => ?_
    rw [toJson]
    exact reads_level s (reads_tagged rfl (d.reads.map _)) rfl
  | block s body ih =>
    refine Reads.of_succ fun k => ?_
    rw [toJson, toJsonAll_eq_map, outline, outlineAll_eq_map]
    have hbody := reads_list fun t ht => ih t ht k
    exact reads_level s (reads_tagged rfl (hbody.down.map _)) rfl
  | ifThen s c t ih =>
    refine Reads.of_succ fun k => ?_
    rw [toJson]
    exact reads_level s (reads_tagged rfl ((Fields.Reads.cons rfl c.reads
      (.cons rfl (ih k) (Fields.reads_last (reads_none _)))).record.down.map _)) rfl
  | ifElse s c t e iht ihe =>
    refine Reads.of_succ fun k => ?_
    rw [toJson]
    exact reads_level s (reads_tagged rfl ((Fields.Reads.cons rfl c.reads
      (.cons rfl (iht k) (Fields.reads_last ((ihe k).some e.toJson_ne_null)))).record.down.map _))
        rfl
  | whileLoop s c b ih =>
    refine Reads.of_succ fun k => ?_
    rw [toJson]
    exact reads_level s (reads_tagged rfl ((Fields.Reads.cons rfl c.reads
      (Fields.reads_last (ih k))).record.down.map _)) rfl
  | expr s e =>
    refine Reads.of_succ fun k => ?_
    rw [toJson]
    exact reads_level s (reads_tagged rfl (e.reads.map _)) rfl
  | assign s x v =>
    refine Reads.of_succ fun k => ?_
    rw [toJson]
    exact reads_level s (reads_tagged rfl ((Fields.Reads.cons rfl x.reads_text
      (Fields.reads_last v.reads)).record.down.map _)) rfl
  | arrayAssign s x i v =>
    refine Reads.of_succ fun k => ?_
    rw [toJson]
    exact reads_level s (reads_tagged rfl ((Fields.Reads.cons rfl x.reads_text
      (.cons rfl i.reads (Fields.reads_last v.reads))).record.down.map _)) rfl
  | ret s v =>
    refine Reads.of_succ fun k => ?_
    rw [toJson]
    exact reads_level s (reads_tagged rfl ((reads_option v Expr.reads Expr.toJson_ne_null).map _))
      rfl

theorem reads (s : Stmt) : Stmt.decoder.Reads k s.toJson (s.outline fun s => s) :=
  (s.readsUpTo rounds).of_maxDepth

end Stmt

/-! ## Declarations and tables -/

theorem MethodDecl.reads (d : MethodDecl) :
    MethodDecl.decoder.Reads k d.toJson (d.outline fun s => s) := by
  have hparams : (Decoder.list VarDecl.decoder).Reads k (.list (d.params.map VarDecl.toJson))
      (d.params.map (VarDecl.outline fun s => s)) := (reads_list fun p _ => p.reads).down
  have hbody : (Decoder.list Stmt.decoder).Reads k (.list (Stmt.toJsonAll d.body))
      (Stmt.outlineAll (fun s => s) d.body) := by
    rw [Stmt.toJsonAll_eq_map, Stmt.outlineAll_eq_map]
    exact (reads_list fun s _ => s.reads).down
  exact (Fields.Reads.cons rfl (reads_bool _) (.cons rfl (reads_bool _)
    (.cons rfl d.name.reads_text (.cons rfl d.returnTy.reads_ty (.cons rfl hparams
      (Fields.reads_last hbody)))))).record.down.map _

theorem ClassDecl.reads (d : ClassDecl) :
    ClassDecl.decoder.Reads k d.toJson (d.outline fun s => s) := by
  have hsuper : (Decoder.option (Located.decoder string)).Reads k
      (.option (Located.toJson Json.text) d.superName)
      (d.superName.map (Located.outline fun s => s)) :=
    reads_option d.superName Located.reads_text fun _ h => by cases h
  have hfields : (Decoder.list VarDecl.decoder).Reads k (.list (d.fields.map VarDecl.toJson))
      (d.fields.map (VarDecl.outline fun s => s)) := (reads_list fun f _ => f.reads).down
  have hmethods : (Decoder.list MethodDecl.decoder).Reads k
      (.list (d.methods.map MethodDecl.toJson))
      (d.methods.map (MethodDecl.outline fun s => s)) := (reads_list fun m _ => m.reads).down
  exact (Fields.Reads.cons rfl d.name.reads_text (.cons rfl hsuper (.cons rfl hfields
    (Fields.reads_last hmethods)))).record.down.map _

theorem Program.reads (p : Program) : Program.decoder.Reads k p.toJson (p.outline fun s => s) := by
  have himports : (Decoder.list (Located.decoder string)).Reads k
      (.list (p.imports.map (Located.toJson Json.text)))
      (p.imports.map (Located.outline fun s => s)) :=
    (reads_list fun i _ => i.reads_text).down
  have hclasses : (Decoder.list ClassDecl.decoder).Reads k (.list (p.classes.map ClassDecl.toJson))
      (p.classes.map (ClassDecl.outline fun s => s)) := (reads_list fun d _ => d.reads).down
  exact (Fields.Reads.cons rfl himports (Fields.reads_last hclasses)).record.down.map _

theorem Symbol.reads (s : Symbol) : Symbol.decoder.Reads k s.toJson s :=
  (Fields.Reads.cons rfl (reads_string s.name) (Fields.reads_last s.ty.reads)).record.down.map _

theorem reads_symbols (symbols : List Symbol) :
    (Decoder.list Symbol.decoder).Reads k (.list (symbols.map Symbol.toJson)) symbols :=
  (reads_list_same fun s _ => s.reads).down

theorem MethodSymbols.reads (m : MethodSymbols) : MethodSymbols.decoder.Reads k m.toJson m :=
  (Fields.Reads.cons rfl (reads_string m.name) (.cons rfl m.returnTy.reads
    (.cons rfl (reads_symbols m.params) (.cons rfl (reads_symbols m.locals)
      (.cons rfl (reads_bool m.isPublic)
        (Fields.reads_last (reads_bool m.isStatic))))))).record.down.map _

theorem ClassSymbols.reads (c : ClassSymbols) : ClassSymbols.decoder.Reads k c.toJson c := by
  have hsuper : (Decoder.option string).Reads k (.option Json.text c.superName) c.superName :=
    reads_option_same c.superName reads_string fun _ h => by cases h
  have hmethods : (Decoder.list MethodSymbols.decoder).Reads k
      (.list (c.methods.map MethodSymbols.toJson)) c.methods :=
    (reads_list_same fun m _ => m.reads).down
  exact (Fields.Reads.cons rfl (reads_string c.name) (.cons rfl hsuper
    (.cons rfl (reads_symbols c.fields) (Fields.reads_last hmethods)))).record.down.map _

theorem SymbolTable.reads (t : SymbolTable) : SymbolTable.decoder.Reads k t.toJson t := by
  have himports : (Decoder.list string).Reads k (.list (t.imports.map Json.text)) t.imports :=
    (reads_list_same fun i _ => reads_string i).down
  have hclasses : (Decoder.list ClassSymbols.decoder).Reads k
      (.list (t.classes.map ClassSymbols.toJson)) t.classes :=
    (reads_list_same fun c _ => c.reads).down
  exact (Fields.Reads.cons rfl himports (Fields.reads_last hclasses)).record.down.map _

theorem Bundle.reads (b : Bundle) :
    Bundle.decoder.Reads k b.toJson { b with program := b.program.outline fun s => s } := by
  have hsymbols : (Decoder.option SymbolTable.decoder).Reads k
      (.option SymbolTable.toJson b.symbols) b.symbols :=
    reads_option_same b.symbols SymbolTable.reads fun _ h => by cases h
  have htext : ∀ x : Option String, (Decoder.option string).Reads k (.option Json.text x) x :=
    fun x => reads_option_same x reads_string fun _ h => by cases h
  exact (Fields.Reads.cons rfl b.program.reads (.cons rfl hsymbols (.cons rfl (htext b.source)
    (Fields.reads_last (htext b.filename))))).record.down.map _

/-! ## Numbering -/

theorem Expr.numberAll_map {f : Expr → Expr} {es : List Expr}
    (h : ∀ e ∈ es, ∀ n, (f e).number n = e.number n) (n : Nat) :
    numberAll (es.map f) n = numberAll es n := by
  induction es generalizing n with
  | nil => rfl
  | cons e es ih =>
    rw [List.forall_mem_cons] at h
    simp only [List.map_cons, numberAll, h.1, ih h.2]

/-- Numbers do not depend on the ids that were there before. -/
theorem Expr.number_outline (e : Expr) (n : Nat) :
    (e.outline fun s => s).number n = e.number n := by
  induction e using Expr.induction generalizing n with
  | int | bool | var | this | newObject => rfl
  | not i e ih | newArray i e ih | length i e ih | paren i e ih =>
    simp only [outline, number, ih]
    rfl
  | binary i op l r ihl ihr | index i l r ihl ihr =>
    simp only [outline, number, ihl, ihr]
    rfl
  | call i r m args ihr ihargs =>
    simp only [outline, outlineAll_eq_map, number, ihr, numberAll_map ihargs]
    rfl

theorem Stmt.numberAll_map {f : Stmt → Stmt} {ss : List Stmt}
    (h : ∀ s ∈ ss, ∀ n, (f s).number n = s.number n) (n : Nat) :
    numberAll (ss.map f) n = numberAll ss n := by
  induction ss generalizing n with
  | nil => rfl
  | cons s ss ih =>
    rw [List.forall_mem_cons] at h
    simp only [List.map_cons, numberAll, h.1, ih h.2]

theorem Stmt.number_outline (s : Stmt) (n : Nat) :
    (s.outline fun s => s).number n = s.number n := by
  induction s using Stmt.induction generalizing n with
  | varDecl => rfl
  | block s body ih => simp only [outline, outlineAll_eq_map, number, numberAll_map ih]
  | ifThen s c t ih | whileLoop s c t ih => simp only [outline, number, Expr.number_outline, ih]
  | ifElse s c t e iht ihe => simp only [outline, number, Expr.number_outline, iht, ihe]
  | expr s e => simp only [outline, number, Expr.number_outline]
  | assign s x v =>
    simp only [outline, number, Expr.number_outline]
    rfl
  | arrayAssign s x i v =>
    simp only [outline, number, Expr.number_outline]
    rfl
  | ret s v =>
    cases v with
    | none => rfl
    | some v => simp only [outline, Option.map_some, number, Expr.number_outline]

theorem MethodDecl.numberAll_outline (ds : List MethodDecl) (n : Nat) :
    numberAll (ds.map (outline fun s => s)) n = numberAll ds n := by
  induction ds generalizing n with
  | nil => rfl
  | cons d ds ih =>
    have hbody : ∀ m, Stmt.numberAll (d.outline fun s => s).body m = Stmt.numberAll d.body m := by
      intro m
      rw [outline, Stmt.outlineAll_eq_map]
      exact Stmt.numberAll_map (fun s _ => s.number_outline) m
    have hparams : d.params.map (VarDecl.outline fun s => s) = d.params := List.map_id d.params
    simp only [List.map_cons, numberAll, hbody, ih]
    simp only [outline, hparams]
    rfl

theorem ClassDecl.numberAll_outline (ds : List ClassDecl) (n : Nat) :
    numberAll (ds.map (outline fun s => s)) n = numberAll ds n := by
  induction ds generalizing n with
  | nil => rfl
  | cons d ds ih =>
    have hfields : d.fields.map (VarDecl.outline fun s => s) = d.fields := List.map_id d.fields
    have hsuper : d.superName.map (Located.outline fun s => s) = d.superName := Option.map_id'
    simp only [List.map_cons, numberAll, outline, MethodDecl.numberAll_outline, ih, hfields, hsuper]
    rfl

theorem Program.number_outline (p : Program) : (p.outline fun s => s).number = p.number := by
  have himports : p.imports.map (Located.outline fun s => s) = p.imports := List.map_id p.imports
  simp only [number, outline, ClassDecl.numberAll_outline, himports]

/-! ## Whole texts -/

/-- A bundle that is written and read again is the bundle with its expressions numbered, if it nests
no deeper than texts may. A program is read again without its ids, and a table of symbols as it
is. -/
theorem bundles_read_back :
    (∀ b : Bundle, b.toJson.depth ≤ Json.maxDepth → Bundle.parse b.toJson.render = .ok b.number) ∧
    (∀ p : Program, p.toJson.depth ≤ Json.maxDepth →
      Program.decoder.parse p.toJson.render = .ok (p.outline fun s => s)) ∧
    ∀ t : SymbolTable, t.toJson.depth ≤ Json.maxDepth →
      SymbolTable.decoder.parse t.toJson.render = .ok t := by
  refine ⟨?_, fun p hp => parse_render p.reads hp, fun t ht => parse_render t.reads ht⟩
  intro b hb
  rw [Bundle.parse, parse_render b.reads hb]
  show Except.ok { b with program := (b.program.outline fun s => s).number.1 } = _
  rw [Program.number_outline]
  rfl

namespace Vase

/-- `return new Vase().fill(-3)[0];`, where all expressions have the same id. -/
def fill : Stmt :=
  .ret ⟨4, 9⟩ (some (.index {}
    (.call {} (.newObject {} { node := "Vase" }) { node := "fill", span := ⟨5, 6⟩ } [.int {} (-3)])
    (.int {} 0)))

def program : Program where
  imports := [{ node := "java.util.List" }]
  classes := [{
    name := { node := "Vase" }
    superName := some { node := "List" }
    methods := [{
      name := { node := "fill" }
      returnTy := { node := .array (.cls "Vase") }
      params := []
      body := [fill] }] }]

/-- A bundle with a source text of more than one line. -/
def bundle : Bundle where
  program
  symbols := some (.ofProgram program)
  source := some "class \"Vase\"\n\textends List"

theorem bundle_read_back : bundle.toJson.depth ≤ Json.maxDepth ∧
    Bundle.parse bundle.toJson.render = .ok bundle.number := by
  have hdepth : bundle.toJson.depth ≤ Json.maxDepth := by decide
  exact ⟨hdepth, bundles_read_back.1 bundle hdepth⟩

end Vase

end MiniJava
