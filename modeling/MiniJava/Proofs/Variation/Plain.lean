import MiniJava.Proofs.Emission.Output
import MiniJava.Proofs.Variation.Program

/-!
# Variations without renaming

Programs that differ only in ids, spans and parentheses mention the same names, so the annotator
warns of the same unused imports. Their diagnostics say the same, apart from places
(`Program.VariantIn.gists`), and lowering gives the same classes or faults that differ at most in
their place (`Program.VariantIn.lower_plain`).
-/

namespace MiniJava

open Ir

/-- Names stay as they are. -/
def Variation.plain (spans : Span → Span → Prop) : Variation where
  rename := .id
  admits _ := True
  spans := spans

variable {S : Span → Span → Prop}

theorem Variation.plain_scopes (sc : Scope) : (Variation.plain S).Scopes sc sc where
  imports := rfl
  className := rfl
  superName := rfl
  fields := rfl
  signatures _ := rfl
  isStatic := rfl
  returnTy := rfl
  params := (List.map_id _).symm
  locals := (List.map_id _).symm
  fixed _ _ _ := rfl

/-- Symbols are found by names, so varied methods find the same ones. -/
theorem ClassDecl.variantIn_plain {table : SymbolTable} {d d' : ClassDecl}
    (hname : d'.name.node = d.name.node)
    (hsuper : (d'.superName.map fun x => x.node) = d.superName.map fun x => x.node)
    (hfields : d'.fields.map VarDecl.symbol = d.fields.map VarDecl.symbol)
    (hmethods : List.Forall₂ (MethodDecl.Variant (.plain S)) d.methods d'.methods) :
    d.VariantIn (· = .plain S) table table d' := by
  refine ⟨hname, hsuper, hfields, ?_, hmethods.imp fun md md' hmd => ⟨_, rfl, hmd, ?_⟩⟩
  · rw [hname]
    cases table.class? d.name.node with
    | none => exact .none
    | some cls => exact .some rfl
  · intro cls cls' hcls hcls'
    rw [hname, hcls] at hcls'
    cases hcls'
    rw [MethodDecl.FoundAlike, hmd.name]
    cases cls.method? md.name.node with
    | none => exact .none
    | some m =>
      have hscope : md'.scope table cls m = md.scope table cls m := by
        rw [MethodDecl.scope, hmd.isStatic]
        rfl
      exact .some (hscope ▸ Variation.plain_scopes _)

/-! ## Names -/

theorem flatMap_eq_of_forall₂ {α β : Type} {f g : α → List β} {l l' : List α}
    (h : List.Forall₂ (fun a a' => g a' = f a) l l') : l'.flatMap g = l.flatMap f := by
  induction h with
  | nil => rfl
  | cons ha _ ih => rw [List.flatMap_cons, List.flatMap_cons, ha, ih]

theorem Expr.Variant.names_eq {e e' : Expr} (h : e.Variant (.plain S) e') : e'.names = e.names := by
  induction e using Expr.induction generalizing e' with
  | int | bool | var | this => cases h; rfl
  | newObject n c => cases h with
    | newObject hc => simp [Expr.names, subtree, ownName, hc]
  | not n e ih => cases h with
    | not he => simpa [Expr.names, subtree, ownName] using ih he
  | newArray n e ih => cases h with
    | newArray _ he => simpa [Expr.names, subtree, ownName] using ih he
  | length n e ih => cases h with
    | length he => simpa [Expr.names, subtree, ownName] using ih he
  | paren n e ih => cases h with
    | paren he => simpa [Expr.names, subtree, ownName] using ih he
    | dropped he => simpa [Expr.names, subtree, ownName] using ih he
  | binary n op l r ihl ihr => cases h with
    | binary _ hl hr =>
      simpa [Expr.names, subtree, ownName] using congrArg₂ (· ++ ·) (ihl hl) (ihr hr)
  | index n a i iha ihi => cases h with
    | index _ ha hi =>
      simpa [Expr.names, subtree, ownName] using congrArg₂ (· ++ ·) (iha ha) (ihi hi)
  | call n r m args ihr ihargs => cases h with
    | @call _ n' _ r' _ m' _ args' _ hr hm hargs =>
      have hall : args'.flatMap Expr.names = args.flatMap Expr.names :=
        flatMap_eq_of_forall₂ (forall₂_imp_mem hargs fun a ha a' _ haa' => ihargs a ha haa')
      have hnames : ∀ as : List Expr, (subtrees as).flatMap ownName = as.flatMap Expr.names := by
        intro as
        rw [subtrees_eq_flatMap, List.flatMap_assoc]
        rfl
      have hreceiver : r'.subtree.flatMap ownName = r.subtree.flatMap ownName := ihr hr
      simp [Expr.names, subtree, ownName, hnames, hall, hreceiver]

theorem VarDecl.ty_names_of_symbol {d d' : VarDecl}
    (h : d'.symbol = (Variation.plain S).rename.symbol d.symbol) :
    d'.ty.node.names = d.ty.node.names :=
  congrArg (fun s : Symbol => s.ty.names) h

namespace Stmt

theorem Variant.names_eq {s s' : Stmt} (h : s.Variant (.plain S) s') : s'.names = s.names := by
  induction s using Stmt.induction generalizing s' with
  | varDecl sp d => cases h with
    | varDecl hd => exact VarDecl.ty_names_of_symbol hd
  | block sp body ih => cases h with
    | block hbody =>
      rw [names, names, namesAll_eq_flatMap, namesAll_eq_flatMap]
      exact flatMap_eq_of_forall₂ (forall₂_imp_mem hbody fun t ht t' _ htt' => ih t ht htt')
  | ifThen sp c t ih => cases h with
    | ifThen hc ht => rw [names, names, hc.names_eq, ih ht]
  | ifElse sp c t e iht ihe => cases h with
    | ifElse hc ht he => rw [names, names, hc.names_eq, iht ht, ihe he]
  | whileLoop sp c b ih => cases h with
    | whileLoop hc hb => rw [names, names, hc.names_eq, ih hb]
  | expr sp e => cases h with
    | expr he => exact he.names_eq
  | assign sp x e => cases h with
    | assign _ he => exact he.names_eq
  | arrayAssign sp x i e => cases h with
    | arrayAssign _ hi he => rw [names, names, hi.names_eq, he.names_eq]
  | ret sp e => cases h with
    | retNone => rfl
    | ret he => exact he.names_eq

end Stmt

theorem MethodDecl.Variant.names_eq {d d' : MethodDecl} (h : d.Variant (.plain S) d') :
    d'.names = d.names := by
  have hparams : (d'.params.flatMap fun p => p.ty.node.names) =
      d.params.flatMap fun p => p.ty.node.names := by
    have htypes := congrArg (List.flatMap fun s : Symbol => s.ty.names) h.params
    simpa [List.flatMap_map, VarDecl.symbol] using htypes
  rw [names, names, h.returnTy, hparams, Stmt.namesAll_eq_flatMap, Stmt.namesAll_eq_flatMap,
    flatMap_eq_of_forall₂ (h.body.imp fun _ _ hs => hs.names_eq)]

variable {table : SymbolTable}

theorem ClassDecl.VariantIn.names_eq {d d' : ClassDecl}
    (h : d.VariantIn (· = .plain S) table table d') : d'.names = d.names := by
  have hfields : (d'.fields.flatMap fun f => f.ty.node.names) =
      d.fields.flatMap fun f => f.ty.node.names := by
    have htypes := congrArg (List.flatMap fun s : Symbol => s.ty.names) h.fields
    simpa [List.flatMap_map, VarDecl.symbol] using htypes
  have hmethods : d'.methods.flatMap MethodDecl.names = d.methods.flatMap MethodDecl.names := by
    refine flatMap_eq_of_forall₂ (h.methods.imp fun md md' hmd => ?_)
    obtain ⟨v, rfl, hvariant, -⟩ := hmd
    exact hvariant.names_eq
  rw [names, names, h.superName, hfields, hmethods]

/-! ## Diagnostics -/

/-- What a diagnostic says, without its place. -/
def Diagnostic.gist (d : Diagnostic) : Severity × String × Option String :=
  (d.severity, d.message, d.help)

def Problem.gist (q : Problem) : Severity × String × Option String :=
  (q.severity, q.message, q.help?)

/-- The diagnostics say what the problems are. -/
theorem Program.gist_diagnostics (p : Program) (table : SymbolTable) :
    (p.annotate table).diagnostics.map Diagnostic.gist =
      (problems (p.notes table)).map Problem.gist := by
  show ((p.notes table).filterMap Note.diagnostic?).map Diagnostic.gist = _
  rw [problems, List.map_filterMap, List.map_filterMap]
  congr 1
  funext n
  cases n <;> rfl

theorem hasErrors_eq_any (a : Annotation) :
    a.hasErrors = (a.diagnostics.map Diagnostic.gist).any fun g => g.1 == .error := by
  rw [List.any_map]
  rfl

theorem gist_warnings (a : Annotation) :
    a.warnings.map Diagnostic.gist =
      (a.diagnostics.map Diagnostic.gist).filter fun g => !(g.1 == .error) := by
  rw [List.filter_map]
  rfl

namespace Program.VariantIn

variable {p p' : Program}

theorem names_eq (h : p.VariantIn (· = .plain S) table table p') : p'.names = p.names :=
  flatMap_eq_of_forall₂ (h.classes.imp fun _ _ hd => hd.names_eq)

theorem problems_unusedImports (p : Program) :
    MiniJava.problems p.unusedImports = (p.imports.map fun i => i.node).filterMap fun path =>
      if p.names.contains (lastSegment path) then none else some (.unusedImport path) := by
  rw [unusedImports, MiniJava.problems, List.filterMap_filterMap, List.filterMap_map]
  congr 1
  funext i
  dsimp only [Function.comp]
  split <;> rfl

/-- Both programs have the same problems. -/
theorem problems_notes (h : p.VariantIn (· = .plain S) table table p') :
    MiniJava.problems (p'.notes table) = MiniJava.problems (p.notes table) := by
  have hclasses : MiniJava.problems (p'.classes.flatMap (ClassDecl.annotate table)) =
      MiniJava.problems (p.classes.flatMap (ClassDecl.annotate table)) := by
    have hsame : List.Forall₂ Eq (MiniJava.problems (p.classes.flatMap (ClassDecl.annotate table)))
        (MiniJava.problems (p'.classes.flatMap (ClassDecl.annotate table))) := by
      refine (h.problems rfl).imp fun q q' hq => ?_
      obtain ⟨v, rfl, rfl⟩ := hq
      exact (q.rename_id).symm
    rw [List.forall₂_eq_eq_eq] at hsame
    exact hsame.symm
  rw [notes, notes, problems_append, problems_append, hclasses, problems_unusedImports,
    problems_unusedImports, h.names_eq, h.imports]

/-- The diagnostics of both programs say the same. -/
theorem gists (h : p.VariantIn (· = .plain S) table table p') :
    (p'.annotate table).diagnostics.map Diagnostic.gist =
      (p.annotate table).diagnostics.map Diagnostic.gist := by
  rw [gist_diagnostics, gist_diagnostics, h.problems_notes]

theorem hasErrors_eq (h : p.VariantIn (· = .plain S) table table p') :
    (p'.annotate table).hasErrors = (p.annotate table).hasErrors := by
  rw [hasErrors_eq_any, hasErrors_eq_any, h.gists]

theorem gists_warnings (h : p.VariantIn (· = .plain S) table table p') :
    (p'.annotate table).warnings.map Diagnostic.gist =
      (p.annotate table).warnings.map Diagnostic.gist := by
  rw [gist_warnings, gist_warnings, h.gists]

end Program.VariantIn

/-! ## Code -/

namespace Ir

theorem Instr.rename_id (i : Instr) : i.rename .id = i := by
  have hid : ∀ o : Operand, o.rename .id = o := Operand.rename_eq_self fun _ => rfl
  have hargs : ∀ os : List Operand, os.map (Operand.rename .id) = os := fun os =>
    (List.map_congr_left fun o _ => hid o).trans (List.map_id os)
  induction i with
  | assign dest ty rhs ih => rw [rename, hid, ih]
  | call kind target m args params ty => rw [rename, hid, hargs]
  | ret ty o => cases o with
    | none => rfl
    | some o => rw [rename, Option.map_some, hid]
  | _ => simp [rename, hid]

theorem Method.rename_id (m : Method) : m.rename .id = m := by
  have hcode : m.code.map (Instr.rename .id) = m.code :=
    (List.map_congr_left fun i _ => i.rename_id).trans (List.map_id _)
  have hsymbols : ∀ l : List Symbol, l.map Renaming.id.symbol = l := fun l => List.map_id l
  rw [rename, hcode, hsymbols, hsymbols]

theorem ClassUnit.Alike.eq {u u' : ClassUnit} (h : u.Alike (· = .plain S) u') : u' = u := by
  have hmethods : List.Forall₂ Eq u.methods u'.methods := by
    refine h.methods.imp fun m m' hm => ?_
    obtain ⟨v, rfl, rfl⟩ := hm
    exact m.rename_id.symm
  rw [List.forall₂_eq_eq_eq] at hmethods
  cases u
  cases u'
  rw [ClassUnit.mk.injEq]
  exact ⟨h.imports, h.name, h.superName, h.fields, hmethods.symm⟩

end Ir

/-- The fault without its place. -/
def LowerError.placeless : LowerError → LowerError
  | unresolved _ => unresolved .unknown
  | voidValue m _ => voidValue m .unknown
  | unknownVariable x _ => unknownVariable x .unknown
  | notIndexable x _ => notIndexable x .unknown
  | missingClass c => missingClass c
  | missingMethod c m => missingMethod c m

theorem LowerError.Alike.placeless_eq {e e' : LowerError} (h : e.Alike (.plain S) e') :
    e'.placeless = e.placeless := by
  cases h with
  | notIndexable _ hx => rw [placeless, placeless, hx fun _ => rfl]
  | _ => rfl

/-- Where spans are kept, faults are the same. -/
theorem LowerError.Alike.eq (hS : ∀ s s', S s s' → s' = s) {e e' : LowerError}
    (h : e.Alike (.plain S) e') : e' = e := by
  cases h with
  | notIndexable hs hx => rw [hS _ _ hs, hx fun _ => rfl]
  | unresolved hs | voidValue hs => rw [hS _ _ hs]
  | unknownVariable hs =>
    rw [hS _ _ hs]
    rfl
  | missingClass | missingMethod => rfl

/-- Lowering gives the same classes for both programs, or faults of the same cause. -/
theorem Program.VariantIn.lower_plain {p p' : Program}
    (h : p.VariantIn (· = .plain S) table table p') (hids : p.uniqueIds = true)
    (hids' : p'.uniqueIds = true) :
    ResultsAlike (LowerError.Alike (.plain S)) (fun units units' => units' = units)
      ((p.lower table (p.annotate table).types).run {}).result
      ((p'.lower table (p'.annotate table).types).run {}).result := by
  refine (h.lower rfl hids hids' {}).result.mono (fun e e' he => ?_) fun units units' hunits => ?_
  · obtain ⟨v, rfl, he⟩ := he
    exact he
  · have hsame : List.Forall₂ Eq units units' := hunits.imp fun u u' hu => hu.eq.symm
    rw [List.forall₂_eq_eq_eq] at hsame
    exact hsame.symm

end MiniJava
