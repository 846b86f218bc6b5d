import MiniJava.Annotation.Program
import MiniJava.Proofs.Annotation.Places
import MiniJava.Proofs.Variation.Basic

/-!
# Annotating variants

The annotator finds the same types in a varied tree and reports the same problems in the same order,
in terms of the new names (`Expr.Variant.annotate`, `Stmt.Variant.annotateAll`). So the places of a
tree get the types that they get in the varied tree (`Expr.Variant.expectedArgs` and so on).
-/

namespace MiniJava

/-! ## Problems -/

/-- The problem in terms of the new names. -/
def Problem.rename (ρ : Renaming) : Problem → Problem
  | undeclaredVariable x => undeclaredVariable (ρ.name x)
  | undeclaredTarget x => undeclaredTarget (ρ.name x)
  | staticField x => staticField (ρ.name x)
  | staticFieldTarget x => staticFieldTarget (ρ.name x)
  | assignment found x expected => assignment found (ρ.name x) expected
  | notArray x found => notArray (ρ.name x) found
  | elementStore found x expected => elementStore found (ρ.name x) expected
  | p => p

@[simp] theorem Problem.rename_id (p : Problem) : p.rename .id = p := by
  cases p <;> rfl

@[simp] theorem Problem.severity_rename (ρ : Renaming) (p : Problem) :
    (p.rename ρ).severity = p.severity := by
  cases p <;> rfl

def Note.problem? : Note → Option Problem
  | report p _ => some p
  | _ => none

/-- The problems that the notes report, in order. -/
def problems (notes : List Note) : List Problem := notes.filterMap Note.problem?

@[simp] theorem problems_nil : problems [] = [] := rfl

@[simp] theorem problems_append (a b : List Note) : problems (a ++ b) = problems a ++ problems b :=
  List.filterMap_append

@[simp] theorem problems_report (p : Problem) (span : Span) :
    problems (Noted.report p span).notes = [p] := rfl

@[simp] theorem Expr.problems_settle (n : Node) (found : Option Ty) :
    problems (settle n found).notes = [] := by
  cases found <;> rfl

@[simp] theorem Expr.problems_adopt (e : Expr) (ty : Ty) : problems (e.adopt ty).notes = [] := by
  induction e using Expr.induction with
  | paren n e ih =>
    rw [adopt, Noted.notes_bind, problems_append, ih]
    rfl
  | _ => rfl

/-! ## Notes side by side -/

/-- The values are the same, and so are the problems, in terms of the new names. -/
structure Noted.Alike {α : Type} (ρ : Renaming) (x y : Noted α) : Prop where
  value : y.value = x.value
  problems : problems y.notes = (MiniJava.problems x.notes).map (Problem.rename ρ)

namespace Noted.Alike

variable {α β : Type} {ρ : Renaming} {x y : Noted α}

protected theorem pure (a : α) : Alike ρ (pure a) (pure a) := ⟨rfl, rfl⟩

protected theorem bind (h : Alike ρ x y) {f g : α → Noted β} (hfg : ∀ a, Alike ρ (f a) (g a)) :
    Alike ρ (x >>= f) (y >>= g) := by
  have hnext := hfg x.value
  refine ⟨?_, ?_⟩
  · rw [value_bind, value_bind, h.value]
    exact hnext.value
  · rw [notes_bind, notes_bind, problems_append, problems_append, List.map_append,
      h.problems, h.value, hnext.problems]

protected theorem report (p : Problem) (span span' : Span) :
    Alike ρ (report p span) (report (p.rename ρ) span') :=
  ⟨rfl, rfl⟩

protected theorem reportIf (b : Bool) (p : Problem) (span span' : Span) :
    Alike ρ (reportIf b p span) (reportIf b (p.rename ρ) span') := by
  cases b
  · exact .pure ()
  · exact .report p span span'

protected theorem all {xs ys : List (Noted Unit)} (h : List.Forall₂ (Alike ρ) xs ys) :
    Alike ρ (all xs) (all ys) := by
  induction h with
  | nil => exact .pure ()
  | cons hx _ ih => exact .bind hx fun _ => ih

theorem settle (n n' : Node) (found : Option Ty) :
    Alike ρ (Expr.settle n found) (Expr.settle n' found) := by
  refine ⟨?_, ?_⟩
  · rw [Expr.value_settle, Expr.value_settle]
  · rw [Expr.problems_settle, Expr.problems_settle]
    rfl

/-- Another expression may take the type. -/
theorem adopt (e e' : Expr) (ty : Ty) : Alike ρ (e.adopt ty) (e'.adopt ty) := by
  refine ⟨rfl, ?_⟩
  rw [Expr.problems_adopt, Expr.problems_adopt]
  rfl

theorem expect {x y : Noted (Option Ty)} (h : Alike ρ x y) (e e' : Expr) (ty : Ty) :
    Alike ρ (e.expect ty x) (e'.expect ty y) := by
  refine .bind h fun found => ?_
  cases found with
  | some t => exact .pure _
  | none => exact .bind (.adopt e e' ty) fun _ => .pure _

end Noted.Alike

/-! ## Expressions -/

namespace Expr

open Noted (Alike)

variable {v : Variation} {sc sc' : Scope}

theorem strip_ne_paren (e : Expr) {n : Node} {d : Expr} : e.strip ≠ paren n d := by
  induction e using Expr.induction with
  | paren n e ih => exact ih
  | _ => simp [strip]

theorem Variant.needType {e e' : Expr} (h : e.Variant v e') (position : String) :
    Alike v.rename (e.needType position) (e'.needType position) := by
  have hstrip := h.strip
  unfold Expr.needType
  generalize hd : e.strip = d, e'.strip = d' at hstrip
  cases hstrip with
  | dropped _ => exact absurd hd (strip_ne_paren e)
  | call _ _ hm _ =>
    dsimp only
    rw [hm]
    exact .report (.undetermined _ position) ..
  | _ => exact .pure ()

/-- Arguments side by side: the same is found for both. -/
abbrev ArgsAlike (ρ : Renaming) : Args → Args → Prop :=
  List.Forall₂ fun a a' => Alike ρ a.2 a'.2

theorem ArgsAlike.free {ρ : Renaming} {args args' : Args} (h : ArgsAlike ρ args args') :
    Alike ρ (freeArgs args) (freeArgs args') := by
  refine .all (List.forall₂_map_left_iff.2 (List.forall₂_map_right_iff.2 (h.imp fun a a' ha => ?_)))
  exact .bind ha fun _ => .pure ()

theorem ArgsAlike.unknown {ρ : Renaming} {args args' : Args} (h : ArgsAlike ρ args args') :
    Alike ρ (unknownArgs args) (unknownArgs args') := by
  refine .all (List.forall₂_map_left_iff.2 (List.forall₂_map_right_iff.2 (h.imp fun a a' ha => ?_)))
  exact .bind (.expect ha ..) fun _ => .pure ()

theorem ArgsAlike.known {args args' : Args} (h : ArgsAlike v.rename args args')
    (hsc : v.Scopes sc sc') (method : String) {k : Nat} {ps ps' : List Symbol}
    (hps : ps'.map Symbol.ty = ps.map Symbol.ty) :
    Alike v.rename (knownArgs sc method k args ps) (knownArgs sc' method k args' ps') := by
  induction h generalizing k ps ps' with
  | nil => exact .pure ()
  | @cons a a' args args' ha hargs ih =>
    -- Both lists of parameters have the same types, so they end together.
    cases ps with
    | nil =>
      rw [List.map_nil, List.map_eq_nil_iff] at hps
      subst hps
      exact .pure ()
    | cons p ps =>
      cases ps' with
      | nil => cases hps
      | cons p' ps' =>
        rw [List.map_cons, List.map_cons, List.cons.injEq] at hps
        obtain ⟨hp, hps⟩ := hps
        unfold knownArgs
        rw [hp]
        refine .bind (.expect ha ..) fun found => ?_
        cases found with
        | none => exact ih hps
        | some actual =>
          dsimp only
          rw [hsc.assignable]
          exact .bind (.reportIf _ (.argument k method p.ty actual) ..) fun _ => ih hps

theorem ArgsAlike.call {args args' : Args} (h : ArgsAlike v.rename args args')
    (hsc : v.Scopes sc sc') {r r' : Expr} (hr : r.Variant v r') (span span' : Span)
    (method : String) (found : Option Ty) :
    Alike v.rename (callTy sc span r method args found)
      (callTy sc' span' r' method args' found) := by
  unfold callTy
  split
  · next name =>
    rw [hsc.className]
    split
    -- Methods keep their names. What is found in the one scope is found in the other, with the same
    -- types.
    · rcases hsc.method? method with ⟨hold, hnew⟩ | ⟨sig, sig', hold, hnew, hparams, hreturn⟩
      · rw [hold, hnew, hsc.superName]
        exact .bind h.unknown fun _ =>
          .bind (.reportIf _ (.noMethod name method) ..) fun _ => .pure _
      · have harity : sig'.params.length = sig.params.length := by
          simpa using congrArg List.length hparams
        rw [hold, hnew]
        dsimp only
        rw [hreturn, harity, ← h.length_eq]
        split
        · exact .bind (h.known hsc method hparams) fun _ => .pure _
        · exact .bind (.report (.arity method _ _) ..) fun _ => .bind h.free fun _ => .pure _
    · exact .bind h.unknown fun _ => .pure _
  · next other _ =>
    exact .bind h.free fun _ => .bind (.report (.callReceiver method other) ..) fun _ => .pure _
  · exact .bind (hr.needType _) fun _ => .bind h.unknown fun _ => .pure _

theorem varTy_alike (hsc : v.Scopes sc sc') {x : String} (hx : v.admits x)
    (span span' : Span) :
    Alike v.rename (varTy sc x span) (varTy sc' (v.rename.name x) span') := by
  unfold Expr.varTy
  rw [hsc.resolve hx]
  cases hresolve : sc.resolve x with
  | some b =>
    dsimp only [Option.map_some]
    rw [hsc.isStatic, v.rename.isField_binding, v.rename.ty_binding]
    exact .bind (.reportIf _ (.staticField x) ..) fun _ => .pure _
  | none =>
    have hname : v.rename.name x = x := hsc.name_of_resolve hx (by simp [hresolve])
    dsimp only [Option.map_none]
    rw [hsc.isClassName]
    nth_rewrite 1 [hname]
    exact .bind (.reportIf _ (.undeclaredVariable x) ..) fun _ => .pure _

theorem notTy_alike {ρ : Renaming} (span span' : Span) (found : Option Ty) :
    Alike ρ (notTy span found) (notTy span' found) := by
  unfold notTy
  split
  · exact .pure _
  · exact .pure _
  · exact .bind (.report (.notOperand _) ..) fun _ => .pure _

theorem binaryTy_alike {ρ : Renaming} (span span' : Span) (op : BinOp) (left right : Option Ty) :
    Alike ρ (binaryTy span op left right) (binaryTy span' op left right) := by
  unfold binaryTy
  dsimp only
  split
  · exact .pure _
  · exact .bind (.report (.binaryOperands op _ _) ..) fun _ => .pure _

theorem wantInt_alike {ρ : Renaming} {problem : Ty → Problem}
    (hproblem : ∀ ty, (problem ty).rename ρ = problem ty) (span span' : Span) (found : Option Ty) :
    Alike ρ (wantInt problem span found) (wantInt problem span' found) := by
  cases found with
  | none => exact .pure ()
  | some ty =>
    have hreport := Alike.reportIf (ρ := ρ) (ty != .int) (problem ty) span span'
    rw [hproblem] at hreport
    exact hreport

theorem lengthTy_alike {a a' : Expr} (ha : a.Variant v a') (found : Option Ty) :
    Alike v.rename (lengthTy a found) (lengthTy a' found) := by
  cases found with
  | none => exact .bind (ha.needType _) fun _ => .pure _
  | some ty => exact .bind (.reportIf _ (.lengthOperand ty) ..) fun _ => .pure _

theorem indexTy_alike {a a' : Expr} (ha : a.Variant v a') (found : Option Ty) :
    Alike v.rename (indexTy a found) (indexTy a' found) := by
  unfold indexTy
  split
  · exact .pure _
  · exact .bind (.report (.indexedValue _) ..) fun _ => .pure _
  · exact .bind (ha.needType _) fun _ => .pure _

/-- The annotator says the same of an expression and of its variant. -/
theorem Variant.annotate (hsc : v.Scopes sc sc') {e e' : Expr} (h : e.Variant v e') :
    Alike v.rename (e.annotate sc) (e'.annotate sc') := by
  induction e using Expr.induction generalizing e' with
  | int n k => cases h with
    | int => exact .settle ..
  | bool n b => cases h with
    | bool => exact .settle ..
  | var n x => cases h with
    | var _ hx => exact .bind (varTy_alike hsc hx ..) fun _ => .settle ..
  | this n => cases h with
    | this =>
      rw [Expr.annotate, Expr.annotate, hsc.isStatic, hsc.thisTy]
      exact .bind (.reportIf _ .staticThis ..) fun _ => .settle ..
  | not n e ih => cases h with
    | not he =>
      exact .bind (.expect (ih he) ..) fun _ => .bind (notTy_alike ..) fun _ => .settle ..
  | binary n op l r ihl ihr => cases h with
    | binary _ hl hr =>
      exact .bind (.expect (ihl hl) ..) fun _ => .bind (.expect (ihr hr) ..) fun _ =>
        .bind (binaryTy_alike ..) fun _ => .settle ..
  | call n r m args ihr ihargs => cases h with
    | @call _ n' _ r' _ m' _ args' _ hr hm hargs =>
      have heach : ArgsAlike v.rename (annotateEach sc args) (annotateEach sc' args') := by
        rw [annotateEach_eq_map, annotateEach_eq_map, ArgsAlike, List.forall₂_map_left_iff,
          List.forall₂_map_right_iff]
        exact forall₂_imp_mem hargs fun a ha a' _ haa' => ihargs a ha haa'
      rw [Expr.annotate, Expr.annotate, hm]
      exact .bind (ihr hr) fun _ => .bind (heach.call hsc hr ..) fun _ => .settle ..
  | newObject n c => cases h with
    | newObject hc =>
      rw [Expr.annotate, Expr.annotate, hsc.isClassName, hc]
      exact .bind (.reportIf _ (.unknownClass c.node) ..) fun _ => .settle ..
  | newArray n e ih => cases h with
    | newArray _ he =>
      exact .bind (.expect (ih he) ..) fun _ => .bind (wantInt_alike (fun _ => rfl) ..) fun _ =>
        .settle ..
  | length n a ih => cases h with
    | length ha => exact .bind (ih ha) fun _ => .bind (lengthTy_alike ha _) fun _ => .settle ..
  | index n a i iha ihi => cases h with
    | index _ ha hi =>
      exact .bind (iha ha) fun _ => .bind (.expect (ihi hi) ..) fun _ =>
        .bind (wantInt_alike (fun _ => rfl) ..) fun _ =>
          .bind (indexTy_alike ha _) fun _ => .settle ..
  | paren n e ih => cases h with
    | paren he => exact .bind (ih he) fun _ => .settle ..
    -- Parentheses give the type of what is inside and report nothing. So the notes differ, in one
    -- place, and what counts about them does not.
    | dropped he =>
      have hinner := ih he
      refine ⟨?_, ?_⟩
      · simpa [Expr.annotate] using hinner.value
      · simpa [Expr.annotate] using hinner.problems

end Expr

/-! ## Statements -/

namespace Stmt

open Noted (Alike)

variable {v : Variation} {sc sc' : Scope}

theorem condition_alike (hsc : v.Scopes sc sc') {c c' : Expr} (hc : c.Variant v c')
    (keyword : String) : Alike v.rename (condition sc keyword c) (condition sc' keyword c') := by
  refine .bind (hc.annotate hsc) fun found => ?_
  split
  · exact .pure ()
  · exact .report (.condition keyword _) ..
  · exact .report (.undeterminedCondition keyword) ..

theorem target_alike (hsc : v.Scopes sc sc') {x x' : Located String} (hx : v.Target x x') :
    Alike v.rename (target sc x) (target sc' x') := by
  unfold target
  rw [hx.name, hsc.resolve hx.admitted]
  cases sc.resolve x.node with
  | some b =>
    dsimp only [Option.map_some]
    rw [hsc.isStatic, v.rename.isField_binding, v.rename.ty_binding]
    exact .bind (.reportIf _ (.staticFieldTarget x.node) ..) fun _ => .pure _
  | none => exact .bind (.report (.undeclaredTarget x.node) ..) fun _ => .pure _

theorem fit_alike (hsc : v.Scopes sc sc') {e e' : Expr} (he : e.Variant v e') (expected : Ty)
    {fits fits' : Ty → Bool} (hfits : ∀ ty, fits' ty = fits ty) {problem problem' : Ty → Problem}
    (hproblem : ∀ ty, problem' ty = (problem ty).rename v.rename) (span span' : Span) :
    Alike v.rename (fit sc e expected fits problem span)
      (fit sc' e' expected fits' problem' span') := by
  refine .bind (.expect (he.annotate hsc) ..) fun found => ?_
  cases found with
  | none => exact .pure ()
  | some ty =>
    dsimp only
    rw [hfits, hproblem]
    exact .reportIf ..

/-- A value that nothing is expected of. -/
theorem ignored_alike (hsc : v.Scopes sc sc') {e e' : Expr} (he : e.Variant v e') :
    Alike v.rename (do let _ ← e.annotate sc) (do let _ ← e'.annotate sc') :=
  .bind (he.annotate hsc) fun _ => .pure ()

theorem elementTy_alike {x x' : Located String} (hx : v.Target x x') (found : Option Ty) :
    Alike v.rename (elementTy x found) (elementTy x' found) := by
  unfold elementTy
  split
  · exact .pure _
  · rw [hx.name]
    exact .bind (.report (.notArray x.node _) ..) fun _ => .pure _
  · exact .pure _

theorem returned_alike (hsc : v.Scopes sc sc') {e e' : Expr} (he : e.Variant v e')
    (span span' : Span) :
    Alike v.rename (returned sc span (some e)) (returned sc' span' (some e')) := by
  unfold returned
  dsimp only
  rw [hsc.returnTy]
  split
  · exact .bind (he.annotate hsc) fun _ => .report .voidReturn ..
  · exact fit_alike hsc he _ (fun _ => hsc.assignable ..) (fun _ => rfl) ..

/-- To take a type is no problem. -/
theorem problems_effect (e : Expr) :
    problems (effect sc e).notes = problems (e.annotate sc).notes := by
  unfold effect
  rw [Noted.notes_bind, problems_append]
  split <;> simp

theorem effect_alike (hsc : v.Scopes sc sc') {e e' : Expr} (he : e.Variant v e') :
    Alike v.rename (effect sc e) (effect sc' e') := by
  refine ⟨rfl, ?_⟩
  rw [problems_effect, problems_effect]
  exact (he.annotate hsc).problems

theorem annotateAll_alike {ss ss' : List Stmt}
    (h : List.Forall₂ (fun s s' => Alike v.rename (s.annotate sc) (s'.annotate sc')) ss ss') :
    Alike v.rename (annotateAll sc ss) (annotateAll sc' ss') := by
  induction h with
  | nil => exact .pure ()
  | cons hs _ ih => exact .bind hs fun _ => ih

theorem Variant.annotate (hsc : v.Scopes sc sc') {s s' : Stmt} (h : s.Variant v s') :
    Alike v.rename (s.annotate sc) (s'.annotate sc') := by
  induction s using Stmt.induction generalizing s' with
  | varDecl sp d => cases h with
    | varDecl => exact .pure ()
  | block sp body ih => cases h with
    | block hbody =>
      exact annotateAll_alike (forall₂_imp_mem hbody fun t ht t' _ htt' => ih t ht htt')
  | ifThen sp c t ih => cases h with
    | ifThen hc ht => exact .bind (condition_alike hsc hc _) fun _ => ih ht
  | ifElse sp c t e iht ihe => cases h with
    | ifElse hc ht he =>
      exact .bind (condition_alike hsc hc _) fun _ => .bind (iht ht) fun _ => ihe he
  | whileLoop sp c b ih => cases h with
    | whileLoop hc hb => exact .bind (condition_alike hsc hc _) fun _ => ih hb
  | expr sp e => cases h with
    | expr he => exact effect_alike hsc he
  | assign sp x e => cases h with
    | assign hx he =>
      refine .bind (target_alike hsc hx) fun found => ?_
      cases found with
      | none => exact ignored_alike hsc he
      | some ty =>
        refine fit_alike hsc he _ (fun _ => hsc.assignable ..) (fun _ => ?_) ..
        rw [hx.name]
        rfl
  | arrayAssign sp x i e => cases h with
    | arrayAssign hx hi he =>
      refine .bind (target_alike hsc hx) fun _ => .bind (.expect (hi.annotate hsc) ..) fun _ =>
        .bind (Expr.wantInt_alike (fun _ => rfl) ..) fun _ =>
          .bind (elementTy_alike hx _) fun found => ?_
      cases found with
      | none => exact ignored_alike hsc he
      | some ty =>
        refine fit_alike hsc he _ (fun _ => rfl) (fun _ => ?_) ..
        rw [hx.name]
        rfl
  | ret sp e => cases h with
    | retNone =>
      rw [Stmt.annotate, Stmt.annotate, returned, returned, hsc.returnTy]
      exact .reportIf _ (.noReturnValue _) ..
    | ret he => exact returned_alike hsc he ..

/-- The annotator says the same of the body of a method and of its variant. -/
theorem Variant.annotateAll (hsc : v.Scopes sc sc') {ss ss' : List Stmt}
    (h : List.Forall₂ (Variant v) ss ss') :
    Alike v.rename (annotateAll sc ss) (annotateAll sc' ss') :=
  annotateAll_alike (h.imp fun _ _ hs => hs.annotate hsc)

end Stmt

end MiniJava
