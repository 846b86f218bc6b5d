import MiniJava.Lowering.Program
import MiniJava.Proofs.Lowering.Inversion
import MiniJava.Proofs.Variation.Lowering

/-!
# Variants of programs

Each method of a program may be varied in its own way. The annotator then reports the same problems
of both programs, in terms of the new names (`Program.VariantIn.problems`), and with unique ids in
both, lowering gives the same classes, with methods whose variables are renamed, or stops for the
same cause (`Program.VariantIn.lower`).
-/

namespace MiniJava

open Ir

theorem optionRel_cases {α β : Type} {R : α → β → Prop} {x : Option α} {y : Option β}
    (h : Option.Rel R x y) :
    (x = none ∧ y = none) ∨ ∃ a b, x = some a ∧ y = some b ∧ R a b := by
  cases h with
  | none => exact .inl ⟨rfl, rfl⟩
  | some hab => exact .inr ⟨_, _, rfl, rfl, hab⟩

/-! ## Declarations -/

/-- The second method is the first with its variables renamed and its body varied. -/
structure MethodDecl.Variant (v : Variation) (d d' : MethodDecl) : Prop where
  isPublic : d'.isPublic = d.isPublic
  isStatic : d'.isStatic = d.isStatic
  name : d'.name.node = d.name.node
  returnTy : d'.returnTy.node = d.returnTy.node
  params : d'.params.map VarDecl.symbol = (d.params.map VarDecl.symbol).map v.rename.symbol
  body : List.Forall₂ (Stmt.Variant v) d.body d'.body

/-- The symbols of both methods are found, and their scopes are alike, or neither is found. -/
def MethodDecl.FoundAlike (v : Variation) (table table' : SymbolTable) (cls cls' : ClassSymbols)
    (d d' : MethodDecl) : Prop :=
  Option.Rel (fun m m' => v.Scopes (d.scope table cls m) (d'.scope table' cls' m'))
    (cls.method? d.name.node) (cls'.method? d'.name.node)

/-- The second class is the first, with each method varied in one of the given ways. -/
structure ClassDecl.VariantIn (V : Variation → Prop) (table table' : SymbolTable)
    (d d' : ClassDecl) :
    Prop where
  name : d'.name.node = d.name.node
  superName : (d'.superName.map fun x => x.node) = d.superName.map fun x => x.node
  fields : d'.fields.map VarDecl.symbol = d.fields.map VarDecl.symbol
  found : Option.Rel (fun cls cls' => cls'.name = cls.name) (table.class? d.name.node)
    (table'.class? d'.name.node)
  methods : List.Forall₂ (fun md md' => ∃ v, V v ∧ md.Variant v md' ∧
      ∀ cls cls', table.class? d.name.node = some cls → table'.class? d'.name.node = some cls' →
        md.FoundAlike v table table' cls cls' md') d.methods d'.methods

/-- The second program is the first, with each method varied in one of the given ways. -/
structure Program.VariantIn (V : Variation → Prop) (table table' : SymbolTable) (p p' : Program) :
    Prop where
  imports : (p'.imports.map fun i => i.node) = p.imports.map fun i => i.node
  classes : List.Forall₂ (ClassDecl.VariantIn V table table') p.classes p'.classes

/-! ## Annotation -/

variable {V : Variation → Prop} {table table' : SymbolTable}

/-- The second problem is the first in terms of new names. -/
def Problem.Alike (V : Variation → Prop) (q q' : Problem) : Prop :=
  ∃ v, V v ∧ q' = q.rename v.rename

theorem forall₂_problems_flatMap {α : Type} {l l' : List α} {f f' : α → List Note}
    {R : Problem → Problem → Prop}
    (h : List.Forall₂ (fun a a' => List.Forall₂ R (problems (f a)) (problems (f' a'))) l l') :
    List.Forall₂ R (problems (l.flatMap f)) (problems (l'.flatMap f')) := by
  induction h with
  | nil => exact .nil
  | cons ha _ ih =>
    rw [List.flatMap_cons, List.flatMap_cons, problems_append, problems_append]
    exact List.rel_append ha ih

theorem MethodDecl.Variant.problems {v : Variation} {cls cls' : ClassSymbols} {d d' : MethodDecl}
    (h : d.Variant v d') (hfound : d.FoundAlike v table table' cls cls' d')
    (hname : cls'.name = cls.name) :
    MiniJava.problems (d'.annotate table' cls') =
      (MiniJava.problems (d.annotate table cls)).map (Problem.rename v.rename) := by
  unfold annotate
  rcases optionRel_cases hfound with ⟨hold, hnew⟩ | ⟨method, method', hold, hnew, hsc⟩
  · rw [hold, hnew, hname, h.name]
    rfl
  · have hbody : MiniJava.problems (Stmt.annotateAll (d'.scope table' cls' method') d'.body).notes =
        (MiniJava.problems (Stmt.annotateAll (d.scope table cls method) d.body).notes).map
          (Problem.rename v.rename) :=
      (Stmt.Variant.annotateAll hsc h.body).problems
    rw [hold, hnew]
    dsimp only
    rw [problems_append, problems_append, List.map_append, h.returnTy,
      Stmt.Variant.lastReturns h.body, h.name]
    refine congrArg₂ (· ++ ·) hbody ?_
    split <;> rfl

theorem ClassDecl.VariantIn.problems {d d' : ClassDecl} (h : d.VariantIn V table table' d')
    {v₀ : Variation} (hv₀ : V v₀) :
    List.Forall₂ (Problem.Alike V) (MiniJava.problems (d.annotate table))
      (MiniJava.problems (d'.annotate table')) := by
  unfold annotate
  rcases optionRel_cases h.found with ⟨hold, hnew⟩ | ⟨cls, cls', hold, hnew, hname⟩
  · rw [hold, hnew, h.name]
    exact .cons ⟨v₀, hv₀, rfl⟩ .nil
  · rw [hold, hnew]
    refine forall₂_problems_flatMap (h.methods.imp fun md md' hmd => ?_)
    obtain ⟨v, hv, hvariant, hfound⟩ := hmd
    rw [hvariant.problems (hfound cls cls' hold hnew) hname, List.forall₂_map_right_iff,
      List.forall₂_same]
    exact fun q _ => ⟨v, hv, rfl⟩

/-- The methods of both programs have the same problems in the same order. -/
theorem Program.VariantIn.problems {p p' : Program} (h : p.VariantIn V table table' p')
    {v₀ : Variation} (hv₀ : V v₀) :
    List.Forall₂ (Problem.Alike V)
      (MiniJava.problems (p.classes.flatMap (ClassDecl.annotate table)))
    (MiniJava.problems (p'.classes.flatMap (ClassDecl.annotate table'))) :=
  forall₂_problems_flatMap (h.classes.imp fun _ _ hd => hd.problems hv₀)

/-! ## Lowering -/

/-- The method with its variables renamed. -/
def Ir.Method.rename (ρ : Renaming) (m : Method) : Method :=
  { m with
    params := m.params.map ρ.symbol
    locals := m.locals.map ρ.symbol
    code := m.code.map (Instr.rename ρ) }

@[simp] theorem Ir.Method.rename_defaultConstructor (ρ : Renaming) (c : String) :
    (Method.defaultConstructor c).rename ρ = Method.defaultConstructor c := by
  simp [rename, defaultConstructor, Instr.rename]

/-- The classes are the same, with methods whose variables are renamed. -/
structure Ir.ClassUnit.Alike (V : Variation → Prop) (u u' : ClassUnit) : Prop where
  imports : u'.imports = u.imports
  name : u'.name = u.name
  superName : u'.superName = u.superName
  fields : u'.fields = u.fields
  methods : List.Forall₂ (fun m m' => ∃ v, V v ∧ m' = m.rename v.rename) u.methods u'.methods

/-- The faults have the same cause. -/
def LowerError.AlikeIn (V : Variation → Prop) (e e' : LowerError) : Prop := ∃ v, V v ∧ e.Alike v e'

/-- Builds side by side; what they log is not compared. -/
def Build.Alike {α α' : Type} (V : Variation → Prop) (W : α → α' → Prop) (x : Build α)
    (y : Build α') :
    Prop :=
  Stage.Alike (fun _ _ => True) (LowerError.AlikeIn V) W x y

theorem MethodDecl.Variant.finalReturn {v : Variation} {d d' : MethodDecl} (h : d.Variant v d') :
    d'.finalReturn = d.finalReturn.map (Instr.rename v.rename) := by
  unfold MethodDecl.finalReturn
  rw [h.returnTy, Stmt.Variant.lastReturns h.body]
  split <;> rfl

theorem MethodDecl.Variant.lower {v : Variation} (hv : V v) {cls cls' : ClassSymbols}
    {d d' : MethodDecl} (h : d.Variant v d') (hfound : d.FoundAlike v table table' cls cls' d')
    (hname : cls'.name = cls.name) {types types' : TypeMap}
    (ht : ∀ m, cls.method? d.name.node = some m →
      types.Follows (Stmt.placesAll (d.scope table cls m) d.body))
    (ht' : ∀ m, cls'.method? d'.name.node = some m →
      types'.Follows (Stmt.placesAll (d'.scope table' cls' m) d'.body)) :
    Build.Alike V (fun m m' => m' = m.rename v.rename) (d.lower table types cls)
      (d'.lower table' types' cls') := by
  unfold MethodDecl.lower
  rcases optionRel_cases hfound with ⟨hold, hnew⟩ | ⟨method, method', hold, hnew, hsc⟩
  · rw [hold, hnew, hname, h.name]
    exact .fail joins_true ⟨v, hv, .missingMethod⟩
  · have hbody : Build.Alike V (fun code code' => code' = code.map (Instr.rename v.rename))
        ((Stmt.lowerAll (d.scope table cls method) types d.body).collect (·.filterMap Instr.call?))
        ((Stmt.lowerAll (d'.scope table' cls' method') types' d'.body).collect
          (·.filterMap Instr.call?)) :=
      ((Stmt.Variant.lowerAll hsc h.body (ht method hold) (ht' method' hnew)).collect
        fun _ _ _ => trivial).mono (fun _ _ hout => hout) (fun _ _ he => ⟨v, hv, he⟩)
        fun _ _ hcode => hcode
    rw [hold, hnew]
    refine .bind joins_true hbody fun code code' hcode => .bind joins_true (.emit trivial)
      fun _ _ _ => .pure joins_true ?_
    -- What is left of the method are its declarations, which are renamed as the code is.
    have hparams : method'.params = method.params.map v.rename.symbol := hsc.params
    have hlocals : method'.locals = method.locals.map v.rename.symbol := hsc.locals
    rw [Method.rename, h.name, hname, h.isPublic, h.isStatic, hparams, hlocals, h.returnTy,
      h.finalReturn, hcode, ← List.map_append]

theorem ClassDecl.VariantIn.lower {d d' : ClassDecl} (h : d.VariantIn V table table' d')
    {v₀ : Variation} (hv₀ : V v₀) {types types' : TypeMap} (imports : List String)
    (ht : ∀ cls, table.class? d.name.node = some cls → ∀ md ∈ d.methods, ∀ m,
      cls.method? md.name.node = some m →
        types.Follows (Stmt.placesAll (md.scope table cls m) md.body))
    (ht' : ∀ cls, table'.class? d'.name.node = some cls → ∀ md ∈ d'.methods, ∀ m,
      cls.method? md.name.node = some m →
        types'.Follows (Stmt.placesAll (md.scope table' cls m) md.body)) :
    Build.Alike V (ClassUnit.Alike V) (d.lower table types imports)
      (d'.lower table' types' imports) := by
  unfold ClassDecl.lower
  rcases optionRel_cases h.found with ⟨hold, hnew⟩ | ⟨cls, cls', hold, hnew, hname⟩
  · rw [hold, hnew, h.name]
    exact .fail joins_true ⟨v₀, hv₀, .missingClass⟩
  · have hall : Build.Alike V (List.Forall₂ fun m m' => ∃ v, V v ∧ m' = m.rename v.rename)
        (MethodDecl.lowerAll table types cls d.methods)
        (MethodDecl.lowerAll table' types' cls' d'.methods) := by
      rw [MethodDecl.lowerAll_eq_mapM', MethodDecl.lowerAll_eq_mapM']
      refine .mapM' joins_true (forall₂_imp_mem h.methods fun md hmd md' hmd' hmethod => ?_)
      -- Each method may be varied in its own way.
      obtain ⟨v, hv, hvariant, hfound⟩ := hmethod
      exact (hvariant.lower hv (hfound cls cls' hold hnew) hname (ht cls hold md hmd)
        (ht' cls' hnew md' hmd')).mono (fun _ _ hout => hout) (fun _ _ he => he)
        fun m m' hm => ⟨v, hv, hm⟩
    rw [hold, hnew]
    refine .bind joins_true hall fun ms ms' hms => .bind joins_true (.update joins_true _)
      fun _ _ _ => .bind joins_true (.emit trivial) fun _ _ _ => .pure joins_true ?_
    refine ⟨rfl, h.name, h.superName, ?_, List.rel_append hms (.cons ⟨v₀, hv₀, ?_⟩ .nil)⟩
    · have hfields := congrArg
        (List.map fun s : Symbol => ({ name := s.name, ty := s.ty, access := .pub } : Field))
          h.fields
      rw [List.map_map, List.map_map] at hfields
      exact hfields
    · rw [h.name, Method.rename_defaultConstructor]

/-- **Lowering variants.** With unique ids in both programs, lowering by the types that were found
gives the same classes with variables renamed, or stops for the same cause. -/
theorem Program.VariantIn.lower {p p' : Program} (h : p.VariantIn V table table' p')
    {v₀ : Variation} (hv₀ : V v₀) (hids : p.uniqueIds = true) (hids' : p'.uniqueIds = true) :
    Build.Alike V (List.Forall₂ (ClassUnit.Alike V)) (p.lower table (p.annotate table).types)
      (p'.lower table' (p'.annotate table').types) := by
  unfold Program.lower
  rw [ClassDecl.lowerAll_eq_mapM', ClassDecl.lowerAll_eq_mapM', h.imports]
  refine .mapM' joins_true (forall₂_imp_mem h.classes fun d hd d' hd' hclass => ?_)
  exact hclass.lower hv₀ _ (fun cls hcls md hmd m hm => follows_body hids hd hcls hmd hm)
    fun cls hcls md hmd m hm => follows_body hids' hd' hcls hmd hm

end MiniJava
