import MiniJava.Proofs.Symbols
import MiniJava.Proofs.Variation.Emission
import MiniJava.Proofs.Variation.Outline
import Mathlib.Logic.Equiv.Basic

/-!
# Names of locals

A local or parameter hides a field, an imported class and, in the table of registers, any later
variable of its name. What it is called is still of no matter, as long as the name is used for
nothing else in the method and is none of those that the compiler makes up.

**Theorem** (`renamed_local_same_assembly`). If a local or parameter of a method gets a name that
does not occur in the method, an accepted program stays accepted, and has the same assembly or
cannot be lowered for the same cause.

The new name may be that of a field or class, which the method then no longer reaches by it. A
renaming is one-to-one, so the variation exchanges both names; the old tree does not have the new
name, and in it the exchange only replaces the old one.
-/

namespace MiniJava

open Ir Assembly

/-! ## Variables of trees -/

namespace Expr

def var? : Expr → Option String
  | var _ x => some x
  | _ => none

/-- The names that stand as variables in the expression. -/
def vars (e : Expr) : List String := e.subtree.filterMap var?

mutual

/-- The expression with other names for its variables. -/
def mapVars (f : String → String) : Expr → Expr
  | int n k => int n k
  | bool n b => bool n b
  | var n x => var n (f x)
  | this n => this n
  | not n e => not n (e.mapVars f)
  | binary n op l r => binary n op (l.mapVars f) (r.mapVars f)
  | call n r m args => call n (r.mapVars f) m (mapVarsAll f args)
  | newObject n c => newObject n c
  | newArray n e => newArray n (e.mapVars f)
  | length n a => length n (a.mapVars f)
  | index n a i => index n (a.mapVars f) (i.mapVars f)
  | paren n e => paren n (e.mapVars f)

def mapVarsAll (f : String → String) : List Expr → List Expr
  | [] => []
  | e :: es => e.mapVars f :: mapVarsAll f es

end

theorem mapVarsAll_eq_map (f : String → String) (es : List Expr) :
    mapVarsAll f es = es.map (mapVars f) := by
  induction es with
  | nil => rfl
  | cons e es ih => rw [mapVarsAll, List.map_cons, ih]

end Expr

def Located.mapName (f : String → String) (x : Located String) : Located String :=
  { x with node := f x.node }

def VarDecl.mapName (f : String → String) (d : VarDecl) : VarDecl :=
  { d with name := d.name.mapName f }

namespace Stmt

mutual

/-- The names that are declared, assigned to or stand as variables in the statement. -/
def vars : Stmt → List String
  | varDecl _ d => [d.name.node]
  | block _ body => varsAll body
  | ifThen _ c t => c.vars ++ t.vars
  | ifElse _ c t e => c.vars ++ t.vars ++ e.vars
  | whileLoop _ c b => c.vars ++ b.vars
  | expr _ e => e.vars
  | assign _ x e => x.node :: e.vars
  | arrayAssign _ x i e => x.node :: (i.vars ++ e.vars)
  | ret _ none => []
  | ret _ (some e) => e.vars

def varsAll : List Stmt → List String
  | [] => []
  | s :: ss => s.vars ++ varsAll ss

end

mutual

/-- The statement with other names for its variables. -/
def mapVars (f : String → String) : Stmt → Stmt
  | varDecl s d => varDecl s (d.mapName f)
  | block s body => block s (mapVarsAll f body)
  | ifThen s c t => ifThen s (c.mapVars f) (t.mapVars f)
  | ifElse s c t e => ifElse s (c.mapVars f) (t.mapVars f) (e.mapVars f)
  | whileLoop s c b => whileLoop s (c.mapVars f) (b.mapVars f)
  | expr s e => expr s (e.mapVars f)
  | assign s x e => assign s (x.mapName f) (e.mapVars f)
  | arrayAssign s x i e => arrayAssign s (x.mapName f) (i.mapVars f) (e.mapVars f)
  | ret s e => ret s (e.map (Expr.mapVars f))

def mapVarsAll (f : String → String) : List Stmt → List Stmt
  | [] => []
  | s :: ss => s.mapVars f :: mapVarsAll f ss

end

theorem mapVarsAll_eq_map (f : String → String) (ss : List Stmt) :
    mapVarsAll f ss = ss.map (mapVars f) := by
  induction ss with
  | nil => rfl
  | cons s ss ih => rw [mapVarsAll, List.map_cons, ih]

theorem varsAll_eq_flatMap (ss : List Stmt) : varsAll ss = ss.flatMap vars := by
  induction ss with
  | nil => rfl
  | cons s ss ih => rw [varsAll, List.flatMap_cons, ih]

end Stmt

namespace MethodDecl

/-- The parameters and the variables declared in the body. -/
def declaredNames (d : MethodDecl) : List String :=
  (d.symbols.locals ++ d.symbols.params).map Symbol.name

/-- The names that are declared, assigned to or stand as variables in the method. -/
def vars (d : MethodDecl) : List String :=
  d.params.map (fun p => p.name.node) ++ Stmt.varsAll d.body

def mapVars (f : String → String) (d : MethodDecl) : MethodDecl :=
  { d with params := d.params.map (VarDecl.mapName f), body := Stmt.mapVarsAll f d.body }

end MethodDecl

/-! ## Renamed trees are variants -/

section

variable {v : Variation} {f : String → String}

/-- The variation renames as `f` does on these names, and keeps spans. -/
structure Variation.Matches (v : Variation) (f : String → String) (names : List String) : Prop where
  spans : ∀ s, v.spans s s
  admits : ∀ x ∈ names, v.admits x
  name : ∀ x ∈ names, f x = v.rename.name x

theorem Variation.Matches.of_subset {names names' : List String} (h : v.Matches f names')
    (hsub : names ⊆ names') : v.Matches f names :=
  ⟨h.spans, fun x hx => h.admits x (hsub hx), fun x hx => h.name x (hsub hx)⟩

theorem Variation.Matches.append {a b : List String} (h : v.Matches f (a ++ b)) :
    v.Matches f a ∧ v.Matches f b :=
  ⟨h.of_subset (List.subset_append_left a b), h.of_subset (List.subset_append_right a b)⟩

theorem Expr.vars_subset {d e : Expr} (hd : d ∈ e.children) : d.vars ⊆ e.vars := by
  intro x hx
  obtain ⟨t, ht, htx⟩ := List.mem_filterMap.1 hx
  refine List.mem_filterMap.2 ⟨t, ?_, htx⟩
  rw [subtree_eq_cons e]
  exact .tail _ (List.mem_flatMap.2 ⟨d, hd, ht⟩)

theorem Variation.Matches.child {e d : Expr} (h : v.Matches f e.vars) (hd : d ∈ e.children) :
    v.Matches f d.vars :=
  h.of_subset (Expr.vars_subset hd)

theorem Expr.variant_mapVars {e : Expr} (h : v.Matches f e.vars) : e.Variant v (e.mapVars f) := by
  induction e using Expr.induction with
  | int | bool | this => constructor
  | newObject n c => exact .newObject rfl
  | var n x =>
    rw [mapVars, h.name x (.head _)]
    exact .var (h.spans _) (h.admits x (.head _))
  | not n e ih => exact .not (ih h)
  | newArray n e ih => exact .newArray (h.spans _) (ih h)
  | length n a ih => exact .length (ih h)
  | paren n e ih => exact .paren (ih h)
  | binary n op l r ihl ihr =>
    exact .binary (h.spans _) (ihl (h.child (.head _))) (ihr (h.child (.tail _ (.head _))))
  | index n a i iha ihi =>
    exact .index (h.spans _) (iha (h.child (.head _))) (ihi (h.child (.tail _ (.head _))))
  | call n r m args ihr ihargs =>
    rw [mapVars, mapVarsAll_eq_map]
    refine .call (h.spans _) (ihr (h.child (.head _))) rfl ?_
    rw [List.forall₂_map_right_iff, List.forall₂_same]
    exact fun a ha => ihargs a ha (h.child (.tail _ ha))

theorem Variation.Matches.member {ss : List Stmt} {s : Stmt}
    (h : v.Matches f (ss.flatMap Stmt.vars)) (hs : s ∈ ss) : v.Matches f s.vars :=
  h.of_subset fun _ hx => List.mem_flatMap.2 ⟨s, hs, hx⟩

theorem Variation.Matches.target {x : Located String} {names : List String}
    (h : v.Matches f (x.node :: names)) : v.Target x (x.mapName f) :=
  ⟨h.admits _ (.head _), h.name _ (.head _), h.spans _⟩

theorem Variation.Matches.symbol {d : VarDecl} {names : List String} (h : v.Matches f names)
    (hd : d.name.node ∈ names) : (d.mapName f).symbol = v.rename.symbol d.symbol := by
  show Symbol.mk (f d.name.node) d.ty.node = ⟨v.rename.name d.name.node, d.ty.node⟩
  rw [h.name _ hd]

theorem Stmt.variant_mapVars {s : Stmt} (h : v.Matches f s.vars) : s.Variant v (s.mapVars f) := by
  induction s using Stmt.induction with
  | varDecl sp d => exact .varDecl (h.symbol (.head _))
  | block sp body ih =>
    rw [mapVars, mapVarsAll_eq_map]
    rw [vars, varsAll_eq_flatMap] at h
    refine .block ?_
    rw [List.forall₂_map_right_iff, List.forall₂_same]
    exact fun t ht => ih t ht (h.member ht)
  | ifThen sp c t ih => exact .ifThen (Expr.variant_mapVars h.append.1) (ih h.append.2)
  | ifElse sp c t e iht ihe =>
    obtain ⟨hct, he⟩ := h.append
    exact .ifElse (Expr.variant_mapVars hct.append.1) (iht hct.append.2) (ihe he)
  | whileLoop sp c b ih => exact .whileLoop (Expr.variant_mapVars h.append.1) (ih h.append.2)
  | expr sp e => exact .expr (Expr.variant_mapVars h)
  | assign sp x e =>
    exact .assign h.target (Expr.variant_mapVars (h.of_subset (List.subset_cons_self _ _)))
  | arrayAssign sp x i e =>
    have hparts := (h.of_subset (List.subset_cons_self _ _)).append
    exact .arrayAssign h.target (Expr.variant_mapVars hparts.1) (Expr.variant_mapVars hparts.2)
  | ret sp e =>
    cases e with
    | none => exact .retNone
    | some e => exact .ret (Expr.variant_mapVars h)

theorem MethodDecl.variant_mapVars {d : MethodDecl} (h : v.Matches f d.vars) :
    d.Variant v (d.mapVars f) := by
  obtain ⟨hparams, hbody⟩ := h.append
  refine ⟨rfl, rfl, rfl, rfl, ?_, ?_⟩
  · show (d.params.map (VarDecl.mapName f)).map VarDecl.symbol = _
    rw [List.map_map, List.map_map]
    exact List.map_congr_left fun p hp => hparams.symbol (List.mem_map_of_mem hp)
  · show List.Forall₂ _ d.body (Stmt.mapVarsAll f d.body)
    rw [Stmt.mapVarsAll_eq_map, List.forall₂_map_right_iff, List.forall₂_same]
    rw [Stmt.varsAll_eq_flatMap] at hbody
    exact fun s hs => Stmt.variant_mapVars (hbody.member hs)

end

/-! ## Variants with tables of their own -/

section

variable {v : Variation} {V : Variation → Prop}

theorem Stmt.declaredAll_eq_flatMap (ss : List Stmt) : declaredAll ss = ss.flatMap declared := by
  induction ss with
  | nil => rfl
  | cons s ss ih => rw [declaredAll, List.flatMap_cons, ih]

theorem Stmt.Variant.declared {s s' : Stmt} (h : s.Variant v s') :
    s'.declared = s.declared.map v.rename.symbol := by
  induction s using Stmt.induction generalizing s' with
  | varDecl sp d => cases h with
    | varDecl hd => rw [Stmt.declared, Stmt.declared, List.map_singleton, hd]
  | block sp body ih => cases h with
    | block hbody =>
      rw [Stmt.declared, Stmt.declared, declaredAll_eq_flatMap, declaredAll_eq_flatMap,
        List.map_flatMap]
      exact flatMap_eq_of_forall₂ (forall₂_imp_mem hbody fun t ht t' _ htt' => ih t ht htt')
  | ifThen sp c t ih => cases h with
    | ifThen _ ht =>
      rw [Stmt.declared, Stmt.declared]
      exact ih ht
  | ifElse sp c t e iht ihe => cases h with
    | ifElse _ ht he => rw [Stmt.declared, Stmt.declared, List.map_append, iht ht, ihe he]
  | whileLoop sp c b ih => cases h with
    | whileLoop _ hb =>
      rw [Stmt.declared, Stmt.declared]
      exact ih hb
  | expr | assign | arrayAssign | ret => cases h <;> rfl

/-- A variant of the method in which only variables that it declares have new names. -/
structure MethodDecl.LocalVariant (v : Variation) (d d' : MethodDecl) : Prop where
  variant : d.Variant v d'
  fixed : ∀ x, v.admits x → x ∉ d.declaredNames → v.rename.name x = x

namespace MethodDecl.Variant

variable {d d' : MethodDecl}

theorem locals_symbols (h : d.Variant v d') :
    d'.symbols.locals = d.symbols.locals.map v.rename.symbol := by
  show Stmt.declaredAll d'.body = (Stmt.declaredAll d.body).map v.rename.symbol
  rw [Stmt.declaredAll_eq_flatMap, Stmt.declaredAll_eq_flatMap, List.map_flatMap]
  exact flatMap_eq_of_forall₂ (h.body.imp fun _ _ hs => hs.declared)

theorem signature (h : d.Variant v d') : d'.symbols.signature = d.symbols.signature := by
  have hparams : d'.symbols.params = d.symbols.params.map v.rename.symbol := h.params
  have hreturn : d'.symbols.returnTy = d.symbols.returnTy := h.returnTy
  rw [MethodSymbols.signature, MethodSymbols.signature, hparams, hreturn, List.map_map]
  rfl

end MethodDecl.Variant

/-- The second class is the first with local variants of its methods. -/
structure ClassDecl.LocalVariant (V : Variation → Prop) (d d' : ClassDecl) : Prop where
  name : d'.name = d.name
  superName : d'.superName = d.superName
  fields : d'.fields = d.fields
  methods : List.Forall₂ (fun md md' => ∃ v, V v ∧ md.LocalVariant v md') d.methods d'.methods

theorem find?_signature {ms ms' : List MethodSymbols}
    (h : List.Forall₂ (fun m m' => m'.name = m.name ∧ m'.signature = m.signature) ms ms')
    (name : String) : (ms'.find? (·.name == name)).map MethodSymbols.signature =
      (ms.find? (·.name == name)).map MethodSymbols.signature := by
  induction h with
  | nil => rfl
  | cons hm _ ih =>
    rw [List.find?_cons, List.find?_cons, hm.1]
    split
    · rw [Option.map_some, Option.map_some, hm.2]
    · exact ih

namespace ClassDecl.LocalVariant

variable {d d' : ClassDecl}

theorem signatures (h : d.LocalVariant V d') (m : String) :
    (d'.symbols.method? m).map MethodSymbols.signature =
      (d.symbols.method? m).map MethodSymbols.signature := by
  refine find?_signature ?_ m
  show List.Forall₂ _ (d.methods.map MethodDecl.symbols) (d'.methods.map MethodDecl.symbols)
  rw [List.forall₂_map_left_iff, List.forall₂_map_right_iff]
  refine h.methods.imp fun md md' hmd => ?_
  obtain ⟨v, -, hvariant, -⟩ := hmd
  exact ⟨hvariant.name, hvariant.signature⟩

theorem methodNames (h : d.LocalVariant V d') :
    (d'.methods.map fun md => md.name.node) = d.methods.map fun md => md.name.node := by
  refine map_eq_of_forall₂ (h.methods.imp fun md md' hmd => ?_)
  obtain ⟨v, -, hvariant, -⟩ := hmd
  exact hvariant.name

end ClassDecl.LocalVariant

/-- What a method of the class means in the table of either program is the same, apart from
names. -/
theorem MethodDecl.LocalVariant.scopes {p p' : Program} (himports : p'.imports = p.imports)
    {d d' : ClassDecl} (hd : d.LocalVariant V d') {md md' : MethodDecl}
    (h : md.LocalVariant v md') :
    v.Scopes (md.scope (.ofProgram p) d.symbols md.symbols)
      (md'.scope (.ofProgram p') d'.symbols md'.symbols) where
  imports := congrArg (List.map Located.node) himports
  className := congrArg Located.node hd.name
  superName := congrArg (Option.map Located.node) hd.superName
  fields := congrArg (List.map VarDecl.symbol) hd.fields
  signatures := hd.signatures
  isStatic := h.variant.isStatic
  returnTy := h.variant.returnTy
  params := h.variant.params
  locals := h.variant.locals_symbols
  fixed := h.fixed

/-- A program with local variants of its methods, each program with the table that is read off
it. -/
theorem Program.variantIn_ofProgram {p p' : Program} (himports : p'.imports = p.imports)
    (h : List.Forall₂ (ClassDecl.LocalVariant V) p.classes p'.classes)
    (hclasses : (p.classes.map fun d => d.name.node).Nodup)
    (hmethods : ∀ d ∈ p.classes, (d.methods.map fun md => md.name.node).Nodup) :
    p.VariantIn V (.ofProgram p) (.ofProgram p') p' := by
  have hnames : (p'.classes.map fun d => d.name.node) = p.classes.map fun d => d.name.node :=
    map_eq_of_forall₂ (h.imp fun d d' hd => congrArg Located.node hd.name)
  have hclasses' : (p'.classes.map fun d => d.name.node).Nodup := hnames ▸ hclasses
  refine ⟨congrArg (List.map Located.node) himports, forall₂_imp_mem h fun d hd d' hd' hdd' => ?_⟩
  -- Names are unique, so a class finds its own symbols in the table, and so does a method.
  have hcls : (SymbolTable.ofProgram p).class? d.name.node = some d.symbols :=
    SymbolTable.class?_ofProgram hclasses hd
  have hcls' : (SymbolTable.ofProgram p').class? d'.name.node = some d'.symbols :=
    SymbolTable.class?_ofProgram hclasses' hd'
  have hunique : (d'.methods.map fun md => md.name.node).Nodup := hdd'.methodNames ▸ hmethods d hd
  refine ⟨congrArg Located.node hdd'.name, congrArg (Option.map Located.node) hdd'.superName,
    congrArg (List.map VarDecl.symbol) hdd'.fields, ?_, ?_⟩
  · rw [hcls, hcls']
    exact .some (congrArg Located.node hdd'.name)
  · refine forall₂_imp_mem hdd'.methods fun md hmd md' hmd' hmethod => ?_
    obtain ⟨v, hv, hlocal⟩ := hmethod
    refine ⟨v, hv, hlocal.variant, fun cls cls' hfound hfound' => ?_⟩
    rw [hcls, Option.some.injEq] at hfound
    rw [hcls', Option.some.injEq] at hfound'
    rw [← hfound, ← hfound', MethodDecl.FoundAlike,
      ClassDecl.method?_symbols_of_mem (hmethods d hd) hmd,
      ClassDecl.method?_symbols_of_mem hunique hmd']
    exact .some (hlocal.scopes himports hdd')

end

/-! ## Ids of renamed trees -/

section

variable (f : String → String)

theorem Expr.children_mapVars (e : Expr) : (e.mapVars f).children = e.children.map (mapVars f) := by
  cases e with
  | call n r m args => rw [mapVars, children, children, mapVarsAll_eq_map, List.map_cons]
  | _ => rfl

theorem Expr.id_mapVars (e : Expr) : (e.mapVars f).id = e.id := by
  cases e <;> rfl

theorem Expr.ids_subtree_mapVars (e : Expr) : (e.mapVars f).subtree.map id = e.subtree.map id := by
  induction e using Expr.induction_children with
  | step e ih =>
    rw [subtree_eq_cons, subtree_eq_cons e, children_mapVars, List.map_cons,
      List.map_cons, id_mapVars, List.map_flatMap, List.map_flatMap, List.flatMap_map]
    exact congrArg (e.id :: ·) (List.flatMap_congr fun d hd => ih d hd)

theorem Expr.ids_map_mapVars (es : List Expr) : ids (es.map (mapVars f)) = ids es := by
  rw [ids, ids, List.map_flatMap, List.map_flatMap, List.flatMap_map]
  exact List.flatMap_congr fun e _ => e.ids_subtree_mapVars f

theorem Stmt.roots_mapVars (s : Stmt) : (s.mapVars f).roots = s.roots.map (Expr.mapVars f) := by
  induction s using Stmt.induction with
  | block sp body ih =>
    rw [mapVars, roots, roots, mapVarsAll_eq_map, rootsAll_eq_flatMap, rootsAll_eq_flatMap,
      List.map_flatMap, List.flatMap_map]
    exact List.flatMap_congr ih
  | ifThen sp c t ih => rw [mapVars, roots, roots, ih, List.map_cons]
  | ifElse sp c t e iht ihe => rw [mapVars, roots, roots, iht, ihe, List.map_cons, List.map_append]
  | whileLoop sp c b ih => rw [mapVars, roots, roots, ih, List.map_cons]
  | ret sp e => cases e <;> rfl
  | _ => rfl

theorem MethodDecl.ids_mapVars (d : MethodDecl) : (d.mapVars f).ids = d.ids := by
  have hroots : (d.mapVars f).body.flatMap Stmt.roots =
      (d.body.flatMap Stmt.roots).map (Expr.mapVars f) := by
    show (Stmt.mapVarsAll f d.body).flatMap Stmt.roots = _
    rw [Stmt.mapVarsAll_eq_map, List.flatMap_map, List.map_flatMap]
    exact List.flatMap_congr fun s _ => s.roots_mapVars f
  rw [ids, ids, hroots, Expr.ids_map_mapVars]

end

/-! ## Renaming a local -/

/-- A name that the compiler uses itself: `this`, or that of a temporary. -/
def Lower.Reserved (x : String) : Prop := x = "this" ∨ ∃ k, x = tempName k

/-- Exchanges two names. -/
def Renaming.swap (x y : String) (hx : ¬Lower.Reserved x) (hy : ¬Lower.Reserved y) : Renaming where
  name := Equiv.swap x y
  injective := (Equiv.swap x y).injective
  this := Equiv.swap_apply_of_ne_of_ne (fun h => hx (.inl h.symm)) fun h => hy (.inl h.symm)
  temp k := Equiv.swap_apply_of_ne_of_ne (fun h => hx (.inr ⟨k, h.symm⟩))
    fun h => hy (.inr ⟨k, h.symm⟩)

/-- Exchanges two names in trees that do not have the second. -/
def Variation.exchange (x y : String) (hx : ¬Lower.Reserved x) (hy : ¬Lower.Reserved y) :
    Variation where
  rename := .swap x y hx hy
  admits z := z ≠ y
  spans s s' := s' = s

/-- `y` in the place of `x`. -/
def replaceName (x y z : String) : String := if z = x then y else z

def MethodDecl.renameLocal (x y : String) (d : MethodDecl) : MethodDecl :=
  d.mapVars (replaceName x y)

/-- The class with a local of one of its methods renamed. -/
def ClassDecl.renameLocal (method x y : String) (d : ClassDecl) : ClassDecl :=
  { d with
    methods := d.methods.map fun md => if md.name.node = method then md.renameLocal x y else md }

/-- The program with a local or parameter of one method renamed: where it is declared, where it is
used and where it is assigned to. -/
def Program.renameLocal (cls method x y : String) (p : Program) : Program :=
  { p with
    classes := p.classes.map fun d => if d.name.node = cls then d.renameLocal method x y else d }

section

variable {x y : String} (hx : ¬Lower.Reserved x) (hy : ¬Lower.Reserved y)

theorem Variation.matches_exchange {names : List String} (hfresh : y ∉ names) :
    (exchange x y hx hy).Matches (replaceName x y) names where
  spans _ := rfl
  admits z hz heq := hfresh (heq ▸ hz)
  name z hz := by
    have hzy : z ≠ y := fun heq => hfresh (heq ▸ hz)
    show (if z = x then y else z) = Equiv.swap x y z
    rw [Equiv.swap_apply_def, if_neg hzy]

theorem MethodDecl.localVariant_renameLocal {d : MethodDecl} (hdeclared : x ∈ d.declaredNames)
    (hfresh : y ∉ d.vars) : d.LocalVariant (.exchange x y hx hy) (d.renameLocal x y) where
  variant := variant_mapVars (Variation.matches_exchange hx hy hfresh)
  fixed _ hzy hz := Equiv.swap_apply_of_ne_of_ne (fun heq => hz (heq ▸ hdeclared)) hzy

/-- The ways in which methods of the program are varied: one by an exchange of names, the others not
at all. -/
def Variation.Exchanging (x y : String) (hx : ¬Lower.Reserved x) (hy : ¬Lower.Reserved y)
    (v : Variation) : Prop :=
  v = .placed (fun s => s) ∨ v = .exchange x y hx hy

theorem MethodDecl.localVariant_self (d : MethodDecl) : d.LocalVariant (.placed fun s => s) d :=
  ⟨variant_of_outline rfl, fun _ _ _ => rfl⟩

theorem ClassDecl.localVariant_self (d : ClassDecl) :
    d.LocalVariant (Variation.Exchanging x y hx hy) d := by
  refine ⟨rfl, rfl, rfl, ?_⟩
  rw [List.forall₂_same]
  exact fun md _ => ⟨_, .inl rfl, md.localVariant_self⟩

theorem ClassDecl.localVariant_renameLocal {d : ClassDecl} {md : MethodDecl}
    (hmethods : (d.methods.map fun md => md.name.node).Nodup) (hmd : md ∈ d.methods)
    (hdeclared : x ∈ md.declaredNames) (hfresh : y ∉ md.vars) :
    d.LocalVariant (Variation.Exchanging x y hx hy) (d.renameLocal md.name.node x y) := by
  refine ⟨rfl, rfl, rfl, ?_⟩
  rw [renameLocal, List.forall₂_map_right_iff, List.forall₂_same]
  intro md' hmd'
  by_cases hname : md'.name.node = md.name.node
  · obtain rfl : md' = md := List.inj_on_of_nodup_map hmethods hmd' hmd hname
    rw [if_pos rfl]
    exact ⟨_, .inr rfl, MethodDecl.localVariant_renameLocal hx hy hdeclared hfresh⟩
  · rw [if_neg hname]
    exact ⟨_, .inl rfl, md'.localVariant_self⟩

theorem Program.localVariants_renameLocal {p : Program} {d : ClassDecl} {md : MethodDecl}
    (hclasses : (p.classes.map fun d => d.name.node).Nodup)
    (hmethods : ∀ d ∈ p.classes, (d.methods.map fun md => md.name.node).Nodup)
    (hd : d ∈ p.classes) (hmd : md ∈ d.methods) (hdeclared : x ∈ md.declaredNames)
    (hfresh : y ∉ md.vars) :
    List.Forall₂ (ClassDecl.LocalVariant (Variation.Exchanging x y hx hy)) p.classes
      (p.renameLocal d.name.node md.name.node x y).classes := by
  rw [renameLocal, List.forall₂_map_right_iff, List.forall₂_same]
  intro d' hd'
  by_cases hname : d'.name.node = d.name.node
  · obtain rfl : d' = d := List.inj_on_of_nodup_map hclasses hd' hd hname
    rw [if_pos rfl]
    exact ClassDecl.localVariant_renameLocal hx hy (hmethods d' hd) hmd hdeclared hfresh
  · rw [if_neg hname]
    exact d'.localVariant_self hx hy

end

theorem Program.uniqueIds_renameLocal {p : Program} (hids : p.uniqueIds = true)
    (cls method x y : String) : (p.renameLocal cls method x y).uniqueIds = true := by
  have hclass : ∀ d : ClassDecl, (d.renameLocal method x y).methods.flatMap MethodDecl.ids =
      d.methods.flatMap MethodDecl.ids := by
    intro d
    rw [ClassDecl.renameLocal, List.flatMap_map]
    refine List.flatMap_congr fun md _ => ?_
    split
    · exact md.ids_mapVars _
    · rfl
  rw [uniqueIds_iff_nodup, ids_eq_flatMap] at hids ⊢
  rw [renameLocal, List.flatMap_map]
  have hall : (p.classes.flatMap fun d =>
      (if d.name.node = cls then d.renameLocal method x y else d).methods.flatMap MethodDecl.ids) =
        p.classes.flatMap fun d => d.methods.flatMap MethodDecl.ids := by
    refine List.flatMap_congr fun d _ => ?_
    split
    · exact hclass d
    · rfl
  rw [hall]
  exact hids

/-- **The names of locals do not matter.** Let class names be distinct, and method names in each
class. In a program that is accepted with its own table, let `x` be a local or parameter of a method
and `y` a name that is not declared, used or assigned to in it, both not reserved. Then the program
with `x` renamed to `y` in that method is accepted too, and both have the same assembly, class by
class, or both cannot be lowered, with the same kind of fault. -/
theorem renamed_local_same_assembly {p : Program} {d : ClassDecl} {md : MethodDecl} {x y : String}
    (hclasses : (p.classes.map fun d => d.name.node).Nodup)
    (hmethods : ∀ d ∈ p.classes, (d.methods.map fun md => md.name.node).Nodup)
    (hd : d ∈ p.classes) (hmd : md ∈ d.methods) (hdeclared : x ∈ md.declaredNames)
    (hfresh : y ∉ md.vars) (hx : ¬Lower.Reserved x) (hy : ¬Lower.Reserved y) {a : Annotation}
    (hchecked : p.checked (.ofProgram p) = .ok a) (options : Options) :
    (∃ a', (p.renameLocal d.name.node md.name.node x y).checked
      (.ofProgram (p.renameLocal d.name.node md.name.node x y)) = .ok a') ∧
    ResultsAlike
      (fun e e' => ∃ fault fault', e = .lower fault ∧ e' = .lower fault' ∧
        fault'.ctorIdx = fault.ctorIdx)
      (fun o o' => o'.classes.map CompiledClass.listing = o.classes.map CompiledClass.listing)
      (p.compiled (.ofProgram p) options)
      ((p.renameLocal d.name.node md.name.node x y).compiled
        (.ofProgram (p.renameLocal d.name.node md.name.node x y)) options) := by
  -- The new name does not occur in the method, so replacing the old one is exchanging the two.
  have hvariant : p.VariantIn (Variation.Exchanging x y hx hy) (.ofProgram p)
      (.ofProgram (p.renameLocal d.name.node md.name.node x y))
      (p.renameLocal d.name.node md.name.node x y) :=
    Program.variantIn_ofProgram rfl
      (Program.localVariants_renameLocal hx hy hclasses hmethods hd hmd hdeclared hfresh) hclasses
      hmethods
  have hids := Program.uniqueIds_renameLocal (Program.checked_ok_iff.1 hchecked).1
    d.name.node md.name.node x y
  exact hvariant.compiled (.inl rfl) hids hchecked options

theorem Lower.not_reserved {x : String} (hthis : x ≠ "this") (htemp : x.toList[1]? ≠ some 'm') :
    ¬Reserved x := by
  rintro (hx | ⟨k, hx⟩)
  · exact hthis hx
  · exact ne_tempName htemp k hx

namespace Jar

/-- `int fill(int a) { int b; b = a + io.read(); return b; }`. -/
def fill : MethodDecl where
  name := { node := "fill" }
  returnTy := { node := .int }
  params := [{ name := { node := "a" }, ty := { node := .int } }]
  body := [
    .varDecl .unknown { name := { node := "b" }, ty := { node := .int } },
    .assign .unknown { node := "b" } (.binary { id := 0 } .add (.var { id := 1 } "a")
      (.call { id := 2 } (.var { id := 3 } "io") { node := "read" } [])),
    .ret .unknown (some (.var { id := 4 } "b"))]

/-- `int level() { return c; }`. -/
def level : MethodDecl where
  name := { node := "level" }
  returnTy := { node := .int }
  body := [.ret .unknown (some (.var { id := 5 } "c"))]

def decl : ClassDecl where
  name := { node := "Jar" }
  fields := [{ name := { node := "c" }, ty := { node := .int } }]
  methods := [fill, level]

def program : Program where
  imports := [{ node := "io" }]
  classes := [decl]

/-- The local gets the name of the field, which the other method reads. -/
def renamed : Program := program.renameLocal "Jar" "fill" "b" "c"

theorem fill_same_assembly : "b" ∈ fill.declaredNames ∧ "c" ∉ fill.vars ∧
    (∃ a, program.checked (.ofProgram program) = .ok a) ∧
    (∃ a, renamed.checked (.ofProgram renamed) = .ok a) ∧
    ResultsAlike
      (fun e e' => ∃ fault fault', e = .lower fault ∧ e' = .lower fault' ∧
        fault'.ctorIdx = fault.ctorIdx)
      (fun o o' => o'.classes.map CompiledClass.listing = o.classes.map CompiledClass.listing)
      (program.compiled (.ofProgram program) {}) (renamed.compiled (.ofProgram renamed) {}) := by
  have hdeclared : "b" ∈ fill.declaredNames := by decide
  have hfresh : "c" ∉ fill.vars := by decide
  have hmethods : ∀ d ∈ program.classes, (d.methods.map fun md => md.name.node).Nodup :=
    List.forall_mem_singleton.2 (by decide)
  have hchecked : program.checked (.ofProgram program) =
      .ok (program.annotate (.ofProgram program)) :=
    Program.checked_ok_iff.2 ⟨Program.uniqueIds_iff_nodup.2 (by decide), rfl⟩
  have hall :=
    renamed_local_same_assembly (by decide) hmethods (List.mem_singleton_self decl) (.head _)
    hdeclared hfresh (Lower.not_reserved (by decide) (by decide))
    (Lower.not_reserved (by decide) (by decide)) hchecked {}
  exact ⟨hdeclared, hfresh, ⟨_, hchecked⟩, hall.1, hall.2⟩

end Jar

end MiniJava
