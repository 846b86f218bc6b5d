import MiniJava.Annotation.Imports
import MiniJava.Proofs.Annotation.Places
import MiniJava.Proofs.Symbols

/-!
# Annotation without an import

A name that does not occur in a method and in none of the types that the method can see never
reaches the list of imports: neither as the name of a variable or class, nor in a type that is
compared with another (`Expr.lacks_value`). So the annotator says the same of a method whether or
not an import of that name is there (`Stmt.annotateAll_withTable`), and the types that it gives do
not have the name either (`Stmt.lacks_placesAll`).
-/

namespace MiniJava

/-! ## Types and scopes that lack a name -/

/-- The name does not occur in the type. -/
def Ty.Lacks (s : String) (ty : Ty) : Prop := s ∉ ty.names

namespace Ty

variable {s : String}

@[simp] theorem lacks_int : int.Lacks s := List.not_mem_nil

@[simp] theorem lacks_bool : bool.Lacks s := List.not_mem_nil

@[simp] theorem lacks_void : void.Lacks s := List.not_mem_nil

@[simp] theorem lacks_cls {c : String} : (cls c).Lacks s ↔ c ≠ s := by
  rw [Lacks, names, List.mem_singleton, ne_comm]

@[simp] theorem lacks_array {e : Ty} : (array e).Lacks s ↔ e.Lacks s := Iff.rfl

end Ty

/-- The types that a method can see do not have the name, and the class is not called by it. -/
structure Scope.Lacks (s : String) (sc : Scope) : Prop where
  cls : sc.cls.name ≠ s
  bindings : ∀ x b, sc.resolve x = some b → b.ty.Lacks s
  methods : ∀ m sig, sc.cls.method? m = some sig →
    sig.returnTy.Lacks s ∧ ∀ q ∈ sig.params, q.ty.Lacks s
  returnTy : sc.method.returnTy.Lacks s

/-- The same scope with another table. -/
def Scope.withTable (sc : Scope) (table : SymbolTable) : Scope := { sc with table }

/-- The tables have the same classes, and the same imports apart from those called `s`. -/
structure SymbolTable.SameApart (s : String) (t t' : SymbolTable) : Prop where
  classes : t'.classes = t.classes
  isImported : ∀ c, c ≠ s → t'.isImported c = t.isImported c

namespace Scope

variable {s : String} {sc : Scope} {table : SymbolTable}

@[simp] theorem cls_withTable : (sc.withTable table).cls = sc.cls := rfl

@[simp] theorem method_withTable : (sc.withTable table).method = sc.method := rfl

@[simp] theorem isStatic_withTable : (sc.withTable table).isStatic = sc.isStatic := rfl

@[simp] theorem resolve_withTable (x : String) :
    (sc.withTable table).resolve x = sc.resolve x := rfl

theorem isClassName_withTable (h : sc.table.SameApart s table) {c : String} (hc : c ≠ s) :
    (sc.withTable table).isClassName c = sc.isClassName c := by
  show table.isClassName sc.cls c = sc.table.isClassName sc.cls c
  rw [SymbolTable.isClassName, SymbolTable.isClassName, h.isImported c hc]

theorem assignable_withTable (h : sc.table.SameApart s table) {source target : Ty}
    (hsource : source.Lacks s) (htarget : target.Lacks s) :
    (sc.withTable table).assignable source target = sc.assignable source target := by
  unfold assignable
  congr 1
  split
  · rw [Ty.lacks_cls] at hsource htarget
    show (_ || (table.isImported _ && table.isImported _)) = _
    rw [h.isImported _ hsource, h.isImported _ htarget]
    rfl
  · rfl

end Scope

/-- What follows matters for the value only. -/
theorem Noted.bind_congr {α β : Type} {x : Noted α} {f g : α → Noted β}
    (h : f x.value = g x.value) :
    x >>= f = x >>= g := by
  show Noted.mk _ _ = Noted.mk _ _
  rw [h]

/-! ## Expressions -/

namespace Expr

variable {s : String} {sc : Scope} {table : SymbolTable}

theorem names_eq (e : Expr) : e.names = e.ownName ++ e.children.flatMap names := by
  rw [names, subtree_eq_cons, List.flatMap_cons, List.flatMap_assoc]
  rfl

theorem not_mem_names_child {e d : Expr} (h : s ∉ e.names) (hd : d ∈ e.children) : s ∉ d.names := by
  intro hs
  rw [names_eq] at h
  exact h (List.mem_append_right _ (List.mem_flatMap.2 ⟨d, hd, hs⟩))

theorem not_mem_ownName {e : Expr} (h : s ∉ e.names) : s ∉ e.ownName := by
  rw [names_eq] at h
  exact fun hs => h (List.mem_append_left _ hs)

/-- The type of a call is the declared return type. -/
theorem lacks_callTy (hsc : sc.Lacks s) {span : Span} {r : Expr} {m : String} {args : Args}
    {found : Option Ty} {ty : Ty} (h : (callTy sc span r m args found).value = some ty) :
    ty.Lacks s := by
  cases found with
  | none => cases h
  | some t =>
    cases t with
    | cls name =>
      by_cases hname : name = sc.cls.name
      · cases hsig : sc.cls.method? m with
        | none => simp [callTy, hname, hsig] at h
        | some sig =>
          have hvalue : (callTy sc span r m args (some sc.thisTy)).value = some sig.returnTy :=
            value_callTy_own hsig
          rw [Scope.thisTy, ← hname, h, Option.some.injEq] at hvalue
          rw [hvalue]
          exact (hsc.methods m sig hsig).1
      · simp [callTy, hname] at h
    | int | bool | str | void | array => cases h

/-- The type that is found for an expression lacks the name. -/
theorem lacks_value (hsc : sc.Lacks s) {e : Expr} (he : s ∉ e.names) {ty : Ty}
    (h : (e.annotate sc).value = some ty) : ty.Lacks s := by
  -- A type comes from a declaration, from the expression itself, or is one of the basic ones. The
  -- first two lack the name by assumption.
  induction e using Expr.induction generalizing ty with
  | int n v =>
    cases h
    exact Ty.lacks_int
  | bool n v =>
    cases h
    exact Ty.lacks_bool
  | var n x =>
    rw [annotate, Noted.value_bind, value_settle] at h
    cases hx : sc.resolve x with
    | none => simp [varTy, hx] at h
    | some b =>
      simp only [varTy, hx, Noted.value_bind, Noted.value_pure, Option.some.injEq] at h
      rw [← h]
      exact hsc.bindings x b hx
  | this n =>
    cases h
    exact Ty.lacks_cls.2 hsc.cls
  | not n e ih =>
    rw [annotate, Noted.value_bind, Noted.value_bind, value_settle] at h
    unfold notTy at h
    split at h <;> cases h <;> exact Ty.lacks_bool
  | binary n op l r ihl ihr =>
    simp only [annotate, Noted.value_bind, value_settle, binaryTy] at h
    split at h <;> cases h
    cases op <;> simp [BinOp.resultTy]
  | call n r m args ihr ihargs =>
    rw [annotate, Noted.value_bind, Noted.value_bind, value_settle] at h
    exact lacks_callTy hsc h
  | newObject n c =>
    cases h
    exact Ty.lacks_cls.2 fun hc => not_mem_ownName he (List.mem_singleton.2 hc.symm)
  | newArray n e ih =>
    cases h
    exact Ty.lacks_int
  | length n a ih =>
    rw [annotate, Noted.value_bind, Noted.value_bind, value_settle, value_lengthTy] at h
    cases h
    exact Ty.lacks_int
  | index n a i iha ihi =>
    simp only [annotate, Noted.value_bind, value_settle] at h
    unfold indexTy at h
    split at h
    · next element hvalue =>
      cases h
      exact Ty.lacks_array.1 (iha (not_mem_names_child he (.head _)) hvalue)
    · cases h
    · cases h
  | paren n e ih =>
    rw [annotate, Noted.value_bind, value_settle] at h
    exact ih (not_mem_names_child he (.head _)) h

/-- What is found for an argument lacks the name. -/
def ArgsLack (s : String) (args : Args) : Prop :=
  ∀ a ∈ args, ∀ ty, a.2.value = some ty → ty.Lacks s

theorem knownArgs_withTable (ht : sc.table.SameApart s table) {method : String}
    {k : Nat} {args : Args} (hargs : ArgsLack s args) {ps : List Symbol}
    (hps : ∀ q ∈ ps, q.ty.Lacks s) :
    knownArgs (sc.withTable table) method k args ps = knownArgs sc method k args ps := by
  induction args generalizing k ps with
  | nil => rfl
  | cons a args ih =>
    cases ps with
    | nil => rfl
    | cons q ps =>
      rw [ArgsLack, List.forall_mem_cons] at hargs
      rw [List.forall_mem_cons] at hps
      unfold knownArgs
      apply Noted.bind_congr
      rw [value_expect, ih hargs.2 hps.2]
      cases hvalue : a.2.value with
      | none => rfl
      | some actual =>
        dsimp only
        rw [Scope.assignable_withTable ht (hargs.1 actual hvalue) hps.1]

theorem callTy_withTable (hsc : sc.Lacks s) (ht : sc.table.SameApart s table)
    {span : Span} {r : Expr} {method : String} {args : Args} (hargs : ArgsLack s args)
    (found : Option Ty) :
    callTy (sc.withTable table) span r method args found = callTy sc span r method args found := by
  unfold callTy
  rw [Scope.cls_withTable]
  cases hsig : sc.cls.method? method with
  | none => rfl
  | some sig =>
    have hknown : knownArgs (sc.withTable table) method 1 args sig.params =
        knownArgs sc method 1 args sig.params :=
      knownArgs_withTable ht hargs (hsc.methods method sig hsig).2
    dsimp only
    rw [hknown]

theorem varTy_withTable (ht : sc.table.SameApart s table) {x : String} (hx : x ≠ s) (span : Span) :
    varTy (sc.withTable table) x span = varTy sc x span := by
  unfold varTy
  rw [Scope.resolve_withTable, Scope.isClassName_withTable ht hx, Scope.isStatic_withTable]

/-- The annotator says the same of an expression without an import that it does not mention. -/
theorem annotate_withTable (hsc : sc.Lacks s) (ht : sc.table.SameApart s table) {e : Expr}
    (he : s ∉ e.names) : e.annotate (sc.withTable table) = e.annotate sc := by
  induction e using Expr.induction with
  | int | bool | this => rfl
  | var n x =>
    have hx : x ≠ s := fun heq => not_mem_ownName he (List.mem_singleton.2 heq.symm)
    rw [annotate, annotate, varTy_withTable ht hx]
  | newObject n c =>
    have hc : c.node ≠ s := fun heq => not_mem_ownName he (List.mem_singleton.2 heq.symm)
    rw [annotate, annotate, Scope.isClassName_withTable ht hc]
  | not n e ih | newArray n e ih | length n e ih | paren n e ih =>
    rw [annotate, annotate, ih (not_mem_names_child he (.head _))]
  | binary n op l r ihl ihr | index n l r ihl ihr =>
    rw [annotate, annotate, ihl (not_mem_names_child he (.head _)),
      ihr (not_mem_names_child he (.tail _ (.head _)))]
  | call n r m args ihr ihargs =>
    have hnames : ∀ a ∈ args, s ∉ a.names := fun a ha => not_mem_names_child he (.tail _ ha)
    have heach : annotateEach (sc.withTable table) args = annotateEach sc args := by
      rw [annotateEach_eq_map, annotateEach_eq_map]
      exact List.map_congr_left fun a ha => by rw [ihargs a ha (hnames a ha)]
    -- The types of the arguments are compared with those of the parameters, for which the table may
    -- be asked; they lack the name, so it answers the same.
    have hlack : ArgsLack s (annotateEach sc args) := by
      rw [annotateEach_eq_map, ArgsLack, List.forall_mem_map]
      exact fun a ha ty hty => lacks_value hsc (hnames a ha) hty
    rw [annotate, annotate, ihr (not_mem_names_child he (.head _)), heach]
    apply Noted.bind_congr
    rw [callTy_withTable hsc ht hlack]

/-! What is expected of an expression and its parts lacks the name too. -/

/-- No type or one that lacks the name. -/
def WantsLack (s : String) (w : Option Ty) : Prop := ∀ ty, w = some ty → ty.Lacks s

theorem wantsLack_some {ty : Ty} (h : ty.Lacks s) : WantsLack s (some ty) := by
  intro t ht
  cases ht
  exact h

theorem wantsLack_none : WantsLack s none := by
  intro t ht
  cases ht

theorem wantsLack_expectedArgs (hsc : sc.Lacks s) (m : String) (arity : Nat) (found : Option Ty) :
    ∀ w ∈ expectedArgs sc m arity found, WantsLack s w := by
  have hint : ∀ w ∈ List.replicate arity (some Ty.int), WantsLack s w := by
    intro w hw
    rw [List.eq_of_mem_replicate hw]
    exact wantsLack_some Ty.lacks_int
  unfold expectedArgs
  split
  · split
    · split
      · next sig hsig =>
        split
        · rw [List.forall_mem_map]
          exact fun q hq => wantsLack_some ((hsc.methods m sig hsig).2 q hq)
        · exact List.forall_mem_nil _
      · exact hint
    · exact hint
  · exact List.forall_mem_nil _
  · exact hint

theorem lacks_place (hsc : sc.Lacks s) {e : Expr} (he : s ∉ e.names) {w : Option Ty}
    (hw : WantsLack s w) {i : Nat} {ty : Ty} (h : (i, some ty) = place sc e w) : ty.Lacks s := by
  rw [place, Prod.mk.injEq] at h
  cases hvalue : (e.annotate sc).value with
  | some t =>
    rw [hvalue] at h
    cases h.2
    exact lacks_value hsc he hvalue
  | none =>
    rw [hvalue] at h
    exact hw ty h.2.symm

theorem lacks_placesAll {es : List Expr} {i : Nat} {ty : Ty}
    (h : ∀ e ∈ es, ∀ w, WantsLack s w → (i, some ty) ∈ e.places sc w → ty.Lacks s)
    {ws : List (Option Ty)} (hws : ∀ w ∈ ws, WantsLack s w)
    (hmem : (i, some ty) ∈ placesAll sc es ws) : ty.Lacks s := by
  induction es generalizing ws with
  | nil => cases hmem
  | cons e es ih =>
    rw [List.forall_mem_cons] at h
    rw [placesAll, List.mem_append] at hmem
    cases ws with
    | nil =>
      rcases hmem with hmem | hmem
      · exact h.1 _ wantsLack_none hmem
      · exact ih h.2 (List.forall_mem_nil _) hmem
    | cons w ws =>
      rw [List.forall_mem_cons] at hws
      rcases hmem with hmem | hmem
      · exact h.1 w hws.1 hmem
      · exact ih h.2 hws.2 hmem

/-- The types that an expression and its parts get lack the name. -/
theorem lacks_places (hsc : sc.Lacks s) {e : Expr} (he : s ∉ e.names) {w : Option Ty}
    (hw : WantsLack s w) {i : Nat} {ty : Ty} (h : (i, some ty) ∈ e.places sc w) : ty.Lacks s := by
  induction e using Expr.induction generalizing w with
  | int | bool | var | this | newObject => exact lacks_place hsc he hw (List.mem_singleton.1 h)
  | not n e ih =>
    rcases List.mem_cons.1 h with h | h
    · exact lacks_place hsc he hw h
    · exact ih (not_mem_names_child he (.head _)) (wantsLack_some Ty.lacks_bool) h
  | newArray n e ih =>
    rcases List.mem_cons.1 h with h | h
    · exact lacks_place hsc he hw h
    · exact ih (not_mem_names_child he (.head _)) (wantsLack_some Ty.lacks_int) h
  | length n e ih =>
    rcases List.mem_cons.1 h with h | h
    · exact lacks_place hsc he hw h
    · exact ih (not_mem_names_child he (.head _)) wantsLack_none h
  | paren n e ih =>
    rcases List.mem_cons.1 h with h | h
    · exact lacks_place hsc he hw h
    · exact ih (not_mem_names_child he (.head _)) hw h
  | binary n op l r ihl ihr =>
    have hop : WantsLack s (some op.operandTy) :=
      wantsLack_some (by cases op <;> simp [BinOp.operandTy])
    rcases List.mem_cons.1 h with h | h
    · exact lacks_place hsc he hw h
    · rcases List.mem_append.1 h with h | h
      · exact ihl (not_mem_names_child he (.head _)) hop h
      · exact ihr (not_mem_names_child he (.tail _ (.head _))) hop h
  | index n a j iha ihj =>
    rcases List.mem_cons.1 h with h | h
    · exact lacks_place hsc he hw h
    · rcases List.mem_append.1 h with h | h
      · exact iha (not_mem_names_child he (.head _)) wantsLack_none h
      · exact ihj (not_mem_names_child he (.tail _ (.head _))) (wantsLack_some Ty.lacks_int) h
  | call n r m args ihr ihargs =>
    rcases List.mem_cons.1 h with h | h
    · exact lacks_place hsc he hw h
    · rcases List.mem_append.1 h with h | h
      · exact ihr (not_mem_names_child he (.head _)) wantsLack_none h
      -- Arguments take their types from the parameters of the method, if it is one of this class.
      · refine lacks_placesAll ?_ (wantsLack_expectedArgs hsc m.node args.length _) h
        exact fun a ha w hw hmem => ihargs a ha (not_mem_names_child he (.tail _ ha)) hw hmem

end Expr

/-! ## Statements -/

namespace Stmt

open MiniJava.Expr (WantsLack wantsLack_some wantsLack_none)

variable {s : String} {sc : Scope} {table : SymbolTable}

theorem fit_withTable (hsc : sc.Lacks s) (ht : sc.table.SameApart s table) {v : Expr}
    (hv : s ∉ v.names) (expected : Ty) {fits fits' : Ty → Bool}
    (hfits : ∀ ty, ty.Lacks s → fits' ty = fits ty) (problem : Ty → Problem) (span : Span) :
    fit (sc.withTable table) v expected fits' problem span =
      fit sc v expected fits problem span := by
  unfold fit
  rw [Expr.annotate_withTable hsc ht hv]
  apply Noted.bind_congr
  rw [Expr.value_expect]
  cases hvalue : (v.annotate sc).value with
  | none => rfl
  | some ty =>
    dsimp only
    rw [hfits ty (Expr.lacks_value hsc hv hvalue)]

theorem lacks_target (hsc : sc.Lacks s) (x : Located String) : WantsLack s (targetTy sc x) := by
  intro ty hty
  obtain ⟨b, hb, rfl⟩ := Option.map_eq_some_iff.1 hty
  exact hsc.bindings x.node b hb

theorem lacks_itemTy (hsc : sc.Lacks s) (x : Located String) : WantsLack s (itemTy? sc x) := by
  intro ty hty
  unfold itemTy? at hty
  split at hty
  · next element htarget =>
    cases hty
    exact Ty.lacks_array.1 (lacks_target hsc x _ htarget)
  · cases hty

theorem assignment_withTable (hsc : sc.Lacks s) (ht : sc.table.SameApart s table) (span : Span)
    (x : Located String) {v : Expr} (hv : s ∉ v.names) :
    assignment (sc.withTable table) span x v = assignment sc span x v := by
  show (target sc x >>= _) = target sc x >>= _
  apply Noted.bind_congr
  rw [value_target]
  cases htarget : targetTy sc x with
  | none =>
    dsimp only
    rw [Expr.annotate_withTable hsc ht hv]
  | some ty =>
    have hty : ty.Lacks s := lacks_target hsc x ty htarget
    exact fit_withTable hsc ht hv ty (fun t htl => Scope.assignable_withTable ht htl hty) _ _

theorem elementAssignment_withTable (hsc : sc.Lacks s) (ht : sc.table.SameApart s table)
    (x : Located String) {i v : Expr} (hi : s ∉ i.names) (hv : s ∉ v.names) :
    elementAssignment (sc.withTable table) x i v = elementAssignment sc x i v := by
  have hfit : ∀ element, fit (sc.withTable table) v element (· == element)
      (.elementStore · x.node element) v.span =
        fit sc v element (· == element) (.elementStore · x.node element) v.span :=
    fun element => fit_withTable hsc ht hv element (fun _ _ => rfl) _ _
  have htarget : target (sc.withTable table) x = target sc x := rfl
  unfold elementAssignment
  simp only [htarget, Expr.annotate_withTable hsc ht hi, Expr.annotate_withTable hsc ht hv, hfit]

theorem returned_withTable (hsc : sc.Lacks s) (ht : sc.table.SameApart s table)
    (span : Span) {v : Expr} (hv : s ∉ v.names) :
    returned (sc.withTable table) span (some v) = returned sc span (some v) := by
  have hfit : fit (sc.withTable table) v sc.method.returnTy
      ((sc.withTable table).assignable · sc.method.returnTy)
        (.returnType sc.method.returnTy) v.span =
        fit sc v sc.method.returnTy (sc.assignable · sc.method.returnTy)
          (.returnType sc.method.returnTy) v.span :=
    fit_withTable hsc ht hv _ (fun t htl => Scope.assignable_withTable ht htl hsc.returnTy) _ _
  unfold returned
  simp only [Scope.method_withTable, Expr.annotate_withTable hsc ht hv, hfit]

theorem annotateAll_of_forall {sc sc' : Scope} {ss : List Stmt}
    (h : ∀ t ∈ ss, t.annotate sc' = t.annotate sc) : annotateAll sc' ss = annotateAll sc ss := by
  induction ss with
  | nil => rfl
  | cons t ss ih =>
    rw [List.forall_mem_cons] at h
    rw [annotateAll, annotateAll, h.1, ih h.2]

theorem annotate_withTable (hsc : sc.Lacks s) (ht : sc.table.SameApart s table) {t : Stmt}
    (hnames : s ∉ t.names) : t.annotate (sc.withTable table) = t.annotate sc := by
  induction t using Stmt.induction with
  | varDecl sp d => rfl
  | block sp body ih =>
    rw [names, namesAll_eq_flatMap] at hnames
    refine annotateAll_of_forall fun t htm => ih t htm ?_
    exact fun hs => hnames (List.mem_flatMap.2 ⟨t, htm, hs⟩)
  | ifThen sp c t ih | whileLoop sp c t ih =>
    rw [names, List.mem_append, not_or] at hnames
    rw [annotate, annotate, condition, condition,
      Expr.annotate_withTable hsc ht hnames.1, ih hnames.2]
  | ifElse sp c t e iht ihe =>
    rw [names, List.mem_append, List.mem_append, not_or, not_or] at hnames
    rw [annotate, annotate, condition, condition, Expr.annotate_withTable hsc ht hnames.1.1,
      iht hnames.1.2, ihe hnames.2]
  | expr sp e => rw [annotate, annotate, effect, effect, Expr.annotate_withTable hsc ht hnames]
  | assign sp x v => exact assignment_withTable hsc ht sp x hnames
  | arrayAssign sp x i v =>
    rw [names, List.mem_append, not_or] at hnames
    exact elementAssignment_withTable hsc ht x hnames.1 hnames.2
  | ret sp v =>
    cases v with
    | none => rfl
    | some v => exact returned_withTable hsc ht sp hnames

/-- The annotator says the same of a body without an import that it does not mention. -/
theorem annotateAll_withTable (hsc : sc.Lacks s) (ht : sc.table.SameApart s table) {ss : List Stmt}
    (hnames : s ∉ namesAll ss) : annotateAll (sc.withTable table) ss = annotateAll sc ss := by
  rw [namesAll_eq_flatMap] at hnames
  refine annotateAll_of_forall fun t htm => annotate_withTable hsc ht ?_
  exact fun hs => hnames (List.mem_flatMap.2 ⟨t, htm, hs⟩)

theorem lacks_returnedTy (hsc : sc.Lacks s) : WantsLack s (returnedTy sc) := by
  unfold returnedTy
  split
  · exact wantsLack_none
  · exact wantsLack_some hsc.returnTy

theorem lacks_effectTy (e : Expr) : WantsLack s (effectTy e) := by
  cases e with
  | call => exact wantsLack_some Ty.lacks_void
  | _ => exact wantsLack_none

theorem lacks_placesAll_of {ss : List Stmt} {i : Nat} {ty : Ty}
    (h : ∀ t ∈ ss, (i, some ty) ∈ t.places sc → ty.Lacks s)
    (hmem : (i, some ty) ∈ placesAll sc ss) :
    ty.Lacks s := by
  induction ss with
  | nil => cases hmem
  | cons t ss ih =>
    rw [List.forall_mem_cons] at h
    rcases List.mem_append.1 hmem with hmem | hmem
    · exact h.1 hmem
    · exact ih h.2 hmem

theorem lacks_places (hsc : sc.Lacks s) {t : Stmt} (hnames : s ∉ t.names) {i : Nat} {ty : Ty}
    (h : (i, some ty) ∈ t.places sc) : ty.Lacks s := by
  induction t using Stmt.induction with
  | varDecl sp d => cases h
  | block sp body ih =>
    rw [names, namesAll_eq_flatMap] at hnames
    refine lacks_placesAll_of (fun t htm hmem => ih t htm ?_ hmem) h
    exact fun hs => hnames (List.mem_flatMap.2 ⟨t, htm, hs⟩)
  | ifThen sp c t ih | whileLoop sp c t ih =>
    rw [names, List.mem_append, not_or] at hnames
    rcases List.mem_append.1 h with h | h
    · exact Expr.lacks_places hsc hnames.1 wantsLack_none h
    · exact ih hnames.2 h
  | ifElse sp c t e iht ihe =>
    rw [names, List.mem_append, List.mem_append, not_or, not_or] at hnames
    rcases List.mem_append.1 h with h | h
    · exact Expr.lacks_places hsc hnames.1.1 wantsLack_none h
    · rcases List.mem_append.1 h with h | h
      · exact iht hnames.1.2 h
      · exact ihe hnames.2 h
  | expr sp e => exact Expr.lacks_places hsc hnames (lacks_effectTy e) h
  | assign sp x v => exact Expr.lacks_places hsc hnames (lacks_target hsc x) h
  | arrayAssign sp x j v =>
    rw [names, List.mem_append, not_or] at hnames
    rcases List.mem_append.1 h with h | h
    · exact Expr.lacks_places hsc hnames.1 (wantsLack_some Ty.lacks_int) h
    · exact Expr.lacks_places hsc hnames.2 (lacks_itemTy hsc x) h
  | ret sp v =>
    cases v with
    | none => cases h
    | some v => exact Expr.lacks_places hsc hnames (lacks_returnedTy hsc) h

/-- The types that are given in a body lack the name. -/
theorem lacks_placesAll (hsc : sc.Lacks s) {ss : List Stmt} (hnames : s ∉ namesAll ss)
    {i : Nat} {ty : Ty} (h : (i, some ty) ∈ placesAll sc ss) : ty.Lacks s := by
  rw [namesAll_eq_flatMap] at hnames
  refine lacks_placesAll_of (fun t htm hmem => lacks_places hsc ?_ hmem) h
  exact fun hs => hnames (List.mem_flatMap.2 ⟨t, htm, hs⟩)

end Stmt

/-! ## Methods and classes -/

/-- The types of the method do not have the name. -/
structure MethodSymbols.Lacks (s : String) (m : MethodSymbols) : Prop where
  returnTy : m.returnTy.Lacks s
  params : ∀ q ∈ m.params, q.ty.Lacks s
  locals : ∀ q ∈ m.locals, q.ty.Lacks s

/-- The types of the class do not have the name, and the class is not called by it. -/
structure ClassSymbols.Lacks (s : String) (c : ClassSymbols) : Prop where
  name : c.name ≠ s
  fields : ∀ q ∈ c.fields, q.ty.Lacks s
  methods : ∀ m ∈ c.methods, m.Lacks s

section

variable {s : String} {table table' : SymbolTable} {cls : ClassSymbols}

theorem ClassSymbols.Lacks.method? (h : cls.Lacks s) {m : String} {sig : MethodSymbols}
    (hsig : cls.method? m = some sig) : sig.Lacks s :=
  h.methods sig (List.mem_of_find?_eq_some hsig)

theorem MethodDecl.lacks_scope {method : MethodSymbols} (hcls : cls.Lacks s)
    (hmethod : method.Lacks s) (d : MethodDecl) : (d.scope table cls method).Lacks s where
  cls := hcls.name
  bindings := by
    intro x b hb
    simp only [Scope.resolve, ClassSymbols.resolve, Option.orElse_eq_or, Option.orElse_eq_orElse,
      Option.or_eq_some_iff, Option.map_eq_some_iff] at hb
    rcases hb with ⟨q, hq, rfl⟩ | ⟨-, hb | ⟨-, q, hq, rfl⟩⟩
    · exact hmethod.locals q (List.mem_of_find?_eq_some hq)
    · exact hmethod.params ⟨x, b.ty⟩ (ClassSymbols.findParam_eq_some hb)
    · exact hcls.fields q (List.mem_of_find?_eq_some hq)
  methods := by
    intro m sig hsig
    exact ⟨(hcls.method? hsig).returnTy, (hcls.method? hsig).params⟩
  returnTy := hmethod.returnTy

theorem MethodDecl.not_mem_namesAll {d : MethodDecl} (hd : s ∉ d.names) :
    s ∉ Stmt.namesAll d.body :=
  fun hs => hd (List.mem_append_right _ hs)

theorem MethodDecl.annotate_sameApart (ht : table.SameApart s table') (hcls : cls.Lacks s)
    {d : MethodDecl} (hd : s ∉ d.names) : d.annotate table' cls = d.annotate table cls := by
  unfold annotate
  cases hmethod : cls.method? d.name.node with
  | none => rfl
  | some method =>
    have hsc : (d.scope table cls method).Lacks s := d.lacks_scope hcls (hcls.method? hmethod)
    have hbody : Stmt.annotateAll (d.scope table' cls method) d.body =
        Stmt.annotateAll (d.scope table cls method) d.body :=
      Stmt.annotateAll_withTable hsc ht (not_mem_namesAll hd)
    exact congrArg (fun x : Noted Unit => x.notes ++ _) hbody

theorem ClassDecl.not_mem_names_method {d : ClassDecl} (hd : s ∉ d.names) {md : MethodDecl}
    (hmd : md ∈ d.methods) : s ∉ md.names :=
  fun hs => hd (List.mem_append_right _ (List.mem_flatMap.2 ⟨md, hmd, hs⟩))

/-- The notes on a class are the same without an import that it does not mention. -/
theorem ClassDecl.annotate_sameApart (ht : table.SameApart s table')
    (hclasses : ∀ c ∈ table.classes, c.Lacks s) {d : ClassDecl} (hd : s ∉ d.names) :
    d.annotate table' = d.annotate table := by
  unfold annotate
  rw [SymbolTable.class?, SymbolTable.class?, ht.classes]
  cases hcls : table.classes.find? (·.name == d.name.node) with
  | none => rfl
  | some cls =>
    have hlacks : cls.Lacks s := hclasses cls (List.mem_of_find?_eq_some hcls)
    exact List.flatMap_congr fun md hmd =>
      MethodDecl.annotate_sameApart ht hlacks (not_mem_names_method hd hmd)

end

end MiniJava
