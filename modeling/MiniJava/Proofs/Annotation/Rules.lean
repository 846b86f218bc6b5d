import MiniJava.Proofs.Annotation.Positions

/-!
# Typing rules

What a well-typed program is, said without the annotator.

**The judgement** (`Expr.HasType`). An expression has a type, `some ty`, or it is well formed and
its type is left open, `none`: a bare class name, a call into a class that is not being compiled, or
an item of something whose type is open. An expression whose type is open suits every place that
expects a type (`Suits`); where a type is needed to go on it may stand too, unless it is a call.

**Statements and programs** (`Stmt.WellTyped`, `Program.WellTyped`). The expressions of a statement
have types that suit it. Each class and method is found in the symbol table, and a method that gives
a value ends in a statement that always returns (`Stmt.Returns`).

The annotator goes through a program once, and after an error it goes on with a guess or with an
open type. It reports nothing exactly if there is a derivation: `HasType.of_hold` reads one off a
run without errors, and `HasType.run` follows one through the annotator.

**Theorem** (`Program.no_errors_iff_wellTyped`). The annotator accepts exactly the well-typed
programs.
-/

namespace MiniJava

/-! ## The rules -/

/-- A place that expects one of the types in `P` takes what was found: a type in `P`, or an open
one. -/
def Suits (P : Ty → Prop) (found : Option Ty) : Prop := ∀ ty, found = some ty → P ty

/-- The binding may be used: a field is not there in a static method. -/
def Scope.Allows (sc : Scope) (b : Binding) : Prop := b.isField = true → sc.isStatic = false

namespace Expr

/-- The expression is a call, parenthesised or not. -/
def isCall (e : Expr) : Bool :=
  match e.strip with
  | call .. => true
  | _ => false

/-- The typing rules for expressions. -/
inductive HasType (sc : Scope) : Expr → Option Ty → Prop
  | int {n : Node} {v : Int32} : HasType sc (int n v) (some .int)
  | bool {n : Node} {v : Bool} : HasType sc (bool n v) (some .bool)
  | declared {n : Node} {x : String} {b : Binding} :
      sc.resolve x = some b → sc.Allows b → HasType sc (var n x) (some b.ty)
  | className {n : Node} {x : String} :
      sc.resolve x = none → sc.isClassName x = true → HasType sc (var n x) none
  | this {n : Node} : sc.isStatic = false → HasType sc (this n) (some sc.thisTy)
  | not {n : Node} {e : Expr} {t : Option Ty} :
      HasType sc e t → Suits (· = .bool) t → HasType sc (not n e) (some .bool)
  | binary {n : Node} {op : BinOp} {l r : Expr} {tl tr : Option Ty} :
      HasType sc l tl → Suits (· = op.operandTy) tl →
      HasType sc r tr → Suits (· = op.operandTy) tr →
      HasType sc (binary n op l r) (some op.resultTy)
  | newObject {n : Node} {c : Located String} :
      sc.isClassName c.node = true → HasType sc (newObject n c) (some (.cls c.node))
  | newArray {n : Node} {e : Expr} {t : Option Ty} :
      HasType sc e t → Suits (· = .int) t → HasType sc (newArray n e) (some (.array .int))
  | length {n : Node} {a : Expr} {element : Ty} :
      HasType sc a (some (.array element)) → HasType sc (length n a) (some .int)
  | lengthOpen {n : Node} {a : Expr} :
      HasType sc a none → a.isCall = false → HasType sc (length n a) (some .int)
  | index {n : Node} {a i : Expr} {element : Ty} {t : Option Ty} :
      HasType sc a (some (.array element)) → HasType sc i t → Suits (· = .int) t →
      HasType sc (index n a i) (some element)
  | indexOpen {n : Node} {a i : Expr} {t : Option Ty} :
      HasType sc a none → a.isCall = false → HasType sc i t → Suits (· = .int) t →
      HasType sc (index n a i) none
  /-- A method of the class being compiled, on an object of that class. -/
  | callOwn {n : Node} {r : Expr} {m : Located String} {args : List Expr} {sig : MethodSymbols}
      {ts : List (Option Ty)} :
      HasType sc r (some sc.thisTy) → sc.cls.method? m.node = some sig →
      List.Forall₂ (HasType sc) args ts →
      List.Forall₂ (fun t p => Suits (sc.assignable · p.ty = true) t) ts sig.params →
      HasType sc (call n r m args) (some sig.returnTy)
  /-- A method that the class does not declare comes from its superclass. -/
  | callInherited {n : Node} {r : Expr} {m : Located String} {args : List Expr}
      {ts : List (Option Ty)} :
      HasType sc r (some sc.thisTy) → sc.cls.method? m.node = none → sc.cls.superName ≠ none →
      List.Forall₂ (HasType sc) args ts → HasType sc (call n r m args) none
  | callOther {n : Node} {r : Expr} {m : Located String} {args : List Expr} {c : String}
      {ts : List (Option Ty)} :
      HasType sc r (some (.cls c)) → c ≠ sc.cls.name →
      List.Forall₂ (HasType sc) args ts → HasType sc (call n r m args) none
  | callOpen {n : Node} {r : Expr} {m : Located String} {args : List Expr}
      {ts : List (Option Ty)} :
      HasType sc r none → r.isCall = false →
      List.Forall₂ (HasType sc) args ts → HasType sc (call n r m args) none
  | paren {n : Node} {e : Expr} {t : Option Ty} : HasType sc e t → HasType sc (paren n e) t

end Expr

namespace Stmt

open MiniJava.Expr

/-- The typing rules for statements. -/
inductive WellTyped (sc : Scope) : Stmt → Prop
  | varDecl {sp : Span} {d : VarDecl} : WellTyped sc (varDecl sp d)
  | block {sp : Span} {body : List Stmt} :
      (∀ s ∈ body, WellTyped sc s) → WellTyped sc (block sp body)
  | ifThen {sp : Span} {c : Expr} {t : Stmt} :
      c.HasType sc (some .bool) → WellTyped sc t → WellTyped sc (ifThen sp c t)
  | ifElse {sp : Span} {c : Expr} {t e : Stmt} :
      c.HasType sc (some .bool) → WellTyped sc t → WellTyped sc e → WellTyped sc (ifElse sp c t e)
  | whileLoop {sp : Span} {c : Expr} {b : Stmt} :
      c.HasType sc (some .bool) → WellTyped sc b → WellTyped sc (whileLoop sp c b)
  | expr {sp : Span} {e : Expr} {t : Option Ty} : e.HasType sc t → WellTyped sc (expr sp e)
  | assign {sp : Span} {x : Located String} {v : Expr} {b : Binding} {t : Option Ty} :
      sc.resolve x.node = some b → sc.Allows b → v.HasType sc t →
      Suits (sc.assignable · b.ty = true) t → WellTyped sc (assign sp x v)
  | arrayAssign {sp : Span} {x : Located String} {i v : Expr} {b : Binding} {element : Ty}
      {ti tv : Option Ty} :
      sc.resolve x.node = some b → sc.Allows b → b.ty = .array element →
      i.HasType sc ti → Suits (· = .int) ti → v.HasType sc tv → Suits (· = element) tv →
      WellTyped sc (arrayAssign sp x i v)
  | ret {sp : Span} : sc.method.returnTy = .void → WellTyped sc (ret sp none)
  | retValue {sp : Span} {v : Expr} {t : Option Ty} :
      sc.method.returnTy ≠ .void → v.HasType sc t →
      Suits (sc.assignable · sc.method.returnTy = true) t → WellTyped sc (ret sp (some v))

/-- The statement always returns: it is a `return`, a block that ends in such a statement, or a
choice between two of them. -/
inductive Returns : Stmt → Prop
  | ret {sp : Span} {v : Option Expr} : Returns (ret sp v)
  | block {sp : Span} {body : List Stmt} {last : Stmt} :
      Returns last → Returns (block sp (body ++ [last]))
  | ifElse {sp : Span} {c : Expr} {t e : Stmt} :
      Returns t → Returns e → Returns (ifElse sp c t e)

end Stmt

/-- The method is found in the class, its statements are well typed in the scope that the symbols
give, and it ends in a return if it gives a value. -/
def MethodDecl.WellTyped (table : SymbolTable) (cls : ClassSymbols) (d : MethodDecl) : Prop :=
  ∃ method, cls.method? d.name.node = some method ∧
    (∀ s ∈ d.body, s.WellTyped (d.scope table cls method)) ∧
    (d.returnTy.node ≠ .void → ∃ body last, d.body = body ++ [last] ∧ last.Returns)

/-- Every class is found in the table, and every method is well typed. -/
def Program.WellTyped (p : Program) (table : SymbolTable) : Prop :=
  ∀ d ∈ p.classes, ∃ cls, table.class? d.name.node = some cls ∧
    ∀ md ∈ d.methods, md.WellTyped table cls

/-! ## Places and what suits them -/

section

variable {P : Ty → Prop} {ty : Ty}

@[simp] theorem suits_none : Suits P none := nofun

@[simp] theorem suits_some : Suits P (some ty) ↔ P ty := by
  simp [Suits]

end

/-- No errors among the notes, as an account that leaves all types open. -/
theorem quiet_iff_hold {notes : List Note} : Quiet notes ↔ Hold (fun _ _ => True) notes := by
  constructor
  · intro h n hn
    cases n with
    | typed id ty => trivial
    | adopted id ty => trivial
    | report p span => exact h p span hn
  · intro h p span hn
    exact h _ hn

namespace Expr

variable {sc : Scope} {H : Nat → Ty → Prop} {e : Expr} {t : Option Ty}

theorem isCall_eq_false_iff :
    e.isCall = false ↔ ∀ n r m args, e.strip ≠ call n r m args := by
  unfold isCall
  split
  · next h => simp [h]
  · next h => simpa using h

/-! ## Derivations from runs without errors -/

/-- What the annotator finds for a call, once the receiver is known. -/
theorem callTy_cases {span : Span} {r : Expr} {m : String} {args : Args} {found : Option Ty}
    (h : Hold H (callTy sc span r m args found).notes) :
    (∃ sig, found = some sc.thisTy ∧ sc.cls.method? m = some sig ∧
      (callTy sc span r m args found).value = some sig.returnTy) ∨
    (callTy sc span r m args found).value = none ∧
      (found = some sc.thisTy ∧ sc.cls.method? m = none ∧ sc.cls.superName ≠ none ∨
        (∃ c, found = some (.cls c) ∧ c ≠ sc.cls.name) ∨ found = none) := by
  cases found with
  | none => exact .inr ⟨rfl, .inr (.inr rfl)⟩
  | some ty =>
    cases ty with
    | cls name =>
      by_cases hname : name = sc.cls.name
      · subst hname
        cases hm : sc.cls.method? m with
        | some sig => exact .inl ⟨sig, rfl, rfl, value_callTy_own hm⟩
        | none =>
          simp only [callTy, beq_self_eq_true, if_true, hm, Noted.notes_bind, hold_append,
            Noted.hold_reportIf] at h
          refine .inr ⟨by simp [callTy, hm], .inl ⟨rfl, rfl, ?_⟩⟩
          simpa [Problem.severity, Option.isNone_iff_eq_none] using h.2.1
      · refine .inr ⟨by simp [callTy, hname], .inr (.inl ⟨name, rfl, hname⟩)⟩
    | _ => simp [callTy, Problem.severity] at h

/-- The arguments of a call have what the annotator found for them. -/
theorem hasTypes_of_hold {args : List Expr}
    (h : ∀ a ∈ args, a.HasType sc (a.annotate sc).value) :
    List.Forall₂ (HasType sc) args (args.map fun a => (a.annotate sc).value) := by
  rw [List.forall₂_map_right_iff, List.forall₂_same]
  exact h

/-- **Runs without errors give derivations.** -/
theorem HasType.of_hold (h : Hold H (e.annotate sc).notes) :
    e.HasType sc (e.annotate sc).value := by
  induction e using Expr.induction with
  | int n v => exact .int
  | bool n v => exact .bool
  | var n x =>
    simp only [annotate, varTy, Noted.notes_bind, Noted.value_bind, hold_append,
      value_settle] at h ⊢
    cases hx : sc.resolve x with
    | some b =>
      refine .declared hx ?_
      simpa [hx, Problem.severity, Scope.Allows] using h.1
    | none =>
      refine .className hx ?_
      simpa [hx, Problem.severity] using h.1
  | this n =>
    simp only [annotate, Noted.notes_bind, hold_append] at h
    refine .this ?_
    simpa [Problem.severity] using h.1
  | not n e ih =>
    have hplaced := placed_not h
    simp only [annotate, Noted.notes_bind, Noted.value_bind, hold_append, value_settle] at h ⊢
    rw [value_notTy h.2.1]
    exact .not (ih hplaced.notes) hplaced.own
  | binary n op l r ihl ihr =>
    obtain ⟨hl, hr⟩ := placed_binary h
    simp only [annotate, Noted.notes_bind, Noted.value_bind, hold_append, value_settle] at h ⊢
    rw [value_binaryTy h.2.2.1]
    exact .binary (ihl hl.notes) hl.own (ihr hr.notes) hr.own
  | newObject n c =>
    simp only [annotate, Noted.notes_bind, hold_append] at h
    refine .newObject ?_
    simpa [Problem.severity] using h.1
  | newArray n e ih =>
    have hplaced := placed_newArray h
    exact .newArray (ih hplaced.notes) hplaced.own
  | length n a ih =>
    -- A type is needed here, but it may be left open unless the array is a call.
    have hrequired := required_length h
    have ha := ih hrequired.notes
    simp only [annotate, Noted.value_bind, value_settle, value_lengthTy]
    cases hty : (a.annotate sc).value with
    | some ty =>
      rw [hty] at ha
      cases ty with
      | array element => exact .length ha
      | _ => cases hrequired.own _ hty
    | none =>
      rw [hty] at ha
      exact .lengthOpen ha (isCall_eq_false_iff.2 (hrequired.untyped hty))
  | index n a i iha ihi =>
    obtain ⟨harray, hplace⟩ := required_index h
    have ha := iha harray.notes
    have hi := ihi hplace.notes
    simp only [annotate, Noted.notes_bind, Noted.value_bind, hold_append, value_settle] at h ⊢
    -- The type of an item is that of the array without its brackets, or open if the array's is.
    rcases indexTy_cases h.2.2.2.1 with ⟨element, hsome, hvalue⟩ | ⟨hnone, hcall⟩
    · rw [hvalue]
      rw [hsome] at ha
      exact .index ha hi hplace.own
    · rw [hnone] at ha ⊢
      exact .indexOpen ha (isCall_eq_false_iff.2 hcall) hi hplace.own
  | call n r m args ihr ihargs =>
    have hcall := placed_call h
    have hr := ihr hcall.receiver.notes
    have hargs := hasTypes_of_hold fun a ha => ihargs a ha (hcall.args a ha).notes
    simp only [annotate, Noted.notes_bind, Noted.value_bind, hold_append, value_settle] at h ⊢
    -- One rule for each way in which a call without errors gets its type: the method is found in
    -- this class, or it may be inherited, or the object is of another class, or its type is open.
    rcases callTy_cases h.2.1 with ⟨sig, hthis, hm, hvalue⟩ | ⟨hvalue, hrule⟩
    · rw [hvalue]
      refine .callOwn (hthis ▸ hr) hm hargs ?_
      rw [List.forall₂_map_left_iff]
      exact (hcall.params sig hthis hm).imp fun _ _ ha => ha.own
    · rw [hvalue]
      rcases hrule with ⟨hthis, hm, hsuper⟩ | ⟨c, hc, hother⟩ | hnone
      · exact .callInherited (hthis ▸ hr) hm hsuper hargs
      · exact .callOther (hc ▸ hr) hother hargs
      · exact .callOpen (hnone ▸ hr) (isCall_eq_false_iff.2 (hcall.receiver.untyped hnone)) hargs
  | paren n e ih =>
    simp only [annotate, Noted.notes_bind, Noted.value_bind, hold_append, value_settle] at h ⊢
    exact .paren (ih h.1)

/-! ## Runs along derivations -/

@[simp] theorem quiet_settle {n : Node} {found : Option Ty} : Quiet (settle n found).notes := by
  rw [quiet_iff_hold, hold_settle]
  exact fun _ _ => trivial

@[simp] theorem quiet_adopt {ty : Ty} : Quiet (e.adopt ty).notes := by
  rw [quiet_iff_hold]
  induction e using Expr.induction with
  | paren n e ih =>
    rw [adopt, Noted.notes_bind, hold_append, Noted.hold_adopted]
    exact ⟨ih, trivial⟩
  | _ => exact Noted.hold_adopted.2 trivial

@[simp] theorem quiet_expect {ty : Ty} {found : Noted (Option Ty)} :
    Quiet (e.expect ty found).notes ↔ Quiet found.notes := by
  rw [quiet_iff_hold, hold_expect, ← quiet_iff_hold, ← quiet_iff_hold]
  simp

theorem quiet_needType {position : String} (h : e.isCall = false) :
    Quiet (e.needType position).notes := by
  unfold needType
  split
  · next hcall => simp [isCall, hcall] at h
  · exact quiet_nil

theorem quiet_wantInt {problem : Ty → Problem} {span : Span} (h : Suits (· = .int) t) :
    Quiet (wantInt problem span t).notes := by
  cases t with
  | none => exact quiet_nil
  | some ty => simp [wantInt, suits_some.1 h]

theorem notTy_of_suits {span : Span} (h : Suits (· = .bool) t) :
    Quiet (notTy span t).notes ∧ (notTy span t).value = some .bool := by
  cases t with
  | none => exact ⟨quiet_nil, rfl⟩
  | some ty =>
    rw [suits_some] at h
    subst h
    exact ⟨quiet_nil, rfl⟩

theorem binaryTy_of_suits {span : Span} {op : BinOp} {l r : Option Ty}
    (hl : Suits (· = op.operandTy) l) (hr : Suits (· = op.operandTy) r) :
    Quiet (binaryTy span op l r).notes ∧ (binaryTy span op l r).value = some op.resultTy := by
  have hfit : ∀ {found : Option Ty}, Suits (· = op.operandTy) found →
      found.getD op.operandTy = op.operandTy := by
    intro found h
    cases found with
    | none => rfl
    | some ty => simpa using h
  simp [binaryTy, hfit hl, hfit hr]

theorem length_annotateEach (sc : Scope) (args : List Expr) :
    (annotateEach sc args).length = args.length := by
  rw [annotateEach_eq_map, List.length_map]

theorem quiet_unknownArgs {args : List Expr} (h : ∀ a ∈ args, Quiet (a.annotate sc).notes) :
    Quiet (unknownArgs (annotateEach sc args)).notes := by
  rw [unknownArgs, annotateEach_eq_map, List.map_map, quiet_iff_hold, Noted.hold_all]
  intro x hx
  obtain ⟨a, ha, rfl⟩ := List.mem_map.1 hx
  rw [← quiet_iff_hold]
  simpa using h a ha

theorem quiet_knownArgs {m : String} {i : Nat} {args : List Expr} {ps : List Symbol}
    (h : ∀ a ∈ args, Quiet (a.annotate sc).notes)
    (hfit : List.Forall₂ (fun a p => Suits (sc.assignable · p.ty = true) (a.annotate sc).value)
      args ps) :
    Quiet (knownArgs sc m i (annotateEach sc args) ps).notes := by
  induction hfit generalizing i with
  | nil => exact quiet_nil
  | cons ha _ ih =>
    obtain ⟨hnotes, hrest⟩ := List.forall_mem_cons.1 h
    simp only [annotateEach, knownArgs, Noted.notes_bind, quiet_append, value_expect, quiet_expect]
    refine ⟨hnotes, ?_⟩
    split
    · next actual hactual =>
      rw [hactual, suits_some] at ha
      simpa [ha] using ih hrest
    · exact ih hrest

/-- What the annotator does with the arguments of a call, if it does well with each of them. -/
theorem run_args {args : List Expr} {ts : List (Option Ty)} (h : List.Forall₂ (HasType sc) args ts)
    (ih : ∀ a ∈ args, ∀ {t}, a.HasType sc t →
      Quiet (a.annotate sc).notes ∧ (a.annotate sc).value = t) :
    (∀ a ∈ args, Quiet (a.annotate sc).notes) ∧ ts = args.map fun a => (a.annotate sc).value := by
  induction h with
  | nil => exact ⟨nofun, rfl⟩
  | cons ha _ ihargs =>
    obtain ⟨hfirst, hrest⟩ := List.forall_mem_cons.1 ih
    obtain ⟨hquiet, hvalue⟩ := hfirst ha
    obtain ⟨hquiets, hvalues⟩ := ihargs hrest
    exact ⟨List.forall_mem_cons.2 ⟨hquiet, hquiets⟩, by rw [List.map_cons, hvalue, hvalues]⟩

/-- **Derivations give runs without errors**, which find the type that was derived. -/
theorem HasType.run (h : e.HasType sc t) :
    Quiet (e.annotate sc).notes ∧ (e.annotate sc).value = t := by
  -- By induction on the expression, not on the derivation: the arguments of a call have derivations
  -- inside a list, for which the induction on derivations gives no hypothesis.
  induction e using Expr.induction generalizing t with
  | int n v =>
    cases h
    exact ⟨quiet_settle, rfl⟩
  | bool n v =>
    cases h
    exact ⟨quiet_settle, rfl⟩
  | var n x =>
    cases h with
    | declared hx hb =>
      simpa [annotate, varTy, hx, Scope.Allows, Problem.severity] using hb
    | className hx hclass => simp [annotate, varTy, hx, hclass]
  | this n =>
    cases h with
    | this hstatic => simp [annotate, hstatic]
  | not n e ih =>
    cases h with
    | not he hfit =>
      obtain ⟨hquiet, rfl⟩ := ih he
      simpa [annotate, hquiet] using notTy_of_suits hfit
  | binary n op l r ihl ihr =>
    cases h with
    | binary hl hfl hr hfr =>
      obtain ⟨hquietl, rfl⟩ := ihl hl
      obtain ⟨hquietr, rfl⟩ := ihr hr
      simpa [annotate, hquietl, hquietr] using binaryTy_of_suits hfl hfr
  | newObject n c =>
    cases h with
    | newObject hclass => simp [annotate, hclass]
  | newArray n e ih =>
    cases h with
    | newArray he hfit =>
      obtain ⟨hquiet, rfl⟩ := ih he
      simpa [annotate, hquiet] using quiet_wantInt hfit
  | length n a ih =>
    cases h with
    | length ha =>
      obtain ⟨hquiet, hvalue⟩ := ih ha
      simp [annotate, hquiet, hvalue, lengthTy, Ty.isArray]
    | lengthOpen ha hcall =>
      obtain ⟨hquiet, hvalue⟩ := ih ha
      simp [annotate, hquiet, hvalue, lengthTy, quiet_needType hcall]
  | index n a i iha ihi =>
    cases h with
    | index ha hi hfit =>
      obtain ⟨hquiet, hvalue⟩ := iha ha
      obtain ⟨hplace, rfl⟩ := ihi hi
      simp [annotate, hquiet, hvalue, hplace, quiet_wantInt hfit, indexTy]
    | indexOpen ha hcall hi hfit =>
      obtain ⟨hquiet, hvalue⟩ := iha ha
      obtain ⟨hplace, rfl⟩ := ihi hi
      simp [annotate, hquiet, hvalue, hplace, quiet_wantInt hfit, indexTy, quiet_needType hcall]
  | call n r m args ihr ihargs =>
    cases h with
    | callOwn hr hm hargs hfit =>
      obtain ⟨hquiet, hvalue⟩ := ihr hr
      obtain ⟨hquiets, rfl⟩ := run_args hargs ihargs
      rw [List.forall₂_map_left_iff] at hfit
      -- There are as many arguments as parameters, so each is compared with its own.
      have hlen := (length_annotateEach sc args).trans hfit.length_eq
      simp [annotate, hquiet, hvalue, Scope.thisTy, callTy, hm, hlen, quiet_knownArgs hquiets hfit]
    | callInherited hr hm hsuper hargs =>
      obtain ⟨hquiet, hvalue⟩ := ihr hr
      obtain ⟨hquiets, rfl⟩ := run_args hargs ihargs
      simp [annotate, hquiet, hvalue, Scope.thisTy, callTy, hm, hsuper, quiet_unknownArgs hquiets]
    | callOther hr hother hargs =>
      obtain ⟨hquiet, hvalue⟩ := ihr hr
      obtain ⟨hquiets, rfl⟩ := run_args hargs ihargs
      simp [annotate, hquiet, hvalue, callTy, hother, quiet_unknownArgs hquiets]
    | callOpen hr hcall hargs =>
      obtain ⟨hquiet, hvalue⟩ := ihr hr
      obtain ⟨hquiets, rfl⟩ := run_args hargs ihargs
      simp [annotate, hquiet, hvalue, callTy, quiet_needType hcall, quiet_unknownArgs hquiets]
  | paren n e ih =>
    cases h with
    | paren he => simpa [annotate] using ih he

end Expr

/-! ## Statements -/

namespace Stmt

open MiniJava.Expr

variable {sc : Scope} {H : Nat → Ty → Prop} {s : Stmt} {v : Expr} {t : Option Ty}

/-- A condition has a type of its own. -/
theorem hasType_condition {keyword : String} {c : Expr}
    (h : Hold H (condition sc keyword c).notes) : c.HasType sc (some .bool) := by
  rw [condition, Noted.notes_bind, hold_append] at h
  obtain ⟨hc, hty⟩ := h
  have hhas := HasType.of_hold hc
  split at hty
  · next hbool => rwa [hbool] at hhas
  · simp [Problem.severity] at hty
  · simp [Problem.severity] at hty

theorem quiet_condition {keyword : String} {c : Expr} (h : c.HasType sc (some .bool)) :
    Quiet (condition sc keyword c).notes := by
  obtain ⟨hquiet, hvalue⟩ := h.run
  simp [condition, hquiet, hvalue]

theorem quiet_fit {expected : Ty} {fits : Ty → Bool} {problem : Ty → Problem} {span : Span}
    (h : v.HasType sc t) (hfit : Suits (fits · = true) t) :
    Quiet (fit sc v expected fits problem span).notes := by
  obtain ⟨hquiet, rfl⟩ := h.run
  rw [fit, Noted.notes_bind, quiet_append, quiet_expect, value_expect]
  refine ⟨hquiet, ?_⟩
  split
  · next ty hty =>
    rw [hty, suits_some] at hfit
    simp [hfit]
  · exact quiet_nil

theorem allows_of_target {x : Located String} {b : Binding} (hb : sc.resolve x.node = some b)
    (h : Hold H (target sc x).notes) : sc.Allows b := by
  simpa [target, hb, Problem.severity, Scope.Allows] using h

theorem target_of_allows {x : Located String} {b : Binding} (hb : sc.resolve x.node = some b)
    (h : sc.Allows b) : Quiet (target sc x).notes ∧ (target sc x).value = some b.ty := by
  simpa [target, hb, Problem.severity, Scope.Allows] using h

theorem quiet_annotateAll {ss : List Stmt} :
    Quiet (annotateAll sc ss).notes ↔ ∀ s ∈ ss, Quiet (s.annotate sc).notes := by
  induction ss with
  | nil => simp [annotateAll]
  | cons s ss ih => rw [annotateAll, Noted.notes_bind, quiet_append, ih, List.forall_mem_cons]

theorem WellTyped.of_hold (h : Hold H (s.annotate sc).notes) : s.WellTyped sc := by
  induction s using Stmt.induction with
  | varDecl sp d => exact .varDecl
  | block sp body ih =>
    rw [annotate] at h
    exact .block fun s hs => ih s hs (hold_of_annotateAll h s hs)
  | ifThen sp c t ih =>
    rw [annotate, Noted.notes_bind, hold_append] at h
    exact .ifThen (hasType_condition h.1) (ih h.2)
  | ifElse sp c t e iht ihe =>
    simp only [annotate, Noted.notes_bind, hold_append] at h
    exact .ifElse (hasType_condition h.1) (iht h.2.1) (ihe h.2.2)
  | whileLoop sp c b ih =>
    rw [annotate, Noted.notes_bind, hold_append] at h
    exact .whileLoop (hasType_condition h.1) (ih h.2)
  | expr sp e => exact .expr (HasType.of_hold (hold_of_effect h))
  | assign sp x v =>
    obtain ⟨b, hb, hv⟩ := placed_assignment h
    rw [annotate, assignment, Noted.notes_bind, hold_append] at h
    exact .assign hb (allows_of_target hb h.1) (HasType.of_hold hv.notes) hv.own
  | arrayAssign sp x i v =>
    obtain ⟨b, element, hb, harray, hi, hv⟩ := placed_elementAssignment h
    rw [annotate, elementAssignment, Noted.notes_bind, hold_append] at h
    exact .arrayAssign hb (allows_of_target hb h.1) harray (HasType.of_hold hi.notes) hi.own
      (HasType.of_hold hv.notes) hv.own
  | ret sp v =>
    cases v with
    | none => exact .ret (returnTy_of_returned_none h)
    | some v =>
      obtain ⟨hvoid, hv⟩ := placed_returned h
      exact .retValue hvoid (HasType.of_hold hv.notes) hv.own

theorem WellTyped.quiet (h : s.WellTyped sc) : Quiet (s.annotate sc).notes := by
  induction h with
  | varDecl => exact quiet_nil
  | block _ ih => exact quiet_annotateAll.2 ih
  | ifThen hc _ ih =>
    rw [annotate, Noted.notes_bind, quiet_append]
    exact ⟨quiet_condition hc, ih⟩
  | ifElse hc _ _ iht ihe =>
    simp only [annotate, Noted.notes_bind, quiet_append]
    exact ⟨quiet_condition hc, iht, ihe⟩
  | whileLoop hc _ ih =>
    rw [annotate, Noted.notes_bind, quiet_append]
    exact ⟨quiet_condition hc, ih⟩
  | expr he =>
    -- A call for its effect takes the type `void` if it has none, and that is no error.
    rw [annotate, effect, Noted.notes_bind, quiet_append]
    refine ⟨he.run.1, ?_⟩
    split
    · exact quiet_adopt
    · exact quiet_nil
  | assign hb hallows hv hfit =>
    obtain ⟨htarget, hty⟩ := target_of_allows hb hallows
    rw [annotate, assignment, Noted.notes_bind, quiet_append, hty]
    exact ⟨htarget, quiet_fit hv hfit⟩
  | arrayAssign hb hallows harray hi hfi hv hfv =>
    obtain ⟨htarget, hty⟩ := target_of_allows hb hallows
    obtain ⟨hplace, rfl⟩ := hi.run
    simp only [annotate, elementAssignment, Noted.notes_bind, quiet_append, hty, harray,
      value_expect, quiet_expect]
    exact ⟨htarget, hplace, quiet_wantInt hfi, quiet_nil, quiet_fit hv (by simpa using hfv)⟩
  | ret hvoid => simp [annotate, returned, hvoid]
  | retValue hvoid hv hfit =>
    rw [annotate, returned, if_neg (by simpa using hvoid)]
    exact quiet_fit hv hfit

/-! ## Returning -/

theorem lastReturns_append_singleton (body : List Stmt) (last : Stmt) :
    lastReturns (body ++ [last]) = last.definitelyReturns := by
  induction body with
  | nil => rfl
  | cons s body ih =>
    cases body with
    | nil => exact ih
    | cons _ _ => exact ih

/-- The last statement of a body that returns is there. -/
theorem lastReturns_iff {body : List Stmt} :
    lastReturns body = true ↔
      ∃ init last, body = init ++ [last] ∧ last.definitelyReturns = true := by
  constructor
  · intro h
    rcases List.eq_nil_or_concat body with rfl | ⟨init, last, rfl⟩
    · cases h
    · rw [List.concat_eq_append, lastReturns_append_singleton] at h
      exact ⟨init, last, List.concat_eq_append, h⟩
  · intro h
    obtain ⟨init, last, rfl, hlast⟩ := h
    rw [lastReturns_append_singleton, hlast]

theorem returns_of_definitelyReturns (h : s.definitelyReturns = true) : s.Returns := by
  induction s using Stmt.induction with
  | ret sp v => exact .ret
  | block sp body ih =>
    obtain ⟨init, last, rfl, hlast⟩ := lastReturns_iff.1 h
    exact .block (ih last (by simp) hlast)
  | ifElse sp c t e iht ihe =>
    rw [definitelyReturns, Bool.and_eq_true] at h
    exact .ifElse (iht h.1) (ihe h.2)
  | _ => cases h

theorem Returns.definitelyReturns (h : s.Returns) : s.definitelyReturns = true := by
  induction h with
  | ret => rfl
  | block _ ih => exact (lastReturns_append_singleton _ _).trans ih
  | ifElse _ _ iht ihe => rw [Stmt.definitelyReturns, iht, ihe, Bool.and_self]

end Stmt

/-! ## Programs -/

theorem MethodDecl.quiet_iff {table : SymbolTable} {cls : ClassSymbols} {d : MethodDecl} :
    Quiet (d.annotate table cls) ↔ d.WellTyped table cls := by
  constructor
  · intro h
    obtain ⟨method, hmethod, hbody, hreturns⟩ := accepted_of_quiet h
    refine ⟨method, hmethod, fun s hs => ?_, fun hvoid => ?_⟩
    · exact .of_hold (quiet_iff_hold.1 (Stmt.quiet_annotateAll.1 hbody s hs))
    · obtain ⟨init, last, hlast, hret⟩ := Stmt.lastReturns_iff.1 (hreturns hvoid)
      exact ⟨init, last, hlast, Stmt.returns_of_definitelyReturns hret⟩
  · intro h
    obtain ⟨method, hmethod, hbody, hreturns⟩ := h
    have hnotes := Stmt.quiet_annotateAll.2 fun s hs => (hbody s hs).quiet
    simp only [annotate, hmethod, quiet_append]
    refine ⟨hnotes, ?_⟩
    by_cases hvoid : d.returnTy.node = .void
    · simp [hvoid]
    · obtain ⟨init, last, hlast, hret⟩ := hreturns hvoid
      simp [Stmt.lastReturns_iff.2 ⟨init, last, hlast, hret.definitelyReturns⟩]

theorem ClassDecl.quiet_iff {table : SymbolTable} {d : ClassDecl} :
    Quiet (d.annotate table) ↔ ∃ cls, table.class? d.name.node = some cls ∧
      ∀ md ∈ d.methods, md.WellTyped table cls := by
  rw [annotate]
  cases hcls : table.class? d.name.node with
  | none => simp [quiet_report, Problem.severity]
  | some cls => simp [quiet_flatMap, MethodDecl.quiet_iff]

namespace Program

variable (p : Program) (table : SymbolTable)

/-- Warnings are not errors. -/
theorem quiet_unusedImports : Quiet p.unusedImports := by
  intro problem span h
  obtain ⟨i, -, hi⟩ := List.mem_filterMap.1 h
  split at hi
  · cases hi
  · cases hi
    simp [Problem.severity]

/-- **The annotator accepts exactly the well-typed programs.** -/
theorem no_errors_iff_wellTyped :
    (p.annotate table).hasErrors = false ↔ p.WellTyped table := by
  rw [annotate, Annotation.hasErrors_eq_false_iff, notes, quiet_append, quiet_flatMap]
  simp only [quiet_unusedImports, and_true, ClassDecl.quiet_iff, WellTyped]

end Program

end MiniJava
