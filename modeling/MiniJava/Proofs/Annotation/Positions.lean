import MiniJava.Proofs.Annotation.Quiet
import MiniJava.Proofs.Syntax
import Mathlib.Data.List.Forall2

/-!
# Where expressions stand

The notes on a program hold by some account of the types of its expressions, `H`, if every type that
was noted is one that `H` tells and no note is an error (`Hold`). What follows from that for the
parts of a program does not depend on `H`.

Every place in a program wants values of certain types: an operand of `+` is an `int`, the value of
an assignment is assignable to its target. An expression of an accepted program fits its place.
Either its own type is one of those wanted; or it has no type of its own, and then it has taken a
wanted one, or it is no call (`Expr.Placed`). For each kind of expression and statement the lemmas
here say in what places its parts stand.
-/

namespace MiniJava

theorem Scope.assignable_self (sc : Scope) (ty : Ty) : sc.assignable ty ty = true := by
  simp [Scope.assignable]

/-! ## Notes that hold -/

/-- What the note says holds: the expression has the type by `H`, and a report is not an error. -/
def Note.Holds (H : Nat → Ty → Prop) : Note → Prop
  | .typed id ty | .adopted id ty => H id ty
  | .report p _ => p.severity ≠ .error

/-- Everything that the notes say holds. -/
def Hold (H : Nat → Ty → Prop) (notes : List Note) : Prop := ∀ n ∈ notes, n.Holds H

section

variable {H : Nat → Ty → Prop} {id : Nat} {ty : Ty} {p : Problem} {span : Span}

@[simp] theorem hold_nil : Hold H [] := nofun

@[simp] theorem hold_append {a b : List Note} : Hold H (a ++ b) ↔ Hold H a ∧ Hold H b :=
  List.forall_mem_append

namespace Noted

@[simp] theorem hold_typed : Hold H (note (.typed id ty)).notes ↔ H id ty :=
  List.forall_mem_singleton

@[simp] theorem hold_adopted : Hold H (note (.adopted id ty)).notes ↔ H id ty :=
  List.forall_mem_singleton

@[simp] theorem hold_report : Hold H (report p span).notes ↔ p.severity ≠ .error :=
  List.forall_mem_singleton

@[simp] theorem hold_reportIf {b : Bool} :
    Hold H (reportIf b p span).notes ↔ (b = true → p.severity ≠ .error) := by
  cases b <;> simp [reportIf]

theorem hold_all {xs : List (Noted Unit)} : Hold H (all xs).notes ↔ ∀ x ∈ xs, Hold H x.notes := by
  induction xs with
  | nil => simp [all]
  | cons x xs ih => rw [all, notes_bind, hold_append, ih, List.forall_mem_cons]

end Noted

end

namespace Expr

variable {sc : Scope} {H : Nat → Ty → Prop} {e : Expr} {ty : Ty} {P Q : Ty → Prop}

@[simp] theorem value_settle (n : Node) (found : Option Ty) : (settle n found).value = found := by
  cases found <;> rfl

@[simp] theorem hold_settle {n : Node} {found : Option Ty} :
    Hold H (settle n found).notes ↔ ∀ ty, found = some ty → H n.id ty := by
  cases found <;> simp [settle]

@[simp] theorem value_expect {found : Noted (Option Ty)} :
    (e.expect ty found).value = found.value := by
  rw [expect, Noted.value_bind]
  cases found.value <;> rfl

@[simp] theorem hold_expect {found : Noted (Option Ty)} :
    Hold H (e.expect ty found).notes ↔
      Hold H found.notes ∧ (found.value = none → Hold H (e.adopt ty).notes) := by
  rw [expect, Noted.notes_bind, hold_append]
  cases found.value <;> simp

theorem annotateEach_eq_map (args : List Expr) :
    annotateEach sc args = args.map fun a => (a, a.annotate sc) := by
  induction args with
  | nil => rfl
  | cons a args ih => rw [annotateEach, ih, List.map_cons]

/-! ## Rules that find a type -/

/-- The type that an expression found is the one it has, inside parentheses too. -/
theorem holds_of_value (h : Hold H (e.annotate sc).notes) (hty : (e.annotate sc).value = some ty) :
    H e.id ty ∧ H e.strip.id ty := by
  induction e using Expr.induction with
  | paren n e ih =>
    simp only [annotate, Noted.notes_bind, Noted.value_bind, hold_append, hold_settle,
      value_settle] at h hty
    exact ⟨h.2 ty hty, (ih h.1 hty).2⟩
  | _ => simp_all [annotate, strip, id, node]

/-- So is the type that it takes from its surroundings. -/
theorem holds_of_adopt (h : Hold H (e.adopt ty).notes) : H e.id ty ∧ H e.strip.id ty := by
  induction e using Expr.induction with
  | paren n e ih =>
    simp only [adopt, Noted.notes_bind, hold_append, Noted.hold_adopted] at h
    exact ⟨h.2, (ih h.1).2⟩
  | _ => exact ⟨Noted.hold_adopted.1 h, Noted.hold_adopted.1 h⟩

theorem value_notTy {span : Span} {found : Option Ty} (h : Hold H (notTy span found).notes) :
    (notTy span found).value = some .bool := by
  unfold notTy at h ⊢
  split at h
  · rfl
  · rfl
  · simp [Problem.severity] at h

theorem value_binaryTy {span : Span} {op : BinOp} {left right : Option Ty}
    (h : Hold H (binaryTy span op left right).notes) :
    (binaryTy span op left right).value = some op.resultTy := by
  by_cases hok : (left.getD op.operandTy == op.operandTy &&
      right.getD op.operandTy == op.operandTy) = true
  · simp only [binaryTy, hok, if_true, Noted.value_pure]
  · simp [binaryTy, hok, Problem.severity] at h

theorem value_lengthTy {array : Expr} {found : Option Ty} :
    (lengthTy array found).value = some .int := by
  cases found <;> rfl

/-- A method of the class being compiled, called on an object of that class, gives what it
declares. -/
theorem value_callTy_own {span : Span} {r : Expr} {m : String} {args : Args} {sig : MethodSymbols}
    (hsig : sc.cls.method? m = some sig) :
    (callTy sc span r m args (some sc.thisTy)).value = some sig.returnTy := by
  by_cases hlen : args.length = sig.params.length <;> simp [callTy, Scope.thisTy, hsig, hlen]

/-- Where a type is needed to go on, there is no call without one. -/
theorem strip_ne_call_of_needType {position : String} (h : Hold H (e.needType position).notes)
    (n : Node) (r : Expr) (m : Located String) (args : List Expr) : e.strip ≠ call n r m args := by
  intro he
  rw [needType, he] at h
  simp [Problem.severity] at h

/-- What is indexed is an array or has no type of its own. -/
theorem indexTy_cases {array : Expr} {found : Option Ty} (h : Hold H (indexTy array found).notes) :
    (∃ element, found = some (.array element) ∧ (indexTy array found).value = some element) ∨
      found = none ∧ ∀ n r m args, array.strip ≠ call n r m args := by
  unfold indexTy at h ⊢
  split at h
  · next element => exact .inl ⟨element, rfl, rfl⟩
  · simp [Problem.severity] at h
  · rw [Noted.notes_bind, hold_append] at h
    exact .inr ⟨rfl, strip_ne_call_of_needType h.1⟩

/-! ## Places -/

/-- The expression stands where a value with a type in `P` is wanted, and fits. -/
structure Placed (sc : Scope) (H : Nat → Ty → Prop) (P : Ty → Prop) (e : Expr) : Prop where
  notes : Hold H (e.annotate sc).notes
  own : ∀ t, (e.annotate sc).value = some t → P t
  taken : (e.annotate sc).value = none →
    (∃ t, P t ∧ Hold H (e.adopt t).notes) ∨ ∀ n r m args, e.strip ≠ call n r m args

theorem Placed.mono (h : e.Placed sc H P) (himp : ∀ t, P t → Q t) : e.Placed sc H Q := by
  refine ⟨h.notes, fun t ht => himp t (h.own t ht), fun hnone => ?_⟩
  rcases h.taken hnone with ⟨t, ht, hadopt⟩ | hcall
  · exact .inl ⟨t, himp t ht, hadopt⟩
  · exact .inr hcall

/-- An expression without a type takes the expected one, which is wanted too. -/
theorem placed_of_expect (h : Hold H (e.expect ty (e.annotate sc)).notes) (hty : P ty)
    (hown : ∀ t, (e.annotate sc).value = some t → P t) : e.Placed sc H P := by
  rw [hold_expect] at h
  exact ⟨h.1, hown, fun hnone => .inl ⟨ty, hty, h.2 hnone⟩⟩

/-- The expression stands where a type in `P` is needed to go on. One without a type is no call. -/
structure Required (sc : Scope) (H : Nat → Ty → Prop) (P : Ty → Prop) (e : Expr) : Prop where
  notes : Hold H (e.annotate sc).notes
  own : ∀ t, (e.annotate sc).value = some t → P t
  untyped : (e.annotate sc).value = none → ∀ n r m args, e.strip ≠ call n r m args

theorem Required.placed (h : e.Required sc H P) : e.Placed sc H P :=
  ⟨h.notes, h.own, fun hnone => .inr (h.untyped hnone)⟩

/-! ## Parts of expressions -/

section

variable {n : Node}

theorem placed_not (h : Hold H ((not n e).annotate sc).notes) :
    e.Placed sc H (· = .bool) := by
  simp only [annotate, Noted.notes_bind, hold_append, value_expect] at h
  refine placed_of_expect h.1 rfl fun t ht => ?_
  rw [ht] at h
  by_contra hne
  unfold notTy at h
  split at h <;> simp_all [Problem.severity]

theorem placed_binary {op : BinOp} {l r : Expr}
    (h : Hold H ((binary n op l r).annotate sc).notes) :
    l.Placed sc H (· = op.operandTy) ∧ r.Placed sc H (· = op.operandTy) := by
  simp only [annotate, Noted.notes_bind, hold_append, value_expect] at h
  obtain ⟨hl, hr, hty, -⟩ := h
  have hfit : (l.annotate sc).value.getD op.operandTy = op.operandTy ∧
      (r.annotate sc).value.getD op.operandTy = op.operandTy := by
    by_contra hne
    simp only [← @beq_iff_eq Ty, ← Bool.and_eq_true] at hne
    simp [binaryTy, hne, Problem.severity] at hty
  refine ⟨placed_of_expect hl rfl fun t ht => ?_, placed_of_expect hr rfl fun t ht => ?_⟩
  · simpa [ht] using hfit.1
  · simpa [ht] using hfit.2

theorem placed_of_wantInt {problem : Ty → Problem} {span : Span}
    (hproblem : ∀ t, (problem t).severity = .error)
    (h : Hold H (e.expect .int (e.annotate sc)).notes)
    (hint : Hold H (wantInt problem span (e.annotate sc).value).notes) :
    e.Placed sc H (· = .int) := by
  refine placed_of_expect h rfl fun t ht => ?_
  simpa [ht, wantInt, hproblem] using hint

theorem placed_newArray (h : Hold H ((newArray n e).annotate sc).notes) :
    e.Placed sc H (· = .int) := by
  simp only [annotate, Noted.notes_bind, hold_append, value_expect] at h
  exact placed_of_wantInt (fun _ => rfl) h.1 h.2.1

theorem required_length (h : Hold H ((length n e).annotate sc).notes) :
    e.Required sc H (·.isArray = true) := by
  simp only [annotate, Noted.notes_bind, hold_append] at h
  obtain ⟨he, hlength, -⟩ := h
  refine ⟨he, fun t ht => ?_, fun hnone => ?_⟩
  · simpa [ht, lengthTy, Problem.severity] using hlength
  · simp only [hnone, lengthTy, Noted.notes_bind, hold_append] at hlength
    exact strip_ne_call_of_needType hlength.1

theorem required_index {a i : Expr} (h : Hold H ((index n a i).annotate sc).notes) :
    a.Required sc H (fun t => ∃ element, t = .array element) ∧ i.Placed sc H (· = .int) := by
  simp only [annotate, Noted.notes_bind, hold_append, value_expect] at h
  obtain ⟨ha, hi, hint, hindex, -⟩ := h
  refine ⟨⟨ha, fun t ht => ?_, fun hnone => ?_⟩, placed_of_wantInt (fun _ => rfl) hi hint⟩
  all_goals rcases indexTy_cases hindex with ⟨element, hsome, -⟩ | ⟨hnone, hcall⟩
  · exact ⟨element, Option.some.inj (ht.symm.trans hsome)⟩
  · rw [hnone] at ht
    cases ht
  · rw [hsome] at hnone
    cases hnone
  · exact hcall

theorem placed_paren (h : (paren n e).Placed sc H P) : e.Placed sc H P := by
  obtain ⟨hnotes, hown, htaken⟩ := h
  rw [annotate, Noted.value_bind, value_settle] at hown htaken
  rw [annotate, Noted.notes_bind, hold_append] at hnotes
  refine ⟨hnotes.1, hown, fun hnone => ?_⟩
  rcases htaken hnone with ⟨t, ht, hadopt⟩ | hcall
  · simp only [adopt, Noted.notes_bind, hold_append] at hadopt
    exact .inl ⟨t, ht, hadopt.1⟩
  · exact .inr hcall

end

/-! ## Calls -/

theorem placed_of_unknownArgs {args : List Expr}
    (h : Hold H (unknownArgs (annotateEach sc args)).notes) :
    ∀ a ∈ args, a.Placed sc H fun _ => True := by
  rw [unknownArgs, annotateEach_eq_map, List.map_map, Noted.hold_all] at h
  intro a ha
  have hexpect := h _ (List.mem_map_of_mem ha)
  simp only [Function.comp, Noted.notes_bind, Noted.notes_pure, List.append_nil] at hexpect
  exact placed_of_expect hexpect trivial fun _ _ => trivial

theorem placed_of_knownArgs {method : String} {i : Nat} {args : List Expr} {ps : List Symbol}
    (hlen : args.length = ps.length)
    (h : Hold H (knownArgs sc method i (annotateEach sc args) ps).notes) :
    List.Forall₂ (fun a p => a.Placed sc H (sc.assignable · p.ty = true)) args ps := by
  induction args generalizing i ps with
  | nil =>
    cases ps with
    | nil => exact .nil
    | cons p ps => cases hlen
  | cons a args ih =>
    cases ps with
    | nil => cases hlen
    | cons p ps =>
      simp only [annotateEach, knownArgs, Noted.notes_bind, hold_append, value_expect] at h
      obtain ⟨ha, hrest⟩ := h
      -- An argument with a type of its own is compared with the parameter; one without takes its
      -- type.
      cases hty : (a.annotate sc).value with
      | some t =>
        simp only [hty, Noted.notes_bind, hold_append] at hrest
        refine .cons (placed_of_expect ha (Scope.assignable_self sc p.ty) ?_)
          (ih (Nat.succ.inj hlen) hrest.2)
        rw [hty]
        rintro _ ⟨⟩
        simpa [Problem.severity] using hrest.1
      | none =>
        simp only [hty] at hrest
        refine .cons (placed_of_expect ha (Scope.assignable_self sc p.ty) ?_)
          (ih (Nat.succ.inj hlen) hrest)
        simp [hty]

/-- Arguments of a call on an object. -/
theorem placed_of_objectCall {span : Span} {r : Expr} {m name : String} {args : List Expr}
    (h : Hold H (callTy sc span r m (annotateEach sc args) (some (.cls name))).notes) :
    (∀ a ∈ args, a.Placed sc H fun _ => True) ∧
      ∀ sig, name = sc.cls.name → sc.cls.method? m = some sig →
        List.Forall₂ (fun a p => a.Placed sc H (sc.assignable · p.ty = true)) args
          sig.params := by
  rw [callTy] at h
  split at h
  · split at h
    · next sig hsig =>
      -- A wrong number of arguments is an error, so there is nothing to show in that case.
      by_cases hlen : args.length = sig.params.length
      · simp only [annotateEach_eq_map, List.length_map, hlen, beq_self_eq_true, if_true,
          Noted.notes_bind, hold_append] at h
        rw [← annotateEach_eq_map] at h
        have hargs := placed_of_knownArgs hlen h.1
        refine ⟨?_, fun sig' _ hsig' => ?_⟩
        · exact ((List.forall₂_and_left args sig.params).1
            (hargs.imp fun a p ha => ⟨ha.mono fun _ _ => trivial, ha⟩)).1
        · obtain rfl : sig = sig' := Option.some.inj (hsig.symm.trans hsig')
          exact hargs
      · simp [annotateEach_eq_map, hlen, Problem.severity] at h
    · next hsig =>
      simp only [Noted.notes_bind, hold_append] at h
      exact ⟨placed_of_unknownArgs h.1, fun sig _ hsig' => by simp [hsig] at hsig'⟩
  · next hname =>
    simp only [Noted.notes_bind, hold_append] at h
    exact ⟨placed_of_unknownArgs h.1, fun sig heq => absurd (beq_iff_eq.2 heq) hname⟩

/-- A call goes to an object or to a class. If it is a method of the class being compiled, on an
object of that class, the arguments fit the parameters. -/
structure PlacedCall (sc : Scope) (H : Nat → Ty → Prop) (r : Expr) (m : String) (as : List Expr) :
    Prop where
  receiver : r.Required sc H fun t => ∃ c, t = .cls c
  args : ∀ a ∈ as, a.Placed sc H fun _ => True
  params : ∀ sig, (r.annotate sc).value = some sc.thisTy → sc.cls.method? m = some sig →
    List.Forall₂ (fun a p => a.Placed sc H (sc.assignable · p.ty = true)) as sig.params

theorem placed_call {n : Node} {r : Expr} {m : Located String} {args : List Expr}
    (h : Hold H ((call n r m args).annotate sc).notes) :
    PlacedCall sc H r m.node args := by
  simp only [annotate, Noted.notes_bind, hold_append] at h
  obtain ⟨hr, hcall, -⟩ := h
  cases hty : (r.annotate sc).value with
  | none =>
    simp only [hty, callTy, Noted.notes_bind, hold_append] at hcall
    refine ⟨⟨hr, by simp [hty], fun _ => ?_⟩, placed_of_unknownArgs hcall.2.1, by simp [hty]⟩
    exact strip_ne_call_of_needType hcall.1
  | some ty =>
    rw [hty] at hcall
    cases ty with
    | cls name =>
      obtain ⟨hargs, hparams⟩ := placed_of_objectCall hcall
      refine ⟨⟨hr, ?_, by simp [hty]⟩, hargs, fun sig hthis => hparams sig ?_⟩
      · rw [hty]
        rintro _ ⟨⟩
        exact ⟨name, rfl⟩
      · simpa [hty, Scope.thisTy] using hthis
    | _ => simp [callTy, Problem.severity] at hcall

/-- Each part of an expression stands in a place of its own, if the expression does more than add
parentheses. -/
theorem placed_children (h : Hold H (e.annotate sc).notes) (hparen : ∀ n d, e ≠ paren n d) :
    ∀ d ∈ e.children, d.Placed sc H fun _ => True := by
  have hany : ∀ {Q : Ty → Prop} {d : Expr}, d.Placed sc H Q → d.Placed sc H fun _ => True :=
    fun hd => hd.mono fun _ _ => trivial
  cases e with
  | int | bool | var | this | newObject => nofun
  | not n e => exact List.forall_mem_singleton.2 (hany (placed_not h))
  | newArray n e => exact List.forall_mem_singleton.2 (hany (placed_newArray h))
  | length n e => exact List.forall_mem_singleton.2 (hany (required_length h).placed)
  | paren n e => exact absurd rfl (hparen n e)
  | binary n op l r =>
    obtain ⟨hl, hr⟩ := placed_binary h
    exact List.forall_mem_cons.2 ⟨hany hl, List.forall_mem_singleton.2 (hany hr)⟩
  | index n a i =>
    obtain ⟨ha, hi⟩ := required_index h
    exact List.forall_mem_cons.2 ⟨hany ha.placed, List.forall_mem_singleton.2 (hany hi)⟩
  | call n r m args =>
    have hcall := placed_call h
    exact List.forall_mem_cons.2 ⟨hany hcall.receiver.placed, hcall.args⟩

theorem Placed.children (h : e.Placed sc H P) : ∀ d ∈ e.children, d.Placed sc H fun _ => True := by
  by_cases hparen : ∃ n d, e = paren n d
  · obtain ⟨n, d, rfl⟩ := hparen
    exact List.forall_mem_singleton.2 ((placed_paren h).mono fun _ _ => trivial)
  · push Not at hparen
    exact placed_children h.notes hparen

end Expr

/-! ## Parts of statements -/

namespace Stmt

open MiniJava.Expr

variable {sc : Scope} {H : Nat → Ty → Prop} {x : Located String} {v : Expr} {span : Span}

theorem placed_condition {keyword : String} {cond : Expr}
    (h : Hold H (condition sc keyword cond).notes) : cond.Placed sc H (· = .bool) := by
  rw [condition, Noted.notes_bind, hold_append] at h
  obtain ⟨hcond, hty⟩ := h
  split at hty
  · next hbool =>
    refine ⟨hcond, fun t ht => ?_, by simp [hbool]⟩
    exact Option.some.inj (ht.symm.trans hbool)
  · simp [Problem.severity] at hty
  · simp [Problem.severity] at hty

theorem placed_fit {expected : Ty} {fits : Ty → Bool} {problem : Ty → Problem}
    (hproblem : ∀ t, (problem t).severity = .error) (hexpected : fits expected = true)
    (h : Hold H (fit sc v expected fits problem span).notes) :
    v.Placed sc H (fits · = true) := by
  rw [fit, Noted.notes_bind, hold_append, value_expect] at h
  refine placed_of_expect h.1 hexpected fun t ht => ?_
  simpa [ht, hproblem] using h.2

/-- An assigned variable is declared. -/
theorem resolve_of_target (h : Hold H (target sc x).notes) :
    ∃ b, sc.resolve x.node = some b ∧ (target sc x).value = some b.ty := by
  rw [target] at h ⊢
  cases hb : sc.resolve x.node with
  | some b => exact ⟨b, rfl, rfl⟩
  | none => simp [hb, Problem.severity] at h

/-- What is assigned is assignable to the type that the name stands for. -/
theorem placed_assignment (h : Hold H (assignment sc span x v).notes) :
    ∃ b, sc.resolve x.node = some b ∧ v.Placed sc H (sc.assignable · b.ty = true) := by
  rw [assignment, Noted.notes_bind, hold_append] at h
  obtain ⟨htarget, hvalue⟩ := h
  obtain ⟨b, hb, hty⟩ := resolve_of_target htarget
  rw [hty] at hvalue
  exact ⟨b, hb, placed_fit (fun _ => rfl) (Scope.assignable_self sc b.ty) hvalue⟩

/-- What is stored in an array has the very type of its items. -/
theorem placed_elementAssignment {i : Expr}
    (h : Hold H (elementAssignment sc x i v).notes) :
    ∃ b element, sc.resolve x.node = some b ∧ b.ty = .array element ∧
      i.Placed sc H (· = .int) ∧ v.Placed sc H (· = element) := by
  simp only [elementAssignment, Noted.notes_bind, hold_append, value_expect] at h
  obtain ⟨htarget, hi, hint, helement, hvalue⟩ := h
  obtain ⟨b, hb, hty⟩ := resolve_of_target htarget
  rw [hty] at helement hvalue
  cases harray : b.ty with
  | array element =>
    rw [harray] at hvalue
    have hv : v.Placed sc H fun t => (t == element) = true :=
      placed_fit (fun _ => rfl) (beq_self_eq_true element) hvalue
    exact ⟨b, element, hb, harray, placed_of_wantInt (fun _ => rfl) hi hint,
      hv.mono fun _ => beq_iff_eq.1⟩
  | _ => simp [harray, elementTy, Problem.severity] at helement

theorem placed_returned (h : Hold H (returned sc span (some v)).notes) :
    sc.method.returnTy ≠ .void ∧ v.Placed sc H (sc.assignable · sc.method.returnTy = true) := by
  rw [returned] at h
  split at h
  · simp [Problem.severity] at h
  · next hvoid =>
    exact ⟨fun heq => hvoid (beq_iff_eq.2 heq),
      placed_fit (fun _ => rfl) (Scope.assignable_self sc _) h⟩

theorem returnTy_of_returned_none (h : Hold H (returned sc span none).notes) :
    sc.method.returnTy = .void := by
  simpa [returned, Problem.severity] using h

theorem hold_of_effect {e : Expr} (h : Hold H (effect sc e).notes) :
    Hold H (e.annotate sc).notes := by
  rw [effect, Noted.notes_bind, hold_append] at h
  exact h.1

theorem hold_of_annotateAll {ss : List Stmt} (h : Hold H (annotateAll sc ss).notes) :
    ∀ s ∈ ss, Hold H (s.annotate sc).notes := by
  induction ss with
  | nil => nofun
  | cons s ss ih =>
    rw [annotateAll, Noted.notes_bind, hold_append] at h
    exact List.forall_mem_cons.2 ⟨h.1, ih h.2⟩

end Stmt

end MiniJava
