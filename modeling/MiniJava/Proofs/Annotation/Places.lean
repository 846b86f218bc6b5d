import MiniJava.Proofs.Annotation.Recorded
import MiniJava.Proofs.Annotation.Rules

/-!
# The type of every place

An expression gets the type that is found for it, or else the one that its surroundings expect, or
none. `Expr.places` and `Stmt.places` list the ids of all expressions with what they get. They
follow the tree and what its parts expect of each other, so they do not depend on how expressions
are numbered. With unique ids the type map of a program agrees with them (`Program.follows_body`),
whether the program has errors or not.
-/

namespace MiniJava

/-! ## Places -/

namespace Expr

/-- What a call expects of its arguments, in order, after a look at its receiver. -/
def expectedArgs (sc : Scope) (method : String) (arity : Nat) : Option Ty → List (Option Ty)
  | some (.cls name) =>
    if name == sc.cls.name then
      match sc.cls.method? method with
      | some sig =>
        if arity == sig.params.length then sig.params.map fun p => some p.ty else []
      | none => List.replicate arity (some .int)
    else List.replicate arity (some .int)
  | some _ => []
  | none => List.replicate arity (some .int)

/-- The id of the expression with the type that it gets where `wanted` is expected. -/
def place (sc : Scope) (e : Expr) (wanted : Option Ty) : Nat × Option Ty :=
  (e.id, (e.annotate sc).value <|> wanted)

mutual

/-- The places of the expression and its parts, where `wanted` is expected of it. -/
def places (sc : Scope) : Expr → Option Ty → List (Nat × Option Ty)
  | int n v, w => [place sc (int n v) w]
  | bool n v, w => [place sc (bool n v) w]
  | var n x, w => [place sc (var n x) w]
  | this n, w => [place sc (this n) w]
  | newObject n c, w => [place sc (newObject n c) w]
  | not n e, w => place sc (not n e) w :: e.places sc (some .bool)
  | binary n op l r, w =>
    place sc (binary n op l r) w ::
      (l.places sc (some op.operandTy) ++ r.places sc (some op.operandTy))
  | call n r m args, w =>
    place sc (call n r m args) w :: (r.places sc none ++
      placesAll sc args (expectedArgs sc m.node args.length (r.annotate sc).value))
  | newArray n e, w => place sc (newArray n e) w :: e.places sc (some .int)
  | length n a, w => place sc (length n a) w :: a.places sc none
  | index n a i, w => place sc (index n a i) w :: (a.places sc none ++ i.places sc (some .int))
  | paren n e, w => place sc (paren n e) w :: e.places sc w

/-- The places of several expressions. Where the list of what is expected ends, nothing is. -/
def placesAll (sc : Scope) : List Expr → List (Option Ty) → List (Nat × Option Ty)
  | [], _ => []
  | e :: es, ws => e.places sc (ws.headD none) ++ placesAll sc es ws.tail

end

theorem map_fst_placesAll {sc : Scope} {es : List Expr} {ws : List (Option Ty)}
    (h : ∀ e ∈ es, ∀ w, (e.places sc w).map Prod.fst = ids [e]) :
    (placesAll sc es ws).map Prod.fst = ids es := by
  induction es generalizing ws with
  | nil => rfl
  | cons e es ih =>
    rw [List.forall_mem_cons] at h
    rw [placesAll, List.map_append, h.1, ih h.2, ← ids_append, List.singleton_append]

/-- Every expression has its place. -/
theorem map_fst_places (sc : Scope) (e : Expr) (w : Option Ty) :
    (e.places sc w).map Prod.fst = ids [e] := by
  induction e using Expr.induction generalizing w with
  | int | bool | var | this | newObject => rfl
  | not n e ih | newArray n e ih | length n e ih | paren n e ih =>
    rw [ids_cons, places, List.map_cons, ih]
    rfl
  | binary n op l r ihl ihr | index n l r ihl ihr =>
    rw [ids_cons, places, List.map_cons, List.map_append, ihl, ihr, ← ids_append]
    rfl
  | call n r m args ihr ihargs =>
    rw [ids_cons, places, List.map_cons, List.map_append, ihr,
      map_fst_placesAll ihargs, ← ids_append]
    simp [children, place, id, node]

end Expr

namespace Stmt

open MiniJava.Expr (ids ids_append)

/-- What an expression that stands as a statement is expected to be. -/
def effectTy : Expr → Option Ty
  | .call .. => some .void
  | _ => none

/-- What is expected of a value that is assigned to the variable. -/
def targetTy (sc : Scope) (x : Located String) : Option Ty := (sc.resolve x.node).map Binding.ty

/-- What is expected of a value that is stored in the array. -/
def itemTy? (sc : Scope) (x : Located String) : Option Ty :=
  match targetTy sc x with
  | some (.array element) => some element
  | _ => none

/-- What is expected of a value that is returned. -/
def returnedTy (sc : Scope) : Option Ty :=
  if sc.method.returnTy == .void then none else some sc.method.returnTy

mutual

/-- The places of all expressions of the statement. -/
def places (sc : Scope) : Stmt → List (Nat × Option Ty)
  | varDecl .. => []
  | block _ body => placesAll sc body
  | ifThen _ c t => c.places sc none ++ t.places sc
  | ifElse _ c t e => c.places sc none ++ (t.places sc ++ e.places sc)
  | whileLoop _ c b => c.places sc none ++ b.places sc
  | expr _ e => e.places sc (effectTy e)
  | assign _ x v => v.places sc (targetTy sc x)
  | arrayAssign _ x i v => i.places sc (some .int) ++ v.places sc (itemTy? sc x)
  | ret _ none => []
  | ret _ (some v) => v.places sc (returnedTy sc)

def placesAll (sc : Scope) : List Stmt → List (Nat × Option Ty)
  | [] => []
  | s :: ss => s.places sc ++ placesAll sc ss

end

theorem map_fst_placesAll_of {sc : Scope} {ss : List Stmt}
    (h : ∀ s ∈ ss, (s.places sc).map Prod.fst = ids s.roots) :
    (placesAll sc ss).map Prod.fst = ids (rootsAll ss) := by
  induction ss with
  | nil => rfl
  | cons s ss ih =>
    rw [List.forall_mem_cons] at h
    rw [placesAll, rootsAll, List.map_append, h.1, ih h.2, ids_append]

theorem map_fst_places (sc : Scope) (s : Stmt) : (s.places sc).map Prod.fst = ids s.roots := by
  induction s using Stmt.induction with
  | varDecl sp d => rfl
  | block sp body ih => exact map_fst_placesAll_of ih
  | ifThen sp c t ih | whileLoop sp c t ih =>
    rw [places, roots, List.map_append, c.map_fst_places, ih, ← ids_append, List.singleton_append]
  | ifElse sp c t e iht ihe =>
    rw [places, roots, List.map_append, List.map_append, c.map_fst_places, iht, ihe, ← ids_append,
      ← ids_append, List.singleton_append]
  | expr sp e => exact e.map_fst_places sc _
  | assign sp x v => exact v.map_fst_places sc _
  | arrayAssign sp x i v =>
    rw [places, roots, List.map_append, i.map_fst_places, v.map_fst_places, ← ids_append,
      List.singleton_append]
  | ret sp v =>
    cases v with
    | none => rfl
    | some v => exact v.map_fst_places sc _

end Stmt

/-! ## What the notes say about places -/

/-- The id and the type of the expression that the note is about. -/
def Note.typing? : Note → Option (Nat × Ty)
  | typed id ty | adopted id ty => some (id, ty)
  | report .. => none

/-- The types that the notes give to expressions. -/
def typings (notes : List Note) : List (Nat × Ty) := notes.filterMap Note.typing?

@[simp] theorem typings_nil : typings [] = [] := rfl

@[simp] theorem typings_append (a b : List Note) : typings (a ++ b) = typings a ++ typings b :=
  List.filterMap_append

theorem mem_typings_cons {n : Note} {notes : List Note} {q : Nat × Ty} :
    q ∈ typings (n :: notes) ↔ n.typing? = some q ∨ q ∈ typings notes := by
  simp [typings, List.mem_filterMap]

@[simp] theorem typings_typed (id : Nat) (ty : Ty) :
    typings (Noted.note (.typed id ty)).notes = [(id, ty)] := rfl

@[simp] theorem typings_adopted (id : Nat) (ty : Ty) :
    typings (Noted.note (.adopted id ty)).notes = [(id, ty)] := rfl

/-- Notes that are about no expression give no types. -/
theorem typings_eq_nil {notes : List Note} (h : ∀ i, noted i notes = 0) : typings notes = [] := by
  rw [typings, List.filterMap_eq_nil_iff]
  intro n hn
  have habout : ∀ i, ¬n.isAbout i = true := fun i => List.countP_eq_zero.1 (h i) n hn
  cases n with
  | typed id ty | adopted id ty => exact absurd (beq_self_eq_true id) (habout id)
  | report p span => rfl

@[simp] theorem typings_report (p : Problem) (span : Span) :
    typings (Noted.report p span).notes = [] := rfl

@[simp] theorem typings_reportIf (b : Bool) (p : Problem) (span : Span) :
    typings (Noted.reportIf b p span).notes = [] :=
  typings_eq_nil fun _ => Noted.noted_reportIf ..

namespace Expr

variable {sc : Scope} {i : Nat} {ty : Ty}

@[simp] theorem typings_wantInt (problem : Ty → Problem) (span : Span) (found : Option Ty) :
    typings (wantInt problem span found).notes = [] :=
  typings_eq_nil fun _ => noted_wantInt ..

@[simp] theorem typings_varTy (x : String) (span : Span) : typings (varTy sc x span).notes = [] :=
  typings_eq_nil fun _ => noted_varTy ..

@[simp] theorem typings_notTy (span : Span) (found : Option Ty) :
    typings (notTy span found).notes = [] :=
  typings_eq_nil fun _ => noted_notTy ..

@[simp] theorem typings_binaryTy (span : Span) (op : BinOp) (left right : Option Ty) :
    typings (binaryTy span op left right).notes = [] :=
  typings_eq_nil fun _ => noted_binaryTy ..

@[simp] theorem typings_lengthTy (array : Expr) (found : Option Ty) :
    typings (lengthTy array found).notes = [] :=
  typings_eq_nil fun _ => noted_lengthTy ..

@[simp] theorem typings_indexTy (array : Expr) (found : Option Ty) :
    typings (indexTy array found).notes = [] :=
  typings_eq_nil fun _ => noted_indexTy ..

/-- The notes on an expression where `wanted` is expected. -/
def annotateIn (sc : Scope) (e : Expr) : Option Ty → Noted (Option Ty)
  | some ty => e.expect ty (e.annotate sc)
  | none => e.annotate sc

@[simp] theorem value_annotateIn (e : Expr) (w : Option Ty) :
    (e.annotateIn sc w).value = (e.annotate sc).value := by
  cases w <;> simp [annotateIn]

theorem typings_annotateIn (e : Expr) (w : Option Ty) :
    typings (e.annotateIn sc w).notes = typings (e.annotate sc).notes ++
      match (e.annotate sc).value, w with
      | none, some ty => typings (e.adopt ty).notes
      | _, _ => [] := by
  cases w with
  | none => cases (e.annotate sc).value <;> simp [annotateIn]
  | some ty =>
    rw [annotateIn, expect, Noted.notes_bind, typings_append]
    cases (e.annotate sc).value <;> simp

theorem typings_settle (n : Node) (found : Option Ty) :
    typings (settle n found).notes = found.toList.map (n.id, ·) := by
  cases found <;> simp [settle]

/-- The types that are given in a place: one to the expression itself if it has found or takes one,
and those given to its parts. -/
theorem mem_typings_node {e : Expr} {w : Option Ty} (parts : List (Nat × Ty))
    (he : ∀ n d, e ≠ paren n d)
    (hnotes : typings (e.annotate sc).notes =
      parts ++ (e.annotate sc).value.toList.map (e.id, ·)) :
    (i, ty) ∈ typings (e.annotateIn sc w).notes ↔ (i, some ty) = place sc e w ∨
      (i, ty) ∈ parts := by
  have hadopt : ∀ t, typings (e.adopt t).notes = [(e.id, t)] := by
    intro t
    cases e with
    | paren n d => exact absurd rfl (he n d)
    | _ => rfl
  rw [typings_annotateIn, hnotes, place]
  cases (e.annotate sc).value with
  | some t => simp [or_comm]
  | none => cases w <;> simp [hadopt, or_comm, eq_comm]

theorem mem_typings_all {args : List Expr} {w : Option Ty}
    {f : Expr × Noted (Option Ty) → Noted Unit}
    (hf : ∀ a ∈ args, (f (a, a.annotate sc)).notes = (a.annotateIn sc w).notes)
    (h : ∀ a ∈ args, ∀ w, (i, ty) ∈ typings (a.annotateIn sc w).notes ↔
      (i, some ty) ∈ a.places sc w)
    {ws : List (Option Ty)} (hws : ∀ k < args.length, ws.getD k none = w) :
    (i, ty) ∈ typings (Noted.all ((annotateEach sc args).map f)).notes ↔
      (i, some ty) ∈ placesAll sc args ws := by
  induction args generalizing ws with
  | nil => simp [annotateEach, Noted.all, placesAll]
  | cons a args ih =>
    rw [List.forall_mem_cons] at hf h
    have hhead : ws.headD none = w := by
      have h0 := hws 0 (Nat.zero_lt_succ _)
      cases ws <;> simpa using h0
    have htail : ∀ k < args.length, ws.tail.getD k none = w := by
      intro k hk
      have hk := hws (k + 1) (Nat.succ_lt_succ hk)
      cases ws <;> simpa using hk
    simp only [annotateEach, List.map_cons, Noted.all, Noted.notes_bind, typings_append,
      List.mem_append, placesAll]
    rw [hf.1, h.1, ih hf.2 h.2 htail, hhead]

theorem mem_typings_knownArgs {args : List Expr} {method : String} {k : Nat} {ps : List Symbol}
    (hlen : args.length = ps.length)
    (h : ∀ a ∈ args, ∀ w, (i, ty) ∈ typings (a.annotateIn sc w).notes ↔
      (i, some ty) ∈ a.places sc w) :
    (i, ty) ∈ typings (knownArgs sc method k (annotateEach sc args) ps).notes ↔
      (i, some ty) ∈ placesAll sc args (ps.map fun p => some p.ty) := by
  induction args generalizing k ps with
  | nil => simp [annotateEach, knownArgs, placesAll]
  | cons a args ih =>
    cases ps with
    | nil => cases hlen
    | cons p ps =>
      rw [List.forall_mem_cons] at h
      have hhead := h.1 (some p.ty)
      have hrest := @ih (k + 1) ps (Nat.succ.inj hlen) h.2
      rw [annotateIn] at hhead
      simp only [annotateEach, knownArgs, Noted.notes_bind, typings_append,
        List.mem_append, placesAll, List.map_cons, List.headD_cons, List.tail_cons, hhead]
      split
      · simp only [Noted.notes_bind, typings_append, typings_reportIf, List.nil_append, hrest]
      · rw [hrest]

/-- The arguments of a call get the types that the call expects of them. -/
theorem mem_typings_callTy {args : List Expr} {span : Span} {r : Expr} {method : String}
    (h : ∀ a ∈ args, ∀ w, (i, ty) ∈ typings (a.annotateIn sc w).notes ↔
      (i, some ty) ∈ a.places sc w)
    (found : Option Ty) :
    (i, ty) ∈ typings (callTy sc span r method (annotateEach sc args) found).notes ↔
      (i, some ty) ∈ placesAll sc args (expectedArgs sc method args.length found) := by
  have hfree : (i, ty) ∈ typings (freeArgs (annotateEach sc args)).notes ↔
      (i, some ty) ∈ placesAll sc args [] := by
    refine mem_typings_all (w := none) (fun a _ => ?_) h (fun _ _ => rfl)
    simp [annotateIn]
  have hunknown : (i, ty) ∈ typings (unknownArgs (annotateEach sc args)).notes ↔
      (i, some ty) ∈ placesAll sc args (List.replicate args.length (some .int)) := by
    refine mem_typings_all (w := some .int) (fun a _ => ?_) h (fun k hk => ?_)
    · simp [annotateIn]
    · simp [List.getD_eq_getElem?_getD, hk]
  -- What the arguments are expected to be depends on how much is known of the method: its
  -- parameters, nothing at all, or that the call is an error.
  unfold callTy
  split
  · next name =>
    by_cases hname : name = sc.cls.name
    · cases hsig : sc.cls.method? method with
      | some sig =>
        by_cases hlen : args.length = sig.params.length
        · simpa [expectedArgs, hname, hsig, hlen, length_annotateEach] using
            mem_typings_knownArgs hlen h
        · simpa [expectedArgs, hname, hsig, hlen, length_annotateEach] using hfree
      | none => simpa [expectedArgs, hname, hsig] using hunknown
    · simpa [expectedArgs, hname] using hunknown
  · simpa [expectedArgs] using hfree
  · have hneed : typings (r.needType "call receiver").notes = [] :=
      typings_eq_nil fun _ => noted_needType ..
    simpa [expectedArgs, hneed] using hunknown

/-- The types that are given to an expression and its parts are those of their places. -/
theorem mem_typings_places (e : Expr) (w : Option Ty) :
    (i, ty) ∈ typings (e.annotateIn sc w).notes ↔ (i, some ty) ∈ e.places sc w := by
  induction e using Expr.induction generalizing w with
  | int | bool | var | this | newObject =>
    rw [mem_typings_node [] (by simp) (by simp [annotate, typings_settle, id, node])]
    simp [places]
  | not n e ih =>
    rw [mem_typings_node (typings (e.annotateIn sc (some .bool)).notes) (by simp)
      (by simp [annotate, annotateIn, typings_settle, id, node])]
    simp [places, ih]
  | newArray n e ih =>
    rw [mem_typings_node (typings (e.annotateIn sc (some .int)).notes) (by simp)
      (by simp [annotate, annotateIn, typings_settle, id, node])]
    simp [places, ih]
  | length n a ih =>
    rw [mem_typings_node (typings (a.annotateIn sc none).notes) (by simp)
      (by simp [annotate, annotateIn, typings_settle, id, node])]
    simp [places, ih]
  | binary n op l r ihl ihr =>
    rw [mem_typings_node (typings (l.annotateIn sc (some op.operandTy)).notes ++
        typings (r.annotateIn sc (some op.operandTy)).notes) (by simp)
      (by simp [annotate, annotateIn, typings_settle, id, node])]
    simp [places, ihl, ihr]
  | index n a j iha ihj =>
    rw [mem_typings_node (typings (a.annotateIn sc none).notes ++
        typings (j.annotateIn sc (some .int)).notes) (by simp)
      (by simp [annotate, annotateIn, typings_settle, id, node])]
    simp [places, iha, ihj]
  | call n r m args ihr ihargs =>
    rw [mem_typings_node (typings (r.annotateIn sc none).notes ++ typings (callTy sc n.span r
        m.node (annotateEach sc args) (r.annotate sc).value).notes) (by simp)
      (by simp [annotate, annotateIn, typings_settle, id, node])]
    simp [places, ihr, mem_typings_callTy ihargs]
  | paren n e ih =>
    -- The parentheses take a type exactly if what is inside takes it.
    have hinner := ih w
    rw [typings_annotateIn] at hinner ⊢
    simp only [annotate, Noted.notes_bind, Noted.value_bind, value_settle, typings_append,
      typings_settle, List.mem_append, places, List.mem_cons] at hinner ⊢
    rw [← hinner]
    cases hvalue : (e.annotate sc).value with
    | some t => simp [hvalue, place, annotate, id, node, or_comm]
    | none =>
      cases w with
      | none => simp [hvalue, place, annotate, id, node]
      | some t =>
        simp only [place, annotate, id, node, adopt, Noted.notes_bind, typings_append,
          typings_adopted, Noted.value_bind, value_settle, hvalue]
        simp
        grind

theorem mem_typings_annotate (e : Expr) :
    (i, ty) ∈ typings (e.annotate sc).notes ↔ (i, some ty) ∈ e.places sc none :=
  e.mem_typings_places none

end Expr

namespace Stmt

open MiniJava.Expr

variable {sc : Scope} {i : Nat} {ty : Ty}

theorem mem_typings_condition (keyword : String) (c : Expr) :
    (i, ty) ∈ typings (condition sc keyword c).notes ↔ (i, some ty) ∈ c.places sc none := by
  rw [← mem_typings_places c none, annotateIn, condition, Noted.notes_bind, typings_append]
  split <;> simp

@[simp] theorem typings_target (x : Located String) : typings (target sc x).notes = [] :=
  typings_eq_nil fun _ => noted_target ..

@[simp] theorem typings_elementTy (x : Located String) (found : Option Ty) :
    typings (elementTy x found).notes = [] :=
  typings_eq_nil fun _ => noted_elementTy ..

theorem value_target (x : Located String) : (target sc x).value = targetTy sc x := by
  rw [target, targetTy]
  cases sc.resolve x.node <;> rfl

theorem mem_typings_fit (v : Expr) (expected : Ty) (fits : Ty → Bool) (problem : Ty → Problem)
    (span : Span) : (i, ty) ∈ typings (fit sc v expected fits problem span).notes ↔
      (i, some ty) ∈ v.places sc (some expected) := by
  rw [← mem_typings_places v, annotateIn, fit, Noted.notes_bind, typings_append]
  split <;> simp

theorem mem_typings_effect (e : Expr) :
    (i, ty) ∈ typings (effect sc e).notes ↔ (i, some ty) ∈ e.places sc (effectTy e) := by
  rw [← mem_typings_places e, typings_annotateIn, effect, Noted.notes_bind, typings_append]
  cases (e.annotate sc).value <;> cases e <;> simp [effectTy]

theorem mem_typings_elementAssignment (x : Located String) (j v : Expr) :
    (i, ty) ∈ typings (elementAssignment sc x j v).notes ↔
      (i, some ty) ∈ j.places sc (some .int) ++ v.places sc (itemTy? sc x) := by
  have hj : (i, ty) ∈ typings (j.expect .int (j.annotate sc)).notes ↔
      (i, some ty) ∈ j.places sc (some .int) := mem_typings_places j (some .int)
  have helement : (elementTy x (targetTy sc x)).value = itemTy? sc x := by
    rw [itemTy?]
    cases targetTy sc x with
    | none => rfl
    | some t => cases t <;> rfl
  simp only [elementAssignment, Noted.notes_bind, typings_append, typings_target, typings_wantInt,
    typings_elementTy, List.nil_append, List.mem_append, value_target, helement, hj]
  cases itemTy? sc x with
  | none => simpa using or_congr_right (mem_typings_annotate v)
  | some element => exact or_congr_right (mem_typings_fit ..)

theorem mem_typings_returned (span : Span) (v : Expr) :
    (i, ty) ∈ typings (returned sc span (some v)).notes ↔
      (i, some ty) ∈ v.places sc (returnedTy sc) := by
  rw [returned, returnedTy]
  split
  · simpa using mem_typings_annotate v
  · exact mem_typings_fit ..

theorem mem_typings_annotateAll_of {ss : List Stmt}
    (h : ∀ s ∈ ss, (i, ty) ∈ typings (s.annotate sc).notes ↔ (i, some ty) ∈ s.places sc) :
    (i, ty) ∈ typings (annotateAll sc ss).notes ↔ (i, some ty) ∈ placesAll sc ss := by
  induction ss with
  | nil => simp [annotateAll, placesAll]
  | cons s ss ih =>
    rw [List.forall_mem_cons] at h
    rw [annotateAll, placesAll, Noted.notes_bind, typings_append, List.mem_append,
      List.mem_append, h.1, ih h.2]

/-- The types that are given in a statement are those of its places. -/
theorem mem_typings_places (s : Stmt) :
    (i, ty) ∈ typings (s.annotate sc).notes ↔ (i, some ty) ∈ s.places sc := by
  induction s using Stmt.induction with
  | varDecl sp d => simp [annotate, places]
  | block sp body ih => exact mem_typings_annotateAll_of ih
  | ifThen sp c t ih | whileLoop sp c t ih =>
    rw [annotate, places, Noted.notes_bind, typings_append, List.mem_append, List.mem_append,
      mem_typings_condition, ih]
  | ifElse sp c t e iht ihe =>
    simp only [annotate, places, Noted.notes_bind, typings_append, List.mem_append,
      mem_typings_condition, iht, ihe]
  | expr sp e => exact mem_typings_effect e
  | assign sp x v =>
    rw [annotate, places, assignment, Noted.notes_bind, typings_append,
      typings_target, value_target, List.nil_append]
    cases targetTy sc x with
    | none => simpa using mem_typings_annotate v
    | some t => exact mem_typings_fit ..
  | arrayAssign sp x j v => exact mem_typings_elementAssignment x j v
  | ret sp v =>
    cases v with
    | none => simp [annotate, places, returned]
    | some v => exact mem_typings_returned sp v

end Stmt

/-! ## The type map -/

namespace TypeMap

/-- The types are those of the places. -/
def Follows (types : TypeMap) (places : List (Nat × Option Ty)) : Prop :=
  ∀ q ∈ places, types.get? q.1 = q.2

theorem typing?_of_get?_record {m : TypeMap} {n : Note} {i : Nat} {ty : Ty}
    (h : (m.record n).get? i = some ty) : m.get? i = some ty ∨ n.typing? = some (i, ty) := by
  cases n with
  | typed k t =>
    rw [record, get?_insert] at h
    split at h
    · next heq => exact .inr (by rw [Note.typing?, heq, Option.some.inj h])
    · exact .inl h
  | adopted k t =>
    rw [record, insertIfNew] at h
    split at h
    · exact .inl h
    · rw [get?_insert] at h
      split at h
      · next heq => exact .inr (by rw [Note.typing?, heq, Option.some.inj h])
      · exact .inl h
  | report p span => exact .inl h

theorem isSome_record_of_typing? {n : Note} {i : Nat} {ty : Ty} (h : n.typing? = some (i, ty))
    (m : TypeMap) : ((m.record n).get? i).isSome = true := by
  cases n with
  | typed k t =>
    cases h
    simp [record, get?_insert]
  | adopted k t =>
    cases h
    rw [record, insertIfNew]
    split
    · next hk => simp [hk]
    · simp [get?_insert]
  | report p span => cases h

theorem mem_typings_of_get?_foldl {notes : List Note} {m : TypeMap} {i : Nat} {ty : Ty}
    (h : (notes.foldl record m).get? i = some ty) :
    m.get? i = some ty ∨ (i, ty) ∈ typings notes := by
  induction notes generalizing m with
  | nil => exact .inl h
  | cons n notes ih =>
    rw [mem_typings_cons]
    rcases ih h with hrecord | hmem
    · rcases typing?_of_get?_record hrecord with hm | hn
      · exact .inl hm
      · exact .inr (.inl hn)
    · exact .inr (.inr hmem)

/-- What is noted has a type from then on. -/
theorem isSome_get?_foldl {notes : List Note} {m : TypeMap} {i : Nat} {ty : Ty}
    (h : (m.get? i).isSome = true ∨ (i, ty) ∈ typings notes) :
    ((notes.foldl record m).get? i).isSome = true := by
  induction notes generalizing m with
  | nil => simpa using h
  | cons n notes ih =>
    rw [mem_typings_cons] at h
    apply ih
    rcases h with hm | hn | hmem
    · exact .inl (isSome_record hm n)
    · exact .inl (isSome_record_of_typing? hn m)
    · exact .inr hmem

/-- If the notes say of each place what it gets, and no id has two places, then the types that are
read off the notes are those of the places. -/
theorem follows_ofNotes {notes : List Note} {places : List (Nat × Option Ty)}
    (hnotes : ∀ i ty, (i, ty) ∈ typings notes ↔ (i, some ty) ∈ places)
    (hunique : (places.map Prod.fst).Nodup) : (ofNotes notes).Follows places := by
  intro q hq
  cases hget : (ofNotes notes).get? q.1 with
  | some ty =>
    have hmem : (q.1, ty) ∈ typings notes :=
      (mem_typings_of_get?_foldl hget).resolve_left fun hempty => by cases hempty
    have hplace : (q.1, some ty) ∈ places := (hnotes q.1 ty).1 hmem
    rw [List.inj_on_of_nodup_map hunique hq hplace rfl]
  | none =>
    cases hq2 : q.2 with
    | none => rfl
    | some ty =>
      have hmem : (q.1, ty) ∈ typings notes := (hnotes q.1 ty).2 (by rw [← hq2]; exact hq)
      have hsome : ((ofNotes notes).get? q.1).isSome = true := isSome_get?_foldl (.inr hmem)
      rw [hget] at hsome
      cases hsome

end TypeMap

/-! ## Programs -/

/-- The places of a method, if its symbols are found. -/
def MethodDecl.places (table : SymbolTable) (cls : ClassSymbols) (d : MethodDecl) :
    List (Nat × Option Ty) :=
  match cls.method? d.name.node with
  | none => []
  | some method => Stmt.placesAll (d.scope table cls method) d.body

def ClassDecl.places (table : SymbolTable) (d : ClassDecl) : List (Nat × Option Ty) :=
  match table.class? d.name.node with
  | none => []
  | some cls => d.methods.flatMap (MethodDecl.places table cls)

def Program.places (p : Program) (table : SymbolTable) : List (Nat × Option Ty) :=
  p.classes.flatMap (ClassDecl.places table)

theorem mem_typings_flatMap {α : Type} {l : List α} {f : α → List Note}
    {g : α → List (Nat × Option Ty)} {i : Nat} {ty : Ty}
    (h : ∀ a ∈ l, (i, ty) ∈ typings (f a) ↔ (i, some ty) ∈ g a) :
    (i, ty) ∈ typings (l.flatMap f) ↔ (i, some ty) ∈ l.flatMap g := by
  induction l with
  | nil => simp
  | cons a l ih =>
    rw [List.forall_mem_cons] at h
    rw [List.flatMap_cons, List.flatMap_cons, typings_append, List.mem_append, List.mem_append, h.1,
      ih h.2]

theorem MethodDecl.mem_typings_places {table : SymbolTable} {cls : ClassSymbols} {i : Nat} {ty : Ty}
    (d : MethodDecl) :
    (i, ty) ∈ typings (d.annotate table cls) ↔ (i, some ty) ∈ d.places table cls := by
  unfold annotate places
  cases cls.method? d.name.node with
  | none => simp [typings, Note.typing?]
  | some method =>
    have hbody : (i, ty) ∈ typings (Stmt.annotateAll (d.scope table cls method) d.body).notes ↔
        (i, some ty) ∈ Stmt.placesAll (d.scope table cls method) d.body :=
      Stmt.mem_typings_annotateAll_of fun s _ => s.mem_typings_places
    dsimp only
    rw [typings_append, ← hbody]
    split <;> simp [typings, Note.typing?, MethodDecl.scope]

namespace Program

variable {p : Program} {table : SymbolTable}

theorem mem_typings_places {i : Nat} {ty : Ty} :
    (i, ty) ∈ typings (p.notes table) ↔ (i, some ty) ∈ p.places table := by
  have hunused : typings p.unusedImports = [] := typings_eq_nil fun _ => p.noted_unusedImports
  rw [notes, typings_append, hunused, List.append_nil, places]
  refine mem_typings_flatMap fun d _ => ?_
  unfold ClassDecl.annotate ClassDecl.places
  cases table.class? d.name.node with
  | none => simp [typings, Note.typing?]
  | some cls => exact mem_typings_flatMap fun md _ => md.mem_typings_places

theorem map_fst_flatMap_sublist {α : Type} {l : List α} {f : α → List (Nat × Option Ty)}
    {g : α → List Expr} (h : ∀ a ∈ l, ((f a).map Prod.fst).Sublist (Expr.ids (g a))) :
    ((l.flatMap f).map Prod.fst).Sublist (Expr.ids (l.flatMap g)) := by
  induction l with
  | nil => exact .slnil
  | cons a l ih =>
    rw [List.forall_mem_cons] at h
    rw [List.flatMap_cons, List.flatMap_cons, List.map_append, Expr.ids_append]
    exact h.1.append (ih h.2)

/-- No expression has two places. -/
theorem map_fst_places_sublist :
    ((p.places table).map Prod.fst).Sublist (Expr.ids (p.statements.flatMap Stmt.roots)) := by
  simp only [statements, List.flatMap_assoc]
  refine map_fst_flatMap_sublist fun d _ => ?_
  unfold ClassDecl.places
  split
  · exact List.nil_sublist _
  · refine map_fst_flatMap_sublist fun md _ => ?_
    rw [← Stmt.rootsAll_eq_flatMap]
    unfold MethodDecl.places
    split
    · exact List.nil_sublist _
    · rw [Stmt.map_fst_placesAll_of fun s _ => s.map_fst_places _]

/-- With unique ids, the types found for a program are those of the places in its methods. -/
theorem follows_body (hids : p.uniqueIds = true) {d : ClassDecl} (hd : d ∈ p.classes)
    {cls : ClassSymbols} (hcls : table.class? d.name.node = some cls) {md : MethodDecl}
    (hmd : md ∈ d.methods) {method : MethodSymbols}
    (hmethod : cls.method? md.name.node = some method) :
    (p.annotate table).types.Follows (Stmt.placesAll (md.scope table cls method) md.body) := by
  have hfollows : (p.annotate table).types.Follows (p.places table) :=
    TypeMap.follows_ofNotes (fun _ _ => mem_typings_places)
      (map_fst_places_sublist.nodup (uniqueIds_iff_nodup.1 hids))
  intro q hq
  refine hfollows q (List.mem_flatMap.2 ⟨d, hd, ?_⟩)
  rw [ClassDecl.places, hcls]
  refine List.mem_flatMap.2 ⟨md, hmd, ?_⟩
  rw [MethodDecl.places, hmethod]
  exact hq

end Program

end MiniJava
