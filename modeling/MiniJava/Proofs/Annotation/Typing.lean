import MiniJava.Proofs.Annotation.Positions

/-!
# Which expressions have a type

In an accepted program every type that was noted is in the type map and no note is an error
(`Program.upheld_body`). From that follows which expressions have a type: all that found one of
their own, and all that stand where one is wanted (`Expr.Placed.settled`). What is left are bare
class names, calls at the top of a statement, and items of something that has no type itself
(`Expr.cases_of_untyped`).
-/

namespace MiniJava

/-! ## The type map -/

namespace TypeMap

theorem lookup_entry (j k : Nat) (t : Ty) (rest : List (Nat × Ty)) :
    ((j, t) :: rest).lookup k = if k = j then some t else rest.lookup k := by
  rw [List.lookup_cons]
  cases hkj : k == j with
  | true => rw [if_pos (beq_iff_eq.1 hkj)]
  | false => rw [if_neg (beq_eq_false_iff_ne.1 hkj)]

theorem lookup_put (id : Nat) (ty : Ty) (entries : List (Nat × Ty)) (k : Nat) :
    (put id ty entries).lookup k = if k = id then some ty else entries.lookup k := by
  induction entries with
  | nil => rw [put, lookup_entry]
  | cons entry rest ih =>
    obtain ⟨j, t⟩ := entry
    rw [put]
    split
    · rw [lookup_entry]
    · split
      · next heq =>
        subst heq
        rw [lookup_entry, lookup_entry]
        grind
      · rw [lookup_entry, lookup_entry, ih]
        grind

theorem get?_insert (m : TypeMap) (id : Nat) (ty : Ty) (k : Nat) :
    (m.insert id ty).get? k = if k = id then some ty else m.get? k :=
  lookup_put id ty m.entries k

/-- The map after a note. -/
def record (m : TypeMap) : Note → TypeMap
  | .typed id ty => m.insert id ty
  | .adopted id ty => m.insertIfNew id ty
  | .report .. => m

end TypeMap

/-- What the note says holds by the types: the expression has a type, and a report is not an
error. -/
def Note.Upheld (types : TypeMap) : Note → Prop
  | .typed id _ | .adopted id _ => (types.get? id).isSome = true
  | .report p _ => p.severity ≠ .error

/-- Everything that the notes say holds by the types. -/
def Upheld (types : TypeMap) (notes : List Note) : Prop := ∀ n ∈ notes, n.Upheld types

/-- The expression with this id has a type, whichever. -/
def TypeMap.Knows (types : TypeMap) (id : Nat) (_ : Ty) : Prop := (types.get? id).isSome = true

@[simp] theorem upheld_iff_hold {types : TypeMap} {notes : List Note} :
    Upheld types notes ↔ Hold types.Knows notes := by
  refine forall₂_congr fun n _ => ?_
  cases n <;> exact Iff.rfl

theorem upheld_append {types : TypeMap} {a b : List Note} :
    Upheld types (a ++ b) ↔ Upheld types a ∧ Upheld types b :=
  List.forall_mem_append

namespace TypeMap

/-- No note takes a type away. -/
theorem isSome_record {m : TypeMap} {id : Nat} (h : (m.get? id).isSome = true) (n : Note) :
    ((m.record n).get? id).isSome = true := by
  cases n with
  | typed k ty =>
    rw [record, get?_insert]
    split
    · rfl
    · exact h
  | adopted k ty =>
    rw [record, insertIfNew]
    split
    · exact h
    · rw [get?_insert]
      split
      · rfl
      · exact h
  | report p span => exact h

/-- A note that is no error holds once it is recorded. -/
theorem upheld_record (m : TypeMap) {n : Note} (h : Quiet [n]) : n.Upheld (m.record n) := by
  cases n with
  | typed id ty => simp [Note.Upheld, record, get?_insert]
  | adopted id ty =>
    rw [Note.Upheld, record, insertIfNew]
    split
    · next hid => simp [hid]
    · simp [get?_insert]
  | report p span => exact quiet_report.1 h

end TypeMap

theorem Note.Upheld.record {m : TypeMap} {n : Note} (h : n.Upheld m) (k : Note) :
    n.Upheld (m.record k) := by
  cases n with
  | typed id ty => exact TypeMap.isSome_record h k
  | adopted id ty => exact TypeMap.isSome_record h k
  | report p span => exact h

theorem upheld_foldl {notes : List Note} (hquiet : Quiet notes) (m : TypeMap) :
    Upheld (notes.foldl TypeMap.record m) notes ∧
      ∀ n : Note, n.Upheld m → n.Upheld (notes.foldl TypeMap.record m) := by
  induction notes generalizing m with
  | nil => exact ⟨nofun, fun n hn => hn⟩
  | cons k notes ih =>
    obtain ⟨hk, hrest⟩ := (quiet_append (a := [k])).1 hquiet
    obtain ⟨hnotes, hkeep⟩ := ih hrest (m.record k)
    refine ⟨?_, fun n hn => hkeep n (hn.record k)⟩
    intro n hn
    rcases List.mem_cons.1 hn with rfl | hn
    · exact hkeep n (m.upheld_record hk)
    · exact hnotes n hn

/-- Notes without errors hold by the types that are read off them. -/
theorem upheld_ofNotes {notes : List Note} (hquiet : Quiet notes) :
    Upheld (TypeMap.ofNotes notes) notes :=
  (upheld_foldl hquiet TypeMap.empty).1

/-- The notes on the body of a method are among the notes on the program. -/
theorem Program.notes_body_subset {p : Program} {table : SymbolTable} {d : ClassDecl}
    (hd : d ∈ p.classes) {cls : ClassSymbols} (hcls : table.class? d.name.node = some cls)
    {md : MethodDecl} (hmd : md ∈ d.methods) {method : MethodSymbols}
    (hmethod : cls.method? md.name.node = some method) :
    (Stmt.annotateAll (md.scope table cls method) md.body).notes ⊆ p.notes table := by
  intro n hn
  have hbody : n ∈ md.annotate table cls := by
    rw [MethodDecl.annotate, hmethod]
    exact List.mem_append_left _ hn
  have hclass : n ∈ d.annotate table := by
    rw [ClassDecl.annotate, hcls]
    exact List.mem_flatMap.2 ⟨md, hmd, hbody⟩
  exact List.mem_append_left _ (List.mem_flatMap.2 ⟨d, hd, hclass⟩)

/-- The notes on the body of a method of an accepted program hold by the types of the program. -/
theorem Program.upheld_body {p : Program} {table : SymbolTable} {a : Annotation}
    (h : p.check table = .ok a) {d : ClassDecl} (hd : d ∈ p.classes) {cls : ClassSymbols}
    (hcls : table.class? d.name.node = some cls) {md : MethodDecl} (hmd : md ∈ d.methods)
    {method : MethodSymbols} (hmethod : cls.method? md.name.node = some method) :
    Upheld a.types (Stmt.annotateAll (md.scope table cls method) md.body).notes := by
  obtain ⟨hquiet, rfl⟩ := check_ok_iff.1 h
  intro n hn
  exact upheld_ofNotes hquiet n (notes_body_subset hd hcls hmd hmethod hn)

/-! ## Expressions -/

namespace Expr

variable {sc : Scope} {types : TypeMap} {e : Expr} {ty : Ty}

/-- The expression is not a call without a type, parenthesised or not. -/
def Typed (types : TypeMap) (e : Expr) : Prop :=
  ∀ n r m args, e.strip = call n r m args → (types.get? n.id).isSome = true

theorem upheld_settle {n : Node} {found : Option Ty} :
    Upheld types (settle n found).notes ↔
      (found.isSome = true → (types.get? n.id).isSome = true) := by
  cases found <;> simp [TypeMap.Knows]

theorem typed_of_knows (h : types.Knows e.strip.id ty) : e.Typed types := by
  intro n r m args he
  rw [he] at h
  exact h

/-- The notes on the expression hold, and it is not a call without a type. So it is with every
expression of an accepted program whose value is used. -/
structure Settled (sc : Scope) (types : TypeMap) (e : Expr) : Prop where
  notes : Upheld types (e.annotate sc).notes
  typed : e.Typed types

/-- An expression that stands where a type is wanted has a type. -/
theorem Placed.settled {P : Ty → Prop} (h : e.Placed sc types.Knows P) : e.Settled sc types := by
  refine ⟨upheld_iff_hold.2 h.notes, ?_⟩
  cases hty : (e.annotate sc).value with
  | some t => exact typed_of_knows (holds_of_value h.notes hty).2
  | none =>
    rcases h.taken hty with ⟨t, -, hadopt⟩ | hcall
    · exact typed_of_knows (holds_of_adopt hadopt).2
    · exact fun n r m args he => absurd he (hcall n r m args)

/-- An item of something that is named like a variable but is none. -/
def indexesClassName (sc : Scope) : Expr → Bool
  | index _ a _ =>
    match a.strip with
    | var _ x => (sc.resolve x).isNone
    | _ => false
  | _ => false

/-- The receiver and the arguments of an accepted call have types, a class name as receiver
apart. -/
theorem settled_of_call {n : Node} {r : Expr} {m : Located String} {args : List Expr}
    (h : Upheld types ((call n r m args).annotate sc).notes) :
    r.Settled sc types ∧ ∀ a ∈ args, a.Settled sc types := by
  have hcall := placed_call (upheld_iff_hold.1 h)
  exact ⟨hcall.receiver.placed.settled, fun a ha => (hcall.args a ha).settled⟩

/-- With an expression its parts are settled too. -/
theorem Settled.children (h : e.Settled sc types) : ∀ d ∈ e.children, d.Settled sc types := by
  obtain ⟨hnotes, htyped⟩ := h
  by_cases hparen : ∃ n d, e = paren n d
  · obtain ⟨n, d, rfl⟩ := hparen
    rw [annotate, Noted.notes_bind, upheld_append] at hnotes
    exact List.forall_mem_singleton.2 ⟨hnotes.1, htyped⟩
  · push Not at hparen
    exact fun d hd => (placed_children (upheld_iff_hold.1 hnotes) hparen d hd).settled

/-- Why an accepted expression has no type of its own: it is a call, or a class name, or somewhere
in it stands an item of a class name. -/
theorem cases_of_untyped {H : Nat → Ty → Prop} (h : Hold H (e.annotate sc).notes)
    (hty : (e.annotate sc).value = none) :
    (∃ n r m args, e.strip = call n r m args) ∨ (∃ n x, e.strip = var n x ∧ sc.resolve x = none) ∨
      ∃ d ∈ e.subtree, d.indexesClassName sc = true := by
  induction e using Expr.induction with
  | int | bool | this | newObject | newArray => simp [annotate] at hty
  | length n a => simp [annotate, value_lengthTy] at hty
  | var n x =>
    refine .inr (.inl ⟨n, x, rfl, ?_⟩)
    simp only [annotate, varTy, Noted.value_bind, value_settle] at hty
    split at hty
    · simp at hty
    · assumption
  | not n e =>
    simp only [annotate, Noted.notes_bind, Noted.value_bind, hold_append, value_settle] at h hty
    rw [value_notTy h.2.1] at hty
    cases hty
  | binary n op l r =>
    simp only [annotate, Noted.notes_bind, Noted.value_bind, hold_append, value_settle] at h hty
    rw [value_binaryTy h.2.2.1] at hty
    cases hty
  | call n r m args => exact .inl ⟨n, r, m, args, rfl⟩
  | paren n e ih =>
    simp only [annotate, Noted.notes_bind, Noted.value_bind, hold_append, value_settle] at h hty
    rcases ih h.1 hty with hcall | hvar | ⟨d, hd, hindex⟩
    · exact .inl hcall
    · exact .inr (.inl hvar)
    · exact .inr (.inr ⟨d, List.mem_cons_of_mem _ hd, hindex⟩)
  | index n a i ih =>
    simp only [annotate, Noted.notes_bind, Noted.value_bind, hold_append, value_settle] at h hty
    refine .inr (.inr ?_)
    rcases indexTy_cases h.2.2.2.1 with ⟨element, -, hvalue⟩ | ⟨hnone, hneed⟩
    · rw [hvalue] at hty
      cases hty
    -- The array has no type either, and it is no call, for which a type would be needed.
    · rcases ih h.1 hnone with ⟨k, r, m, args, hcall⟩ | ⟨k, x, hvar, hres⟩ | ⟨d, hd, hindex⟩
      · exact absurd hcall (hneed k r m args)
      · exact ⟨index n a i, List.mem_cons_self .., by simp [indexesClassName, hvar, hres]⟩
      · exact ⟨d, List.mem_cons_of_mem _ (List.mem_append_left _ hd), hindex⟩

end Expr

/-! ## Statements -/

namespace Stmt

open MiniJava.Expr

variable {sc : Scope} {types : TypeMap} {x : Located String} {v : Expr} {span : Span}

theorem settled_of_condition {keyword : String} {cond : Expr}
    (h : Upheld types (condition sc keyword cond).notes) : cond.Settled sc types :=
  (placed_condition (upheld_iff_hold.1 h)).settled

theorem settled_of_assignment (h : Upheld types (assignment sc span x v).notes) :
    (∃ b, sc.resolve x.node = some b) ∧ v.Settled sc types := by
  obtain ⟨b, hb, hv⟩ := placed_assignment (upheld_iff_hold.1 h)
  exact ⟨⟨b, hb⟩, hv.settled⟩

theorem settled_of_elementAssignment {i : Expr}
    (h : Upheld types (elementAssignment sc x i v).notes) :
    (∃ b element, sc.resolve x.node = some b ∧ b.ty = .array element) ∧ i.Settled sc types ∧
      v.Settled sc types := by
  obtain ⟨b, element, hb, harray, hi, hv⟩ := placed_elementAssignment (upheld_iff_hold.1 h)
  exact ⟨⟨b, element, hb, harray⟩, hi.settled, hv.settled⟩

theorem settled_of_returned (h : Upheld types (returned sc span (some v)).notes) :
    v.Settled sc types :=
  (placed_returned (upheld_iff_hold.1 h)).2.settled

theorem upheld_of_effect {e : Expr} (h : Upheld types (effect sc e).notes) :
    Upheld types (e.annotate sc).notes := by
  rw [upheld_iff_hold] at h ⊢
  exact hold_of_effect h

end Stmt

end MiniJava
