import MiniJava.Proofs.Annotation.Rules
import MiniJava.Proofs.Emission.Listing
import MiniJava.Proofs.Lowering.Declarations
import MiniJava.Proofs.Lowering.Provenance

/-!
# Static methods leave the object alone

A static method has no object to run on. The annotator refuses `this` in it, and fields where they
are read, assigned to, or assigned to item by item; nothing else of a program stands for the object.

**Theorem** (`static_methods_spare_object`). The code of a static method of an accepted program
accesses no field and mentions no `this`, unless a variable is called that, and its assembly has no
line that loads the object.
-/

namespace MiniJava

open Ir

/-! ## Accepted bodies -/

namespace Expr

variable {sc : Scope} {e d : Expr} {t : Option Ty}

/-- The parts of a well-typed expression are well typed. -/
theorem HasType.part (h : e.HasType sc t) (hd : d ∈ e.children) : ∃ t', d.HasType sc t' := by
  have hmem : ∀ {args ts}, List.Forall₂ (HasType sc) args ts → d ∈ args →
      ∃ t', d.HasType sc t' := by
    intro args ts hargs hd
    obtain ⟨k, hk, rfl⟩ := List.getElem_of_mem hd
    exact ⟨_, hargs.get hk (hargs.length_eq ▸ hk)⟩
  cases h with
  | int | bool | declared | className | this | newObject => cases hd
  | not he | newArray he | length he | lengthOpen he | paren he =>
    obtain rfl := List.mem_singleton.1 hd
    exact ⟨_, he⟩
  | binary hl _ hr _ | index hl hr _ | indexOpen hl _ hr _ =>
    rcases List.mem_cons.1 hd with rfl | hd
    · exact ⟨_, hl⟩
    · obtain rfl := List.mem_singleton.1 hd
      exact ⟨_, hr⟩
  | callOwn hr _ hargs _ | callInherited hr _ _ hargs | callOther hr _ hargs
      | callOpen hr _ hargs =>
    rcases List.mem_cons.1 hd with rfl | hd
    · exact ⟨_, hr⟩
    · exact hmem hargs hd

theorem HasType.subtree (h : e.HasType sc t) (hd : d ∈ e.subtree) : ∃ t', d.HasType sc t' := by
  induction e using Expr.induction_children generalizing t with
  | step e ih =>
    rw [subtree_eq_cons, List.mem_cons, List.mem_flatMap] at hd
    rcases hd with rfl | ⟨e', he', hd⟩
    · exact ⟨t, h⟩
    · obtain ⟨t', ht'⟩ := h.part he'
      exact ih e' he' ht' hd

end Expr

/-- Code that leaves the object alone: there is no `this` in it, and no field. -/
def Ir.Policy.static : Policy where
  vars x _ := x ≠ "this"
  fields := False

theorem Ir.Policy.static_allowsTemps : Policy.static.AllowsTemps :=
  fun k => (this_ne_tempName k).symm

theorem Ir.Instr.obeys_static_iff {i : Instr} : i.Obeys .static ↔
    i.accessesField = false ∧ ∀ o ∈ i.occurrences, o.name? ≠ some "this" := by
  constructor
  · intro h
    refine ⟨Bool.eq_false_iff.2 h.2, fun o ho hthis => h.occurrences ho hthis rfl⟩
  · rintro ⟨hfield, hthis⟩
    refine Instr.obeys_of_operands hfield fun o ho q hq x hx hname => ?_
    exact hthis q (List.mem_flatMap.2 ⟨o, ho, hq⟩) (hname ▸ hx)

/-- In a static method, a name that may be used stands for a variable. -/
theorem Scope.allowsName_static {sc : Scope} {mk : Bool} {x : String} {b : Binding}
    (hstatic : sc.isStatic = true)
    (hthis : ∀ v ∈ sc.method.params ++ sc.method.locals, v.name ≠ "this")
    (hb : sc.resolve x = some b) (hallows : sc.Allows b) : Policy.static.AllowsName sc mk x := by
  have hfield : b.isField = false := by
    rw [← Bool.not_eq_true]
    intro hfield
    rw [hallows hfield] at hstatic
    cases hstatic
  intro b' hb'
  obtain rfl : b = b' := Option.some.inj (hb.symm.trans hb')
  refine ⟨hthis _ (mem_of_resolve hb hfield), fun hfield' => ?_⟩
  rw [hfield] at hfield'
  cases hfield'

section

variable {sc : Scope} (hstatic : sc.isStatic = true)
  (hthis : ∀ v ∈ sc.method.params ++ sc.method.locals, v.name ≠ "this")
include hstatic hthis

theorem Expr.HasType.permitted_static {e : Expr} {t : Option Ty} {mk : Bool} (h : e.HasType sc t) :
    e.Permitted .static sc mk := by
  intro d hd
  obtain ⟨t', ht'⟩ := h.subtree hd
  cases ht' with
  | declared hx hallows => exact Scope.allowsName_static hstatic hthis hx hallows
  | className hx =>
    intro b hb
    rw [hx] at hb
    cases hb
  | this hdynamic =>
    rw [hstatic] at hdynamic
    cases hdynamic
  | _ => trivial

/-- A well-typed statement of a static method mentions nothing of the object. -/
theorem Stmt.WellTyped.permitted_static {s : Stmt} (h : s.WellTyped sc) :
    s.Permitted .static .static sc := by
  induction h with
  | varDecl => exact .varDecl
  | block _ ih => exact .block ih
  | ifThen hc _ ih => exact .ifThen (hc.permitted_static hstatic hthis) ih
  | ifElse hc _ _ iht ihe => exact .ifElse (hc.permitted_static hstatic hthis) iht ihe
  | whileLoop hc _ ih => exact .whileLoop (hc.permitted_static hstatic hthis) ih
  | expr he => exact .expr (he.permitted_static hstatic hthis)
  | assign hb hallows hv =>
    exact .assign (Scope.allowsName_static hstatic hthis hb hallows)
      (hv.permitted_static hstatic hthis)
  | arrayAssign hb hallows _ hi _ hv _ =>
    exact .arrayAssign (Scope.allowsName_static hstatic hthis hb hallows)
      (hi.permitted_static hstatic hthis) (hv.permitted_static hstatic hthis)
  | ret => exact .ret
  | retValue _ hv => exact .retValue (hv.permitted_static hstatic hthis)

end

/-- The code of the method accesses no field and mentions no `this`. -/
def Ir.Method.SparesObject (m : Method) : Prop :=
  ∀ i ∈ m.code, i.accessesField = false ∧ ∀ o ∈ i.occurrences, o.name? ≠ some "this"

/-! ## Assembly -/

namespace Assembly

theorem append_ne {p r t : String} (h : ¬p.toList <+: t.toList) : p ++ r ≠ t := by
  rintro rfl
  exact h ⟨r.toList, (String.toList_append ..).symm⟩

namespace Asm

theorem text_ne_aload0 {a : Asm} (h : a ≠ .aload0) : a.text ≠ "aload_0" := by
  cases a with
  | aload0 => exact absurd rfl h
  | label l =>
    intro htext
    have hlast : (l ++ ":").toList.getLast? = "aload_0".toList.getLast? :=
      congrArg (fun s : String => s.toList.getLast?) htext
    rw [String.toList_append, List.getLast?_append_of_ne_nil _ (by decide)] at hlast
    exact absurd hlast (by decide)
  | invoke kind owner method params result =>
    cases kind <;> simp only [text, CallKind.mnemonic, String.append_assoc] <;>
      exact append_ne (by decide)
  | ldc | iload | aload | istore | astore | newObject | newRefArray | getfield
  | putfield | goto | ifne | ifIcmplt =>
    simp only [text, String.append_assoc]
    exact append_ne (by decide)
  | _ =>
    rw [text]
    decide

/-- No other instruction is written as the one that loads the object. -/
theorem line_ne_aload0 {a : Asm} (h : a ≠ .aload0) : a.line ≠ aload0.line := by
  have haload0 : aload0.line = "   " ++ "aload_0" ++ "\n" := by decide
  rw [haload0, line]
  split
  · next hcolon =>
    intro hline
    have htext : a.text = "   " ++ "aload_0" := (String.append_left_inj _).1 hline
    rw [htext] at hcolon
    exact absurd hcolon (by decide)
  · intro hline
    rw [String.append_assoc, String.append_assoc] at hline
    exact text_ne_aload0 h ((String.append_left_inj _).1 ((String.append_right_inj _).1 hline))

end Asm

/-- The stage writes no line that loads the object. -/
abbrev Spares (x : Emit Unit) : Prop := x.Ensures (fun _ => True) (· ≠ .aload0)

theorem write_spares {r : Except EmitError (List Asm)}
    (h : ∀ code, r = .ok code → ∀ a ∈ code, a ≠ .aload0) : Spares (write r) :=
  (Stage.Ensures.ofExcept h).bind fun _ hcode => .emitAll hcode

theorem operator_spares (op : BinOp) : Spares (operator op) := by
  cases op with
  | lt =>
    have hnumber : (Stage.update fun n => (n, n + 1) : Emit Nat).Ensures (fun _ => True)
        (· ≠ .aload0) :=
      .update fun _ => trivial
    exact hnumber.bind fun n _ => .emitAll (by simp [comparison])
  | add | sub | mul | div | and => exact .emit Asm.noConfusion

theorem makeArray_ne_aload0 (u : ClassUnit) (t : Ty) : makeArray u t ≠ .aload0 := by
  unfold makeArray
  split <;> exact Asm.noConfusion

/-- One of two instructions, by the type of what they work on. -/
theorem ite_ne_aload0 {c : Prop} [Decidable c] {a b : Asm} (ha : a ≠ .aload0) (hb : b ≠ .aload0) :
    (if c then a else b) ≠ .aload0 := by
  split
  · exact ha
  · exact hb

namespace Frame

variable {f : Frame} {code : List Asm}

/-- Variables are loaded from their registers. -/
theorem push_spares {o : Operand} (ho : o.Obeys .static) (h : f.push o = .ok code) :
    ∀ a ∈ code, a ≠ .aload0 := by
  induction o generalizing code with
  | literal v t =>
    cases h
    exact List.forall_mem_singleton.2 Asm.noConfusion
  | cls c =>
    cases h
    exact List.forall_mem_nil _
  | var x t p =>
    have hx : x ≠ "this" := Operand.obeys_var.1 ho
    rw [push, if_neg (by simpa using hx)] at h
    obtain ⟨r, -, h⟩ := bind_ok h
    cases h
    exact List.forall_mem_singleton.2 (ite_ne_aload0 Asm.noConfusion Asm.noConfusion)
  | item x i t p ih =>
    obtain ⟨r, -, h⟩ := bind_ok h
    obtain ⟨index, hindex, h⟩ := bind_ok h
    cases h
    refine List.forall_mem_cons.2 ⟨Asm.noConfusion, List.forall_mem_append.2 ⟨?_, ?_⟩⟩
    · exact ih (Operand.obeys_item.1 ho).2 hindex
    · exact List.forall_mem_singleton.2 (ite_ne_aload0 Asm.noConfusion Asm.noConfusion)

theorem pushAll_spares {os : List Operand} (hos : ∀ o ∈ os, o.Obeys .static)
    (h : f.pushAll os = .ok code) : ∀ a ∈ code, a ≠ .aload0 := by
  induction os generalizing code with
  | nil =>
    cases h
    exact List.forall_mem_nil _
  | cons o os ih =>
    rw [List.forall_mem_cons] at hos
    obtain ⟨first, hfirst, h⟩ := bind_ok h
    obtain ⟨rest, hrest, h⟩ := bind_ok h
    cases h
    exact List.forall_mem_append.2 ⟨push_spares hos.1 hfirst, ih hos.2 hrest⟩

theorem call_spares {kind : CallKind} {target : Operand} {method : String} {args : List Operand}
    {params : Option (List Ty)} {ty : Ty} (htarget : target.Obeys .static)
    (hargs : ∀ o ∈ args, o.Obeys .static)
    (h : f.call kind target method args params ty = .ok code) :
    ∀ a ∈ code, a ≠ .aload0 := by
  obtain ⟨object, pushed, hobject, hpushed, rfl⟩ := call_ok h
  refine List.forall_mem_append.2 ⟨?_, List.forall_mem_append.2 ⟨pushAll_spares hargs hpushed, ?_⟩⟩
  · split at hobject
    · cases hobject
      exact List.forall_mem_nil _
    · exact push_spares htarget hobject
  · exact List.forall_mem_singleton.2 Asm.noConfusion

theorem write_push_spares {o : Operand} (ho : o.Obeys .static) : Spares (write (f.push o)) :=
  write_spares fun _ => push_spares ho

theorem value_spares {i : Instr} (hi : i.Obeys .static) : Spares (f.value i) := by
  obtain ⟨hoperands, hfield⟩ := hi
  cases i with
  | value o => exact write_push_spares (List.forall_mem_singleton.1 hoperands)
  | not o t =>
    exact (write_push_spares (List.forall_mem_singleton.1 hoperands)).bind
      fun _ _ => .emitAll (by simp)
  | binary op l r t =>
    obtain ⟨hl, hr⟩ := List.forall_mem_cons.1 hoperands
    exact (write_push_spares hl).bind fun _ _ =>
      (write_push_spares (List.forall_mem_singleton.1 hr)).bind fun _ _ => operator_spares op
  | call kind target method args params ty =>
    obtain ⟨htarget, hargs⟩ := List.forall_mem_cons.1 hoperands
    rw [value]
    split
    · exact .fail _
    · exact write_spares fun _ => call_spares htarget hargs
  | newObject c => exact .emit Asm.noConfusion
  | newArray o t =>
    exact (write_push_spares (List.forall_mem_singleton.1 hoperands)).bind
      fun _ _ => .emit (makeArray_ne_aload0 f.unit t)
  | length o =>
    exact (write_push_spares (List.forall_mem_singleton.1 hoperands)).bind
      fun _ _ => .emit Asm.noConfusion
  | getField field t => exact (hfield rfl).elim
  | assign | putField | goto | branch | label | ret => exact .fail _

theorem register_ensures {P : Asm → Prop} (x : String) :
    (Stage.ofExcept (f.register x) : Emit UInt16).Ensures (fun _ => True) P :=
  .ofExcept fun _ _ => trivial

/-- Code that leaves the object alone is emitted without the line that loads it. -/
theorem instr_spares {i : Instr} (hi : i.Obeys .static) : Spares (f.instr i) := by
  have hvalue : Spares (f.value i) := value_spares hi
  obtain ⟨hoperands, hfield⟩ := hi
  cases i with
  | assign dest ty rhs =>
    obtain ⟨hdest, hrhs⟩ := List.forall_mem_cons.1 hoperands
    have hrhs : Spares (f.value rhs) := value_spares ⟨hrhs, hfield⟩
    cases dest with
    | literal | cls => exact .fail _
    | var x t p =>
      exact hrhs.bind fun _ _ => (register_ensures x).bind fun r _ =>
        .emit (ite_ne_aload0 Asm.noConfusion Asm.noConfusion)
    | item x index t p =>
      refine (register_ensures x).bind fun r _ => .bind (.emit Asm.noConfusion) fun _ _ => ?_
      exact (write_push_spares (Operand.obeys_item.1 hdest).2).bind fun _ _ =>
        hrhs.bind fun _ _ => .emit (ite_ne_aload0 Asm.noConfusion Asm.noConfusion)
  | call kind target method args params ty =>
    obtain ⟨htarget, hargs⟩ := List.forall_mem_cons.1 hoperands
    refine (write_spares fun _ => call_spares htarget hargs).bind fun _ _ => ?_
    split
    · exact .emit Asm.noConfusion
    · exact .pure trivial
  -- A static method has no instruction for a field of its object.
  | putField field v => exact (hfield rfl).elim
  | goto | label => exact .emit Asm.noConfusion
  | branch c l =>
    exact (write_push_spares (List.forall_mem_singleton.1 hoperands)).bind
      fun _ _ => .emit Asm.noConfusion
  | ret ty o =>
    by_cases hty : ty = .void
    · subst hty
      exact .emit Asm.noConfusion
    · cases o with
      | none =>
        simp only [instr]
        exact .fail _
      | some o =>
        simp only [instr]
        exact (write_push_spares (List.forall_mem_singleton.1 hoperands)).bind
          fun _ _ => .emit (ite_ne_aload0 Asm.noConfusion Asm.noConfusion)
  | value | not | binary | newObject | newArray | length | getField =>
    exact hvalue.bind fun _ _ => .emit Asm.noConfusion

end Frame

theorem Emitted.spares {f : Frame} {is : List Instr} {n n' : Nat} {code : List (List Asm)}
    (h : Emitted f is n code n') (his : ∀ i ∈ is, i.Obeys .static) :
    ∀ a ∈ code.flatten, a ≠ .aload0 := by
  induction h with
  | nil => exact List.forall_mem_nil _
  | @cons i is n n₁ n' k ks hinstr _ ih =>
    rw [List.forall_mem_cons] at his
    have hfirst := (Frame.instr_spares (f := f) his.1 n).1
    rw [hinstr] at hfirst
    rw [List.flatten_cons]
    exact List.forall_mem_append.2 ⟨hfirst, ih his.2⟩

/-- The code has no line that loads the object. -/
def SparesObject (code : List (List Asm)) : Prop := ∀ a ∈ code.flatten, a.line ≠ Asm.aload0.line

theorem EmittedAll.spares {u : ClassUnit} {ms : List Method} {n n' : Nat}
    {codes : List (List (List Asm))} {P : Method → Prop} (h : EmittedAll u ms n codes n')
    (hms : ∀ m ∈ ms, P m → m.SparesObject) :
    List.Forall₂ (fun m code => P m → SparesObject code) ms codes := by
  induction h with
  | nil => exact .nil
  | cons hemitted _ ih =>
    rw [List.forall_mem_cons] at hms
    refine .cons (fun hm a ha => ?_) (ih hms.2)
    have hcode := hemitted.spares fun i hi => Instr.obeys_static_iff.2 (hms.1 hm i hi)
    exact Asm.line_ne_aload0 (hcode a ha)

end Assembly

/-! ## Programs -/

open Assembly

/-- The method is static, and none of its variables is called `this`. -/
def Ir.Method.WithoutObject (m : Method) : Prop :=
  m.isStatic = true ∧ ∀ v ∈ m.params ++ m.locals, v.name ≠ "this"

variable {p : Program} {table : SymbolTable} {a : Annotation} {c : Counters}
  {units : List ClassUnit}

theorem MethodDecl.LowersTo.sparesObject (h : p.checked table = .ok a) {d : ClassDecl}
    (hd : d ∈ p.classes) {cls : ClassSymbols} (hcls : table.class? d.name.node = some cls)
    {md : MethodDecl} (hmd : md ∈ d.methods) {m : Method} (hto : md.LowersTo table a.types cls m)
    (hm : m.WithoutObject) : m.SparesObject := by
  obtain ⟨hids, hcheck⟩ := Program.checked_ok_iff.1 h
  obtain ⟨traced, htraced⟩ := hto.traced
  have hstatic : md.isStatic = true := by
    obtain ⟨_, _, _, hrun⟩ := hto
    rw [← (MethodDecl.lower_heading hrun).2.2.1]
    exact hm.1
  -- The annotator has rejected `this` and fields in a static method, which is all that the policy
  -- asks of the source.
  have hpermitted : ∀ method, cls.method? md.name.node = some method → ∀ s ∈ md.body,
      s.Permitted Policy.static Policy.static (md.scope table cls method) := by
    intro method hmethod s hs
    obtain ⟨hparams, hlocals⟩ := hto.variables hmethod
    have hbody := Program.recorded_body hids hcheck hd hcls hmd hmethod
    have hs' := Stmt.WellTyped.of_hold (Stmt.hold_of_annotateAll hbody s hs)
    exact hs'.permitted_static hstatic (hparams ▸ hlocals ▸ hm.2)
  have hobeys := htraced.obeys Policy.static_allowsTemps Policy.static_allowsTemps hpermitted
  obtain ⟨_, _, _, -, -, hcode⟩ := htraced
  intro i hi
  rw [← Instr.obeys_static_iff]
  rw [hcode, List.mem_append, List.mem_map] at hi
  rcases hi with ⟨q, hq, rfl⟩ | hi
  · have hq' := hobeys q hq
    rwa [Stmt.ObeyLabels, ite_self] at hq'
  · rw [MethodDecl.finalReturn] at hi
    split at hi
    · obtain rfl := List.mem_singleton.1 hi
      exact Instr.obeys_of_operands rfl (List.forall_mem_nil _)
    · cases hi

/-- **Static methods leave the object alone.** Take a program that is accepted and lowered. A method
that is declared static, none of whose variables is called `this`, accesses no field and mentions no
`this`, at any depth of its operands. Every new emitter makes the text of its class, and there the
code of the method has no line that loads the object. -/
theorem static_methods_spare_object (h : p.checked table = .ok a)
    (hlow : ((p.lower table a.types).run c).result = .ok units) :
    p.Methodwise units
      (fun _ md m => m.isStatic = md.isStatic ∧ (m.WithoutObject → m.SparesObject)) ∧
    ∀ e : Emitter, e.unit ∈ units → e.text = none → ∃ codes,
      e.build.result = .ok (classText e.unit e.limits (listings e.unit.emissionOrder codes)) ∧
      List.Forall₂ (fun m code => m.WithoutObject → Assembly.SparesObject code) e.unit.emissionOrder
        codes := by
  constructor
  · refine (Program.methodwise_of_lower hlow).mono fun d hd md hmd m hm => ?_
    obtain ⟨cls, hcls, hto⟩ := hm
    refine ⟨?_, hto.sparesObject h hd hcls hmd⟩
    obtain ⟨_, _, _, hrun⟩ := hto
    exact (MethodDecl.lower_heading hrun).2.2.1
  · intro e he hnew
    obtain ⟨codes, n, hemitted, htext⟩ := Emitter.build_of_lower h hlow he hnew
    refine ⟨codes, htext, hemitted.spares fun m hm hwithout => ?_⟩
    obtain ⟨c', events, hrun⟩ := Stage.run_of_result hlow
    obtain ⟨d, hd, cls, hcls, -, hmethods⟩ := Program.lower_methods hrun he
    rcases hmethods m (mem_emissionOrder.1 hm) with rfl | ⟨md, hmd, method, -, hto⟩
    · cases hwithout.1
    · exact hto.sparesObject h hd hcls hmd hwithout

/-! A class whose static method has a parameter called as a field. -/

namespace Till

/-- `static int total(int[] bins, int sum)`: it declares `int i`, then does
`while (i < bins.length) { sum = sum + bins[i]; bins[i] = 0; i = i + 1; }`, and at the end
`return Till.round(sum);`. -/
def total : MethodDecl where
  isStatic := true
  name := { node := "total" }
  returnTy := { node := .int }
  params := [⟨{ node := "bins" }, { node := .array .int }⟩, ⟨{ node := "sum" }, { node := .int }⟩]
  body :=
    [.varDecl .unknown ⟨{ node := "i" }, { node := .int }⟩,
    .whileLoop .unknown
      (.binary { id := 0 } .lt (.var { id := 1 } "i")
        (.length { id := 2 } (.var { id := 3 } "bins")))
      (.block .unknown
        [.assign .unknown { node := "sum" } (.binary { id := 4 } .add (.var { id := 5 } "sum")
          (.index { id := 6 } (.var { id := 7 } "bins") (.var { id := 8 } "i"))),
        .arrayAssign .unknown { node := "bins" } (.var { id := 9 } "i") (.int { id := 10 } 0),
        .assign .unknown { node := "i" } (.binary { id := 11 } .add (.var { id := 12 } "i")
          (.int { id := 13 } 1))]),
    .ret .unknown (some (.call { id := 14 } (.var { id := 15 } "Till") { node := "round" }
      [.var { id := 16 } "sum"]))]

/-- `int count() { sum = this.total(bins, sum); return sum; }` -/
def count : MethodDecl where
  name := { node := "count" }
  returnTy := { node := .int }
  params := []
  body :=
    [.assign .unknown { node := "sum" } (.call { id := 17 } (.this { id := 18 }) { node := "total" }
      [.var { id := 19 } "bins", .var { id := 20 } "sum"]),
    .ret .unknown (some (.var { id := 21 } "sum"))]

def decl : ClassDecl where
  name := { node := "Till" }
  fields := [⟨{ node := "bins" }, { node := .array .int }⟩, ⟨{ node := "sum" }, { node := .int }⟩]
  methods := [total, count]

def program : Program where
  classes := [decl]

theorem total_spares_object : ∃ a u m codes, program.checked (.ofProgram program) = .ok a ∧
    ((program.lower (.ofProgram program) a.types).run {}).result = .ok [u] ∧
    m ∈ u.methods ∧ m.WithoutObject ∧ m.code.length = 16 ∧ m.SparesObject ∧
    emit u {} = .ok (classText u {} (listings u.emissionOrder codes)) ∧
    List.Forall₂
      (fun m code => m.WithoutObject → Assembly.SparesObject code) u.emissionOrder codes := by
  have hchecked : program.checked (.ofProgram program) =
      .ok (program.annotate (.ofProgram program)) :=
    Program.checked_ok_iff.2 ⟨Program.uniqueIds_iff_nodup.2 (by decide), rfl⟩
  have hlow : ∃ u m, ((program.lower (.ofProgram program)
      (program.annotate (.ofProgram program)).types).run {}).result = .ok [u] ∧
      m ∈ u.methods ∧ m.isStatic = true ∧
      (m.params ++ m.locals).map Symbol.name = ["bins", "sum", "i"] ∧ m.code.length = 16 :=
    ⟨_, _, rfl, .head _, rfl, rfl, rfl⟩
  obtain ⟨u, m, hunits, hm, hstatic, hnames, hlength⟩ := hlow
  have hwithout : m.WithoutObject := by
    refine ⟨hstatic, fun v hv => ?_⟩
    have hname : v.name ∈ ["bins", "sum", "i"] := hnames ▸ List.mem_map_of_mem hv
    intro hthis
    rw [hthis] at hname
    revert hname
    decide
  obtain ⟨hmethods, htexts⟩ := static_methods_spare_object hchecked hunits
  obtain ⟨codes, htext, hcodes⟩ := htexts { unit := u } (.head _) rfl
  refine ⟨_, u, m, codes, hchecked, hunits, hm, hwithout, hlength, ?_, htext, hcodes⟩
  rcases hmethods with _ | ⟨⟨ms, hms, hrel⟩, -⟩
  rw [hms, List.mem_append, List.mem_singleton] at hm
  rcases hm with hm | rfl
  · obtain ⟨k, hk, rfl⟩ := List.getElem_of_mem hm
    exact (hrel.get (hrel.length_eq ▸ hk) hk).2 hwithout
  · cases hstatic

end Till

end MiniJava
