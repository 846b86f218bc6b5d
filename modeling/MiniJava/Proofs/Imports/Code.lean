import MiniJava.Assembly.Emitter
import MiniJava.Lowering.Program
import MiniJava.Proofs.Imports.Annotation
import MiniJava.Proofs.Lowering.Inversion
import MiniJava.Proofs.SideBySide

/-!
# Code without an import

Lowering asks for imports only where a variable may be the name of a class, and emission where the
assembly names a class. If a name occurs neither in a method nor in the types that are known for it,
then its code is the same without an import of that name, and the assembly names no class by it
(`MethodDecl.lower_sameApart`). So the text of the class is the same, too
(`Ir.ClassUnit.emit_withImports`).
-/

namespace MiniJava

open Ir

/-! ## Types in code -/

namespace Ir

/-- The types that the assembly of an instruction may name. -/
def Instr.types : Instr → List Ty
  | assign _ _ rhs => rhs.types
  | call _ target _ args params ty => target.ty :: ty :: params.getD (args.map Operand.ty)
  | newObject c => [.cls c]
  | newArray _ ty => [ty]
  | getField _ ty => [ty]
  | putField field _ => [field.ty]
  | value _ | not .. | binary .. | length _ | goto _ | branch .. | label _ | ret .. => []

/-- The assembly of the instruction does not name a class by `s`. -/
def Instr.Lacks (s : String) (i : Instr) : Prop := ∀ ty ∈ i.types, ty.Lacks s

theorem Instr.lacks_of_types_eq_nil {s : String} {i : Instr} (h : i.types = []) : i.Lacks s := by
  rw [Lacks, h]
  exact List.forall_mem_nil _

structure Method.Lacks (s : String) (m : Method) : Prop where
  params : ∀ q ∈ m.params, q.ty.Lacks s
  returnTy : m.returnTy.Lacks s
  code : ∀ i ∈ m.code, i.Lacks s

/-- The class with other imports. -/
def ClassUnit.withImports (u : ClassUnit) (imports : List String) : ClassUnit := { u with imports }

structure ClassUnit.Lacks (s : String) (u : ClassUnit) : Prop where
  name : u.name ≠ s
  superName : u.superName ≠ some s
  fields : ∀ f ∈ u.fields, f.ty.Lacks s
  methods : ∀ m ∈ u.methods, m.Lacks s

end Ir

/-! ## Lowering -/

/-- The same code, which names no class by `s`. -/
def SameLacking (s : String) (code code' : List Instr) : Prop :=
  code' = code ∧ ∀ i ∈ code, i.Lacks s

theorem joins_sameLacking (s : String) : Joins (SameLacking s) where
  nil := ⟨rfl, List.forall_mem_nil _⟩
  append := by
    rintro a a' b b' ⟨rfl, ha⟩ ⟨rfl, hb⟩
    exact ⟨rfl, List.forall_mem_append.2 ⟨ha, hb⟩⟩

/-- Both stages do the same, and the code names no class by `s`. -/
def Lower.SameApart {α : Type} (s : String) (V : α → Prop) (x y : Lower α) : Prop :=
  Stage.Alike (SameLacking s) Eq (fun a a' => a' = a ∧ V a) x y

/-- The type of the operand lacks the name. -/
abbrev Ir.Operand.Lacks (s : String) (o : Operand) : Prop := o.ty.Lacks s

namespace Lower.SameApart

variable {s : String} {α β : Type} {V : α → Prop} {W : β → Prop} {x y : Lower α}

protected theorem pure {a : α} (h : V a) : Lower.SameApart s V (pure a) (pure a) :=
  Stage.Alike.pure (joins_sameLacking s) ⟨rfl, h⟩

protected theorem fail (e : LowerError) : Lower.SameApart s V (Stage.fail e) (Stage.fail e) :=
  Stage.Alike.fail (joins_sameLacking s) rfl

protected theorem bind (h : Lower.SameApart s V x y) {f g : α → Lower β}
    (hfg : ∀ a, V a → Lower.SameApart s W (f a) (g a)) :
    Lower.SameApart s W (x >>= f) (y >>= g) := by
  apply Stage.Alike.bind (joins_sameLacking s) h
  rintro a a' ⟨rfl, ha⟩
  exact hfg a' ha

protected theorem emitAll {is : List Instr} (h : ∀ i ∈ is, i.Lacks s) :
    Lower.SameApart s (fun _ => True) (Stage.emitAll is) (Stage.emitAll is) :=
  fun _ => ⟨.ok ⟨rfl, trivial⟩, rfl, rfl, h⟩

protected theorem emit {i : Instr} (h : i.Lacks s) :
    Lower.SameApart s (fun _ => True) (Stage.emit i) (Stage.emit i) :=
  .emitAll (List.forall_mem_singleton.2 h)

theorem freshLabel : Lower.SameApart s (fun _ => True) Lower.freshLabel Lower.freshLabel :=
  fun _ => ⟨.ok ⟨rfl, trivial⟩, rfl, (joins_sameLacking s).nil⟩

theorem temp {ty : Ty} {rhs : Instr} (hty : ty.Lacks s) (hrhs : rhs.Lacks s) :
    Lower.SameApart s (Operand.Lacks s) (Lower.temp ty rhs) (Lower.temp ty rhs) :=
  fun _ => ⟨.ok ⟨rfl, hty⟩, rfl, rfl, List.forall_mem_singleton.2 hrhs⟩

end Lower.SameApart

/-- Every type in the map lacks the name. -/
def TypeMap.Lacks (s : String) (types : TypeMap) : Prop :=
  ∀ i ty, types.get? i = some ty → ty.Lacks s

theorem TypeMap.Lacks.typeOf {s : String} {types : TypeMap} (h : types.Lacks s) (n : Node) :
    Lower.SameApart s (Ty.Lacks s) (Lower.typeOf types n) (Lower.typeOf types n) := by
  unfold Lower.typeOf
  cases hty : types.get? n.id with
  | none => exact .fail _
  | some ty => exact .pure (h n.id ty hty)

namespace Expr

variable {s : String} {sc : Scope} {table : SymbolTable} {types : TypeMap}

theorem readField_sameApart {ty : Ty} (hty : ty.Lacks s) (x : String) :
    Lower.SameApart s (Operand.Lacks s) (readField x ty) (readField x ty) :=
  .temp hty (List.forall_mem_singleton.2 hty)

theorem lowerVar_sameApart (hsc : sc.Lacks s) (ht : sc.table.SameApart s table)
    {x : String} (hx : x ≠ s) (marked : Bool) (span : Span) :
    Lower.SameApart s (Operand.Lacks s) (lowerVar sc marked x span)
      (lowerVar (sc.withTable table) marked x span) := by
  unfold lowerVar
  rw [Scope.resolve_withTable, Scope.isClassName_withTable ht hx]
  cases hresolve : sc.resolve x with
  | none =>
    dsimp only
    split
    · exact .pure (Ty.lacks_cls.2 hx)
    · exact .fail _
  | some b =>
    have hb : b.ty.Lacks s := hsc.bindings x b hresolve
    cases b with
    | field q => exact readField_sameApart hb x
    | loc q => exact .pure hb
    | param k q => exact .pure hb

theorem lacks_callInstr (hsc : sc.Lacks s) {target : Operand}
    (htarget : target.Lacks s) (m : String) {args : List Operand} (hargs : ∀ o ∈ args, o.Lacks s)
    {ty : Ty} (hty : ty.Lacks s) :
    (callInstr sc target m args ty).Lacks s := by
  refine List.forall_mem_cons.2 ⟨htarget, List.forall_mem_cons.2 ⟨hty, ?_⟩⟩
  have hmapped : ∀ t ∈ args.map Operand.ty, t.Lacks s := List.forall_mem_map.2 hargs
  unfold declaredParams
  split
  · split
    · next sig hsig =>
      split
      · exact List.forall_mem_map.2 (hsc.methods m sig hsig).2
      · exact hmapped
    · exact hmapped
  · exact hmapped

theorem itemOf_sameApart (base index : Operand) {ty : Ty} (hty : ty.Lacks s) (span : Span) :
    Lower.SameApart s (Operand.Lacks s) (itemOf base index ty span)
      (itemOf base index ty span) := by
  cases base with
  | var x t p => exact .pure hty
  | literal | item | cls => exact .fail _

theorem lowerAll_sameApart {sc' : Scope} {marked : Bool} {es : List Expr}
    (h : ∀ e ∈ es, Lower.SameApart s (Operand.Lacks s) (e.lower sc types marked)
      (e.lower sc' types marked)) :
    Lower.SameApart s (fun os => ∀ o ∈ os, o.Lacks s) (lowerAll sc types marked es)
      (lowerAll sc' types marked es) := by
  induction es with
  | nil => exact .pure (List.forall_mem_nil _)
  | cons e es ih =>
    rw [List.forall_mem_cons] at h
    exact .bind h.1 fun o ho => .bind (ih h.2) fun os hos =>
      .pure (List.forall_mem_cons.2 ⟨ho, hos⟩)

/-- An expression has the same code without an import that it does not mention. -/
theorem lower_sameApart (hsc : sc.Lacks s) (ht : sc.table.SameApart s table)
    (htypes : types.Lacks s) {e : Expr} (he : s ∉ e.names) (marked : Bool) :
    Lower.SameApart s (Operand.Lacks s) (e.lower sc types marked)
      (e.lower (sc.withTable table) types marked) := by
  induction e using Expr.induction with
  | int n v => exact .pure Ty.lacks_int
  | bool n v => exact .pure Ty.lacks_bool
  | var n x =>
    -- The table is asked about a name only where no variable has it, and then the name is not `s`.
    exact lowerVar_sameApart hsc ht
      (fun heq => not_mem_ownName he (List.mem_singleton.2 heq.symm)) _ _
  | this n => exact .pure (Ty.lacks_cls.2 hsc.cls)
  | not n e ih =>
    exact .bind (ih (not_mem_names_child he (.head _))) fun o _ =>
      .temp Ty.lacks_bool (Instr.lacks_of_types_eq_nil rfl)
  | binary n op l r ihl ihr =>
    exact .bind (htypes.typeOf n) fun ty hty =>
      .bind (ihl (not_mem_names_child he (.head _))) fun _ _ =>
      .bind (ihr (not_mem_names_child he (.tail _ (.head _)))) fun _ _ =>
        .temp hty (Instr.lacks_of_types_eq_nil rfl)
  | call n r m args ihr ihargs =>
    have hargs := lowerAll_sameApart fun a ha => ihargs a ha (not_mem_names_child he (.tail _ ha))
    rw [lower, lower]
    refine .bind (htypes.typeOf n) fun ty hty => ?_
    split
    · exact .fail _
    · exact .bind hargs fun os hos => .bind (ihr (not_mem_names_child he (.head _))) fun o ho =>
        .temp hty (lacks_callInstr hsc ho m.node hos hty)
  | newObject n c =>
    have hc : (Ty.cls c.node).Lacks s :=
      Ty.lacks_cls.2 fun heq => not_mem_ownName he (List.mem_singleton.2 heq.symm)
    have hnew : (Instr.newObject c.node).Lacks s := List.forall_mem_singleton.2 hc
    refine .bind (.temp hc hnew) fun o ho => ?_
    refine .bind (.emit ?_) fun _ _ => .pure ho
    exact List.forall_mem_cons.2 ⟨ho, List.forall_mem_singleton.2 Ty.lacks_void⟩
  | newArray n e ih =>
    exact .bind (htypes.typeOf n) fun ty hty =>
      .bind (ih (not_mem_names_child he (.head _))) fun _ _ =>
      .temp hty (List.forall_mem_singleton.2 hty)
  | length n a ih =>
    exact .bind (ih (not_mem_names_child he (.head _))) fun _ _ =>
      .temp Ty.lacks_int (Instr.lacks_of_types_eq_nil rfl)
  | index n a i iha ihi =>
    exact .bind (htypes.typeOf n) fun ty hty =>
      .bind (iha (not_mem_names_child he (.head _))) fun b _ =>
      .bind (ihi (not_mem_names_child he (.tail _ (.head _)))) fun j _ =>
        .bind (itemOf_sameApart b j hty n.span) fun _ _ =>
          .temp hty (Instr.lacks_of_types_eq_nil rfl)
  | paren n e ih => exact ih (not_mem_names_child he (.head _))

theorem lowerEffect_sameApart (hsc : sc.Lacks s) (ht : sc.table.SameApart s table)
    (htypes : types.Lacks s) {e : Expr} (he : s ∉ e.names) :
    Lower.SameApart s (fun _ => True) (e.lowerEffect sc types)
      (e.lowerEffect (sc.withTable table) types) := by
  induction e using Expr.induction with
  | call n r m args ihr ihargs =>
    have hty : ((types.get? n.id).getD .void).Lacks s := by
      cases hget : types.get? n.id with
      | none => exact Ty.lacks_void
      | some ty => exact htypes n.id ty hget
    have hargs := lowerAll_sameApart fun a ha =>
      lower_sameApart hsc ht htypes (not_mem_names_child he (.tail _ ha)) true
    exact .bind hargs fun os hos =>
      .bind (lower_sameApart hsc ht htypes (not_mem_names_child he (.head _)) true) fun o ho =>
        .emit (lacks_callInstr hsc ho m.node hos hty)
  | paren n e ih => exact ih (not_mem_names_child he (.head _))
  | _ => exact .bind (lower_sameApart hsc ht htypes he true) fun _ _ => .pure trivial

end Expr

namespace Stmt

variable {s : String} {sc : Scope} {table : SymbolTable} {types : TypeMap}

theorem resolveTarget_sameApart (hsc : sc.Lacks s) (x : Located String) :
    Lower.SameApart s (fun b => b.ty.Lacks s) (resolveTarget sc x)
      (resolveTarget (sc.withTable table) x) := by
  unfold resolveTarget
  rw [Scope.resolve_withTable]
  cases hresolve : sc.resolve x.node with
  | none => exact .fail _
  | some b => exact .pure (hsc.bindings x.node b hresolve)

theorem lowerAssign_sameApart (hsc : sc.Lacks s) (ht : sc.table.SameApart s table)
    (htypes : types.Lacks s) (x : Located String) {v : Expr} (hv : s ∉ v.names) :
    Lower.SameApart s (fun _ => True) (lowerAssign sc types x v)
      (lowerAssign (sc.withTable table) types x v) := by
  refine .bind (resolveTarget_sameApart hsc x) fun b hb => ?_
  refine .bind (Expr.lower_sameApart hsc ht htypes hv true) fun o _ => ?_
  cases b with
  | field q => exact .emit (List.forall_mem_singleton.2 hb)
  | loc q => exact .emit (List.forall_mem_nil _)
  | param k q => exact .emit (List.forall_mem_nil _)

theorem itemTy_sameApart (x : Located String) {b : Binding} (hb : b.ty.Lacks s) :
    Lower.SameApart s (Ty.Lacks s) (itemTy x b) (itemTy x b) := by
  unfold itemTy
  split
  · next element heq =>
    rw [heq] at hb
    exact .pure (Ty.lacks_array.1 hb)
  · exact .fail _

theorem arrayOperand_sameApart (x : Located String) {b : Binding} (hb : b.ty.Lacks s) :
    Lower.SameApart s (Operand.Lacks s) (arrayOperand x b) (arrayOperand x b) := by
  cases b with
  | field q => exact Expr.readField_sameApart hb x.node
  | loc q => exact .pure hb
  | param k q => exact .pure hb

theorem lowerArrayAssign_sameApart (hsc : sc.Lacks s) (ht : sc.table.SameApart s table)
    (htypes : types.Lacks s) (x : Located String) {i v : Expr} (hi : s ∉ i.names)
    (hv : s ∉ v.names) :
    Lower.SameApart s (fun _ => True) (lowerArrayAssign sc types x i v)
      (lowerArrayAssign (sc.withTable table) types x i v) := by
  refine .bind (resolveTarget_sameApart hsc x) fun b hb => ?_
  refine .bind (itemTy_sameApart x hb) fun ty hty =>
    .bind (arrayOperand_sameApart x hb) fun base _ => ?_
  refine .bind (Expr.lower_sameApart hsc ht htypes hi true) fun index _ => ?_
  refine .bind (Expr.lower_sameApart hsc ht htypes hv true) fun value _ => ?_
  refine .bind (Expr.itemOf_sameApart base index hty x.span) fun dest _ => .emit ?_
  exact List.forall_mem_nil _

theorem lowerReturn_sameApart (hsc : sc.Lacks s) (ht : sc.table.SameApart s table)
    (htypes : types.Lacks s) {v : Option Expr} (hv : ∀ e ∈ v, s ∉ e.names) :
    Lower.SameApart s (fun _ => True) (lowerReturn sc types v)
      (lowerReturn (sc.withTable table) types v) := by
  cases v with
  | none => exact .emit (List.forall_mem_nil _)
  | some e =>
    exact .bind (Expr.lower_sameApart hsc ht htypes (hv e rfl) false) fun o _ =>
      .emit (List.forall_mem_nil _)

/-- A jump or a label. -/
theorem jump_sameApart {i : Instr} (hi : i.types = []) :
    Lower.SameApart s (fun _ => True) (Stage.emit i) (Stage.emit i) :=
  .emit (Instr.lacks_of_types_eq_nil hi)

theorem lacks_joinJump (n : Nat) (e : Stmt) : ∀ i ∈ joinJump n e, i.Lacks s := by
  unfold joinJump
  split
  · exact List.forall_mem_nil _
  · exact List.forall_mem_singleton.2 (Instr.lacks_of_types_eq_nil rfl)

theorem lacks_joinLabel (n : Nat) (t e : Stmt) : ∀ i ∈ joinLabel n t e, i.Lacks s := by
  unfold joinLabel
  split
  · exact List.forall_mem_nil _
  · exact List.forall_mem_singleton.2 (Instr.lacks_of_types_eq_nil rfl)

theorem lowerAll_sameApart_of {sc' : Scope} {ss : List Stmt}
    (h : ∀ t ∈ ss, Lower.SameApart s (fun _ => True) (t.lower sc types) (t.lower sc' types)) :
    Lower.SameApart s (fun _ => True) (lowerAll sc types ss) (lowerAll sc' types ss) := by
  induction ss with
  | nil => exact .pure trivial
  | cons t ss ih =>
    rw [List.forall_mem_cons] at h
    exact .bind h.1 fun _ _ => ih h.2

/-- A statement has the same code without an import that it does not mention. -/
theorem lower_sameApart (hsc : sc.Lacks s) (ht : sc.table.SameApart s table)
    (htypes : types.Lacks s) {t : Stmt} (hnames : s ∉ t.names) :
    Lower.SameApart s (fun _ => True) (t.lower sc types) (t.lower (sc.withTable table) types) := by
  induction t using Stmt.induction with
  | varDecl sp d => exact .pure trivial
  | block sp body ih =>
    rw [names, namesAll_eq_flatMap] at hnames
    refine lowerAll_sameApart_of fun t htm => ih t htm ?_
    exact fun hs => hnames (List.mem_flatMap.2 ⟨t, htm, hs⟩)
  | ifThen sp c t ih =>
    rw [names, List.mem_append, not_or] at hnames
    exact .bind .freshLabel fun n _ =>
      .bind (Expr.lower_sameApart hsc ht htypes hnames.1 true) fun _ _ =>
      .bind (jump_sameApart rfl) fun _ _ => .bind (jump_sameApart rfl) fun _ _ =>
        .bind (jump_sameApart rfl) fun _ _ => .bind (ih hnames.2) fun _ _ => jump_sameApart rfl
  | ifElse sp c t e iht ihe =>
    rw [names, List.mem_append, List.mem_append, not_or, not_or] at hnames
    rw [lower_ifElse, lower_ifElse]
    exact .bind .freshLabel fun n _ => .bind (Expr.lower_sameApart hsc ht htypes hnames.1.1 true)
      fun _ _ => .bind (jump_sameApart rfl) fun _ _ => .bind (ihe hnames.2) fun _ _ =>
        .bind (.emitAll (lacks_joinJump n e)) fun _ _ => .bind (jump_sameApart rfl) fun _ _ =>
          .bind (iht hnames.1.2) fun _ _ => .emitAll (lacks_joinLabel n t e)
  | whileLoop sp c t ih =>
    rw [names, List.mem_append, not_or] at hnames
    exact .bind .freshLabel fun n _ => .bind (jump_sameApart rfl) fun _ _ =>
      .bind (Expr.lower_sameApart hsc ht htypes hnames.1 true) fun _ _ =>
        .bind (jump_sameApart rfl) fun _ _ => .bind (jump_sameApart rfl) fun _ _ =>
          .bind (jump_sameApart rfl) fun _ _ => .bind (ih hnames.2) fun _ _ =>
            .bind (jump_sameApart rfl) fun _ _ => jump_sameApart rfl
  | expr sp e => exact Expr.lowerEffect_sameApart hsc ht htypes hnames
  | assign sp x v => exact lowerAssign_sameApart hsc ht htypes x hnames
  | arrayAssign sp x i v =>
    rw [names, List.mem_append, not_or] at hnames
    exact lowerArrayAssign_sameApart hsc ht htypes x hnames.1 hnames.2
  | ret sp v =>
    refine lowerReturn_sameApart hsc ht htypes fun e he => ?_
    cases he
    exact hnames

theorem lowerAll_sameApart (hsc : sc.Lacks s) (ht : sc.table.SameApart s table)
    (htypes : types.Lacks s) {ss : List Stmt} (hnames : s ∉ namesAll ss) :
    Lower.SameApart s (fun _ => True) (lowerAll sc types ss)
      (lowerAll (sc.withTable table) types ss) := by
  rw [namesAll_eq_flatMap] at hnames
  refine lowerAll_sameApart_of fun t htm => lower_sameApart hsc ht htypes ?_
  exact fun hs => hnames (List.mem_flatMap.2 ⟨t, htm, hs⟩)

end Stmt

section

variable {s : String} {table table' : SymbolTable} {types : TypeMap} {cls : ClassSymbols}

/-- A method has the same code without an import that it does not mention, and its assembly does not
name a class by it. -/
theorem MethodDecl.lower_sameApart (ht : table.SameApart s table') (hcls : cls.Lacks s)
    (htypes : types.Lacks s) {d : MethodDecl} (hd : s ∉ d.names) :
    Stage.Alike Eq Eq (fun m m' => m' = m ∧ m.Lacks s) (d.lower table types cls)
      (d.lower table' types cls) := by
  unfold lower
  cases hmethod : cls.method? d.name.node with
  | none => exact .fail joins_eq rfl
  | some method =>
    have hlacks : method.Lacks s := hcls.method? hmethod
    have hreturn : d.returnTy.node.Lacks s :=
      fun hs => hd (List.mem_append_left _ (List.mem_append_left _ hs))
    have hfinal : ∀ i ∈ d.finalReturn, i.Lacks s := by
      unfold finalReturn
      split
      · exact List.forall_mem_singleton.2 (Instr.lacks_of_types_eq_nil rfl)
      · exact List.forall_mem_nil _
    have hbody : Lower.SameApart s (fun _ => True)
        (Stmt.lowerAll (d.scope table cls method) types d.body)
        (Stmt.lowerAll (d.scope table' cls method) types d.body) :=
      Stmt.lowerAll_sameApart (d.lacks_scope hcls hlacks) ht htypes (not_mem_namesAll hd)
    refine .bind joins_eq (hbody.collect fun _ _ h => congrArg _ h.1.symm) ?_
    rintro code code' ⟨rfl, hcode⟩
    refine .bind joins_eq (.refl _ fun _ => rfl) fun _ _ _ => .pure joins_eq ⟨rfl, ?_⟩
    exact ⟨hlacks.params, hreturn, List.forall_mem_append.2 ⟨hcode, hfinal⟩⟩

/-- Equal members, with a property each. -/
theorem eq_and_of_forall₂ {α : Type} {P : α → Prop} {l l' : List α}
    (h : List.Forall₂ (fun a a' => a' = a ∧ P a) l l') : l' = l ∧ ∀ a ∈ l, P a := by
  induction h with
  | nil => exact ⟨rfl, List.forall_mem_nil _⟩
  | cons hab _ ih => exact ⟨by rw [hab.1, ih.1], List.forall_mem_cons.2 ⟨hab.2, ih.2⟩⟩

theorem Ir.Method.lacks_defaultConstructor {c : String} (hc : c ≠ s) :
    (defaultConstructor c).Lacks s where
  params := List.forall_mem_nil _
  returnTy := Ty.lacks_void
  code := by
    refine List.forall_mem_cons.2 ⟨?_, List.forall_mem_singleton.2 (List.forall_mem_nil _)⟩
    exact List.forall_mem_cons.2 ⟨Ty.lacks_cls.2 hc, List.forall_mem_singleton.2 Ty.lacks_void⟩

/-- A class has the same code without an import that it does not mention. -/
theorem ClassDecl.lower_sameApart (ht : table.SameApart s table')
    (hclasses : ∀ c ∈ table.classes, c.Lacks s) (htypes : types.Lacks s)
    (imports imports' : List String) {d : ClassDecl} (hd : s ∉ d.names) (hname : d.name.node ≠ s) :
    Stage.Alike Eq Eq (fun u u' => u' = u.withImports imports' ∧ u.imports = imports ∧ u.Lacks s)
      (d.lower table types imports) (d.lower table' types imports') := by
  unfold lower
  rw [SymbolTable.class?, SymbolTable.class?, ht.classes]
  cases hcls : table.classes.find? (·.name == d.name.node) with
  | none => exact .fail joins_eq rfl
  | some cls =>
    -- Both tables have the same classes, so the same symbols are found.
    have hlacks : cls.Lacks s := hclasses cls (List.mem_of_find?_eq_some hcls)
    have hmethods : Stage.Alike Eq Eq (List.Forall₂ fun m m' => m' = m ∧ m.Lacks s)
        (MethodDecl.lowerAll table types cls d.methods)
          (MethodDecl.lowerAll table' types cls d.methods) := by
      rw [MethodDecl.lowerAll_eq_mapM', MethodDecl.lowerAll_eq_mapM']
      refine .mapM' joins_eq (List.forall₂_same.2 fun md hmd => ?_)
      exact MethodDecl.lower_sameApart ht hlacks htypes (not_mem_names_method hd hmd)
    refine .bind joins_eq hmethods fun ms ms' hms => ?_
    obtain ⟨rfl, hms⟩ := eq_and_of_forall₂ hms
    refine .bind joins_eq (.refl _ fun _ => rfl) fun n n' hn => ?_
    rw [← hn]
    refine .bind joins_eq (.refl _ fun _ => rfl) fun _ _ _ => .pure joins_eq ⟨rfl, rfl, ?_⟩
    constructor
    · exact hname
    · intro hsuper
      exact hd (List.mem_append_left _ (List.mem_append_left _ (Option.mem_toList.2 hsuper)))
    · refine List.forall_mem_map.2 fun f hf hs => ?_
      exact hd (List.mem_append_left _ (List.mem_append_right _ (List.mem_flatMap.2 ⟨f, hf, hs⟩)))
    · exact List.forall_mem_append.2
        ⟨hms, List.forall_mem_singleton.2 (Method.lacks_defaultConstructor hname)⟩

end

end MiniJava
