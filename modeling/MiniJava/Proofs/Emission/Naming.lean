import MiniJava.Proofs.Emission.Listing
import MiniJava.Proofs.Ir.Registers
import MiniJava.Proofs.SideBySide

/-!
# Names in code

Assembly has no names of variables in it, only registers. Registers are given out in the order of
declaration, so a variable with a new name has the register that it had before
(`Ir.Method.registers_withNames`). Labels stand in the assembly as they are. So a class whose
methods have new names for variables and labels has the same text with the new labels
(`Ir.ClassUnit.Named.build`).
-/

namespace MiniJava

open Ir Assembly

/-! ## New names -/

namespace Ir

/-- New names for variables. Different names stay different. -/
structure Naming where
  var : String → String
  injective : Function.Injective var
  this : var "this" = "this"

namespace Naming

def symbol (ν : Naming) (s : Symbol) : Symbol := { s with name := ν.var s.name }

@[simp] theorem name_symbol (ν : Naming) (s : Symbol) : (ν.symbol s).name = ν.var s.name := rfl

@[simp] theorem ty_symbol (ν : Naming) (s : Symbol) : (ν.symbol s).ty = s.ty := rfl

theorem beq_this (ν : Naming) (x : String) : (ν.var x == "this") = (x == "this") := by
  rw [Bool.eq_iff_iff, beq_iff_eq, beq_iff_eq]
  conv_lhs => rw [← ν.this]
  exact ν.injective.eq_iff

end Naming

/-- The operand with its variables named anew. -/
def Operand.withNames (ν : Naming) : Operand → Operand
  | literal k ty => literal k ty
  | var x ty p => var (ν.var x) ty p
  | item x i ty p => item (ν.var x) (i.withNames ν) ty p
  | cls c => cls c

@[simp] theorem Operand.ty_withNames (ν : Naming) (o : Operand) : (o.withNames ν).ty = o.ty := by
  cases o <;> rfl

theorem Operand.isThis_withNames (ν : Naming) (o : Operand) :
    (o.withNames ν).isThis = o.isThis := by
  cases o with
  | var x ty p => exact ν.beq_this x
  | _ => rfl

/-- The instruction with its variables and labels named anew. The operands that name a field are no
variables. -/
def Instr.withNames (ν : Naming) (g : String → String) : Instr → Instr
  | assign dest ty rhs => assign (dest.withNames ν) ty (rhs.withNames ν g)
  | value o => value (o.withNames ν)
  | not o ty => not (o.withNames ν) ty
  | binary op l r ty => binary op (l.withNames ν) (r.withNames ν) ty
  | call kind target m args params ty =>
    call kind (target.withNames ν) m (args.map (Operand.withNames ν)) params ty
  | newObject c => newObject c
  | newArray size ty => newArray (size.withNames ν) ty
  | length a => length (a.withNames ν)
  | getField field ty => getField field ty
  | putField field o => putField field (o.withNames ν)
  | goto l => goto (g l)
  | branch c l => branch (c.withNames ν) (g l)
  | label l => label (g l)
  | ret ty o => ret ty (o.map (Operand.withNames ν))

def Method.withNames (ν : Naming) (g : String → String) (m : Method) : Method :=
  { m with
    params := m.params.map ν.symbol
    locals := m.locals.map ν.symbol
    code := m.code.map (Instr.withNames ν g) }

/-- The classes are the same, with methods whose variables have new names. New labels go through the
whole class. -/
structure ClassUnit.Named (g : String → String) (u u' : ClassUnit) : Prop where
  imports : u'.imports = u.imports
  name : u'.name = u.name
  superName : u'.superName = u.superName
  fields : u'.fields = u.fields
  methods : List.Forall₂ (fun m m' => ∃ ν, m' = m.withNames ν g) u.methods u'.methods

end Ir

/-! ## Registers -/

namespace Ir

/-- A new name has the register of the old one, and no register is missing or added. -/
structure RegisterTable.Named (ν : Naming) (t t' : RegisterTable) : Prop where
  size : t'.size = t.size
  get? : ∀ x, t'.get? (ν.var x) = t.get? x

variable {ν : Naming} {g : String → String}

theorem RegisterTable.Named.declare {t t' : RegisterTable} (h : Named ν t t') (s : Symbol) :
    Named ν (t.declare s) (t'.declare (ν.symbol s)) := by
  refine ⟨?_, fun x => ?_⟩
  · rw [size_declare, size_declare, ν.name_symbol, h.get?, h.size]
  · simp only [get?_declare, Naming.name_symbol, Naming.ty_symbol, h.get?, h.size,
      ν.injective.eq_iff]

theorem RegisterTable.Named.foldl {t t' : RegisterTable} (h : Named ν t t') (l : List Symbol) :
    Named ν (l.foldl RegisterTable.declare t)
      ((l.map ν.symbol).foldl RegisterTable.declare t') := by
  induction l generalizing t t' with
  | nil => exact h
  | cons s l ih => exact ih (h.declare s)

theorem Instr.assigned?_withNames (i : Instr) :
    (i.withNames ν g).assigned? = i.assigned?.map ν.symbol := by
  cases i with
  | assign dest ty rhs => cases dest <;> rfl
  | _ => rfl

theorem Method.declarations_withNames (m : Method) :
    (m.withNames ν g).declarations = m.declarations.map ν.symbol := by
  have hassigned : (m.code.map (Instr.withNames ν g)).filterMap Instr.assigned? =
      (m.code.filterMap Instr.assigned?).map ν.symbol := by
    rw [List.filterMap_map, List.map_filterMap]
    congr 1
    funext i
    exact i.assigned?_withNames
  have hthis :
      (if m.isStatic then [] else [⟨"this", .cls m.className⟩] : List Symbol).map ν.symbol =
        if m.isStatic then [] else [⟨"this", .cls m.className⟩] := by
    split
    · rfl
    · rw [List.map_singleton, Naming.symbol, ν.this]
  rw [declarations, declarations, List.map_append, List.map_append, List.map_append, hthis,
    ← hassigned]
  rfl

/-- Variables keep their registers under new names. -/
theorem Method.registers_withNames {m : Method} (hfresh : m.frozen = none) :
    RegisterTable.Named ν m.registers (m.withNames ν g).registers := by
  have hfresh' : (m.withNames ν g).frozen = none := hfresh
  rw [registers, registers, hfresh, hfresh', declarations_withNames]
  exact RegisterTable.Named.foldl ⟨rfl, fun x => rfl⟩ m.declarations

/-! ## Headings -/

/-- The classes look up names alike, so they write the same paths. -/
structure ClassUnit.SamePaths (u u' : ClassUnit) : Prop where
  imports : u'.imports = u.imports
  name : u'.name = u.name
  superName : u'.superName = u.superName

/-- The methods are declared alike, apart from the names of their parameters. -/
structure Method.SameHeading (m m' : Method) : Prop where
  name : m'.name = m.name
  access : m'.access = m.access
  isStatic : m'.isStatic = m.isStatic
  isConstructor : m'.isConstructor = m.isConstructor
  returnTy : m'.returnTy = m.returnTy
  paramTypes : m'.params.map Symbol.ty = m.params.map Symbol.ty

namespace ClassUnit.SamePaths

variable {u u' : ClassUnit}

theorem classPath (h : u.SamePaths u') (c : String) : u'.classPath c = u.classPath c := by
  rw [ClassUnit.classPath, ClassUnit.classPath, ClassUnit.importPath,
    ClassUnit.importPath, h.imports, h.name]

theorem superPath (h : u.SamePaths u') : u'.superPath = u.superPath := by
  rw [ClassUnit.superPath, ClassUnit.superPath, h.superName]
  cases u.superName with
  | none => rfl
  | some c => exact h.classPath c

theorem descriptor (h : u.SamePaths u') (ty : Ty) : u'.descriptor ty = u.descriptor ty := by
  induction ty with
  | cls c => rw [ClassUnit.descriptor, ClassUnit.descriptor, h.classPath]
  | array e ih => rw [ClassUnit.descriptor, ClassUnit.descriptor, ih]
  | _ => rfl

theorem descriptors (h : u.SamePaths u') (tys : List Ty) :
    tys.map u'.descriptor = tys.map u.descriptor :=
  List.map_congr_left fun ty _ => h.descriptor ty

theorem makeArray (h : u.SamePaths u') (ty : Ty) :
    Assembly.makeArray u' ty = Assembly.makeArray u ty := by
  have hitem : ∀ e, u'.itemName e = u.itemName e := by
    intro e
    unfold ClassUnit.itemName
    split
    · exact h.classPath _
    · rw [h.descriptor]
  unfold Assembly.makeArray
  split
  · rfl
  · rfl
  · rw [hitem]
  · rfl

theorem heading (h : u.SamePaths u') (limits : Limits) {m m' : Method} (hm : m.SameHeading m') :
    Assembly.heading u' limits m' = Assembly.heading u limits m := by
  have hparams : (m'.params.map fun p => u'.descriptor p.ty) =
      m.params.map fun p => u.descriptor p.ty := by
    have htypes := congrArg (List.map u'.descriptor) hm.paramTypes
    rw [h.descriptors (m.params.map Symbol.ty), List.map_map, List.map_map] at htypes
    exact htypes
  have hresult : u'.descriptor m'.returnTy = u.descriptor m.returnTy := by
    rw [hm.returnTy, h.descriptor]
  unfold Assembly.heading
  rw [hm.isConstructor, hm.isStatic, hm.access, hm.name, hparams, hresult]

theorem classText (h : u.SamePaths u') (hfields : u'.fields = u.fields) (limits : Limits)
    {out out' : List Piece}
    (htexts : out'.map (Piece.text u' limits) = out.map (Piece.text u limits)) :
    Assembly.classText u' limits out' = Assembly.classText u limits out := by
  have hlines : u.fields.map (fieldLine u') = u.fields.map (fieldLine u) := by
    refine List.map_congr_left fun f _ => ?_
    rw [fieldLine, fieldLine, h.descriptor]
  unfold Assembly.classText
  rw [hfields, hlines, h.name, h.superPath, htexts]

end ClassUnit.SamePaths

theorem ClassUnit.Named.samePaths {u u' : ClassUnit} (h : u.Named g u') : u.SamePaths u' :=
  ⟨h.imports, h.name, h.superName⟩

theorem Method.sameHeading_withNames (m : Method) : m.SameHeading (m.withNames ν g) where
  name := rfl
  access := rfl
  isStatic := rfl
  isConstructor := rfl
  returnTy := rfl
  paramTypes := by
    show (m.params.map ν.symbol).map Symbol.ty = m.params.map Symbol.ty
    rw [List.map_map]
    exact List.map_congr_left fun p _ => ν.ty_symbol p

end Ir

/-! ## Labels -/

namespace Assembly

/-- The machine instruction with its label named anew, where it is set and where it is jumped to. -/
def Asm.relabel (g : String → String) : Asm → Asm
  | goto l => goto (g l)
  | ifne l => ifne (g l)
  | ifIcmplt l => ifIcmplt (g l)
  | label l => label (g l)
  | a => a

def Piece.relabel (g : String → String) : Piece → Piece
  | heading m => heading m
  | block i code => block i (code.map (Asm.relabel g))
  | ending => ending

variable {g : String → String}

theorem Asm.relabel_relabel (σ g : String → String) (a : Asm) :
    (a.relabel g).relabel σ = a.relabel fun l => σ (g l) := by
  cases a <;> rfl

@[simp] theorem Asm.relabel_self (a : Asm) : (a.relabel fun l => l) = a := by
  cases a <;> rfl

@[simp] theorem Piece.relabel_self (q : Piece) : (q.relabel fun l => l) = q := by
  cases q with
  | block i code =>
    have hcode : code.map (Asm.relabel fun l => l) = code := by
      rw [List.map_congr_left fun a _ => a.relabel_self, List.map_id']
    rw [Piece.relabel, hcode]
  | heading | ending => rfl

/-- Code without labels and jumps stays as it is. -/
theorem Asm.relabel_of_isPlain {a : Asm} (h : a.isPlain = true) : a.relabel g = a := by
  cases a with
  | goto | ifne | ifIcmplt | label => cases h
  | _ => rfl

theorem Plain.relabel {code : List Asm} (h : Plain code) : code.map (Asm.relabel g) = code := by
  rw [List.map_congr_left fun a ha => Asm.relabel_of_isPlain (h a ha), List.map_id']

/-- The labels of comparisons keep their names. -/
structure FixesComparisons (g : String → String) : Prop where
  trueLabel : ∀ n, g (Assembly.trueLabel n) = Assembly.trueLabel n
  doneLabel : ∀ n, g (Assembly.doneLabel n) = Assembly.doneLabel n

theorem FixesComparisons.comparison (hg : FixesComparisons g) (n : Nat) :
    (Assembly.comparison n).map (Asm.relabel g) = Assembly.comparison n := by
  simp only [Assembly.comparison, List.map_cons, List.map_nil, Asm.relabel,
    hg.trueLabel, hg.doneLabel]

end Assembly

/-! ## Code -/

/-- Faults of the same kind. -/
abbrev SameKind (e e' : EmitError) : Prop := e'.ctorIdx = e.ctorIdx

/-- The same value, or a fault of the same kind in both places. -/
abbrev SameValue {α : Type} (r r' : Except EmitError α) : Prop := ResultsAlike SameKind Eq r r'

/-- The second code is the first with new labels. -/
abbrev Relabelled (g : String → String) (code code' : List Asm) : Prop :=
  code' = code.map (Asm.relabel g)

/-- The second stage writes the code of the first with new labels. -/
abbrev SameCode {κ : Type} (g : String → String) (x y : EmitIn κ Unit) : Prop :=
  Stage.Alike (Relabelled g) SameKind Eq x y

theorem joins_relabelled (g : String → String) : Joins (Relabelled g) := joins_map (Asm.relabel g)

/-- Stands in the same class, in a method whose variables have new names. -/
structure Assembly.Frame.Named (ν : Naming) (g : String → String) (f f' : Frame) : Prop where
  unit : f.unit.Named g f'.unit
  isConstructor : f'.method.isConstructor = f.method.isConstructor
  registers : f.registers.Named ν f'.registers

namespace SameCode

variable {κ : Type} {g : String → String} {x y : EmitIn κ Unit}

theorem andThen (h : SameCode g x y) {x' y' : EmitIn κ Unit} (h' : SameCode g x' y') :
    SameCode g (x >>= fun _ => x') (y >>= fun _ => y') :=
  Stage.Alike.bind (joins_relabelled g) h fun _ _ _ => h'

protected theorem fail {e e' : EmitError} (h : SameKind e e') :
    SameCode (κ := κ) g (Stage.fail e) (Stage.fail e') :=
  Stage.Alike.fail (joins_relabelled g) h

protected theorem emitAll {code code' : List Asm} (h : Relabelled g code code') :
    SameCode (κ := κ) g (Stage.emitAll code) (Stage.emitAll code') :=
  Stage.Alike.emitAll h

protected theorem emit {a a' : Asm} (h : a' = a.relabel g) :
    SameCode (κ := κ) g (Stage.emit a) (Stage.emit a') :=
  .emitAll (congrArg (fun a => [a]) h)

/-- Writes the same, which has no label in it. -/
theorem plain {a a' : Asm} (h : a' = a) (hplain : a.isPlain = true) :
    SameCode (κ := κ) g (Stage.emit a) (Stage.emit a') :=
  .emit (h.trans (Asm.relabel_of_isPlain hplain).symm)

/-- Goes on with the value, which is the same in both places. -/
theorem withValue {α : Type} {r r' : Except EmitError α} (h : SameValue r r')
    {k k' : α → EmitIn κ Unit}
    (hk : ∀ a, SameCode g (k a) (k' a)) :
    SameCode g (Stage.ofExcept r >>= k) (Stage.ofExcept r' >>= k') := by
  refine Stage.Alike.bind (joins_relabelled g) (.ofExcept (joins_relabelled g) h) fun a a' ha => ?_
  rw [← ha]
  exact hk a

protected theorem write {r r' : Except EmitError (List Asm)} (h : SameValue r r')
    (hplain : ∀ code, r = .ok code → Plain code) :
    SameCode (κ := κ) g (Assembly.write r) (Assembly.write r') := by
  cases h with
  | ok heq =>
    subst heq
    exact .emitAll (hplain _ rfl).relabel.symm
  | error he => exact .fail he

end SameCode

theorem Assembly.operator_sameCode {κ : Type} [Counting κ] {g : String → String}
    (hg : FixesComparisons g) (op : BinOp) : SameCode (κ := κ) g (operator op) (operator op) := by
  cases op with
  | lt =>
    refine Stage.Alike.bind (joins_relabelled g) (.update (joins_relabelled g) _) fun n n' hn => ?_
    subst hn
    exact .emitAll (hg.comparison n).symm
  | add | sub | mul | div | and => exact .emit rfl

/-! The class that a call goes to, by the three ways to find it. -/

namespace Assembly.Frame

variable {f : Frame} {kind : CallKind} {target : Operand}

theorem owner_of_super (h : (kind == .special && target.isThis && f.method.isConstructor) = true) :
    f.owner kind target = .ok f.unit.superPath := by
  unfold Frame.owner
  split
  · cases h
  · rw [if_pos h]

theorem owner_of_cls (h : (kind == .special && target.isThis && f.method.isConstructor) = false)
    {c : String} (hty : target.ty = .cls c) : f.owner kind target = .ok (f.unit.classPath c) := by
  unfold Frame.owner
  split
  · cases hty
    rfl
  · rw [h, hty]
    rfl

theorem owner_of_not_cls (h : (kind == .special && target.isThis && f.method.isConstructor) = false)
    (hty : ¬∃ c, target.ty = .cls c) :
    f.owner kind target = .error (.invalidCallTarget target.text f.method.name) := by
  unfold Frame.owner
  split
  · exact absurd ⟨_, rfl⟩ hty
  · rw [h, if_neg Bool.false_ne_true]
    split
    · next c hc => exact absurd ⟨c, hc⟩ hty
    · rfl

end Assembly.Frame

namespace Assembly.Frame.Named

variable {κ : Type} {ν : Naming} {g : String → String} {f f' : Frame}

theorem register (h : f.Named ν g f') (x : String) :
    SameValue (f.register x) (f'.register (ν.var x)) := by
  unfold Frame.register
  rw [h.registers.get?]
  split
  · exact .ok rfl
  · exact .error rfl

theorem push (h : f.Named ν g f') (o : Operand) :
    SameValue (f.push o) (f'.push (o.withNames ν)) := by
  induction o with
  | literal v ty => exact .ok rfl
  | var x ty p =>
    rw [Operand.withNames, Frame.push, Frame.push, ν.beq_this]
    split
    · exact .ok rfl
    · exact (h.register x).bind fun r r' hr => .ok (by rw [hr])
  | item x i ty p ih =>
    rw [Operand.withNames, Frame.push, Frame.push]
    exact (h.register x).bind fun r r' hr => ih.bind fun code code' hcode => .ok (by rw [hr, hcode])
  | cls c => exact .ok rfl

theorem pushAll (h : f.Named ν g f') (os : List Operand) :
    SameValue (f.pushAll os) (f'.pushAll (os.map (Operand.withNames ν))) := by
  induction os with
  | nil => exact .ok rfl
  | cons o os ih =>
    rw [List.map_cons, Frame.pushAll, Frame.pushAll]
    exact (h.push o).bind fun code code' hcode => ih.bind fun more more' hmore =>
      .ok (by rw [hcode, hmore])

theorem owner (h : f.Named ν g f') (kind : CallKind) (target : Operand) :
    SameValue (f.owner kind target) (f'.owner kind (target.withNames ν)) := by
  have hsame : (kind == .special && (target.withNames ν).isThis && f'.method.isConstructor) =
      (kind == .special && target.isThis && f.method.isConstructor) := by
    rw [target.isThis_withNames, h.isConstructor]
  cases hsuper : kind == .special && target.isThis && f.method.isConstructor with
  | true =>
    rw [owner_of_super hsuper, owner_of_super (hsame.trans hsuper)]
    exact .ok h.unit.samePaths.superPath.symm
  | false =>
    by_cases hty : ∃ c, target.ty = .cls c
    · obtain ⟨c, hc⟩ := hty
      rw [owner_of_cls hsuper hc,
        owner_of_cls (hsame.trans hsuper) ((target.ty_withNames ν).trans hc)]
      exact .ok (h.unit.samePaths.classPath c).symm
    · rw [owner_of_not_cls hsuper hty,
        owner_of_not_cls (hsame.trans hsuper) ((target.ty_withNames ν).symm ▸ hty)]
      exact .error rfl

theorem call (h : f.Named ν g f') (kind : CallKind) (target : Operand) (method : String)
    (args : List Operand) (params : Option (List Ty)) (ty : Ty) :
    SameValue (f.call kind target method args params ty)
      (f'.call kind (target.withNames ν) method (args.map (Operand.withNames ν)) params ty) := by
  have htypes : (args.map (Operand.withNames ν)).map Operand.ty = args.map Operand.ty := by
    rw [List.map_map]
    exact List.map_congr_left fun o _ => o.ty_withNames ν
  unfold Frame.call
  refine (h.owner kind target).bind fun owner owner' howner => ?_
  dsimp only
  rw [htypes, h.unit.samePaths.descriptors, h.unit.samePaths.descriptor, ← howner]
  have hargs : ∀ object : List Asm, SameValue
      (f.pushAll args >>= fun pushed => .ok (object ++ pushed ++ [.invoke kind owner method
        ((params.getD (args.map Operand.ty)).map f.unit.descriptor) (f.unit.descriptor ty)]))
      (f'.pushAll (args.map (Operand.withNames ν)) >>= fun pushed => .ok (object ++ pushed ++
        [.invoke kind owner method ((params.getD (args.map Operand.ty)).map f.unit.descriptor)
          (f.unit.descriptor ty)])) :=
    fun object => (h.pushAll args).bind fun pushed pushed' hpushed => .ok (by rw [hpushed])
  split
  · exact hargs []
  · refine (h.push target).bind fun object object' hobject => ?_
    rw [← hobject]
    exact hargs object

theorem writePush (h : f.Named ν g f') (o : Operand) :
    SameCode (κ := κ) g (write (f.push o)) (write (f'.push (o.withNames ν))) :=
  .write (h.push o) fun _ hcode => push_plain hcode

theorem writeCall (h : f.Named ν g f') (kind : CallKind) (target : Operand) (method : String)
    (args : List Operand) (params : Option (List Ty)) (ty : Ty) :
    SameCode (κ := κ) g (write (f.call kind target method args params ty))
      (write (f'.call kind (target.withNames ν) method (args.map (Operand.withNames ν))
        params ty)) :=
  .write (h.call kind target method args params ty) fun _ hcode => call_plain hcode

variable [Counting κ] (hg : FixesComparisons g)

include hg

theorem value (h : f.Named ν g f') (i : Instr) :
    SameCode (κ := κ) g (f.value i) (f'.value (i.withNames ν g)) := by
  cases i with
  | value o => exact h.writePush o
  | not o ty => exact .andThen (h.writePush o) (.emitAll rfl)
  | binary op l r ty =>
    exact .andThen (h.writePush l) (.andThen (h.writePush r) (operator_sameCode hg op))
  | call kind target method args params ty =>
    rw [Instr.withNames, Frame.value, Frame.value]
    split
    · exact .fail rfl
    · exact h.writeCall kind target method args params ty
  | newObject c => exact .plain (by rw [h.unit.samePaths.classPath]) rfl
  | newArray size ty =>
    exact .andThen (h.writePush size)
      (.plain (h.unit.samePaths.makeArray ty) (isPlain_makeArray ..))
  | length a => exact .andThen (h.writePush a) (.emit rfl)
  | getField field ty =>
    rw [Instr.withNames, Frame.value, Frame.value, h.unit.name, h.unit.samePaths.classPath,
      h.unit.samePaths.descriptor]
    exact .emitAll rfl
  | _ => exact .fail rfl

theorem assign (h : f.Named ν g f') (dest : Operand) (ty : Ty) (rhs : Instr) :
    SameCode (κ := κ) g (f.assign dest ty rhs)
      (f'.assign (dest.withNames ν) ty (rhs.withNames ν g)) := by
  cases dest with
  | var x t p =>
    exact .andThen (h.value hg rhs)
      (.withValue (h.register x) fun r => .plain rfl (isPlain_store ..))
  | item x index t p =>
    exact .withValue (h.register x) fun r => .andThen (.emit rfl)
      (.andThen (h.writePush index) (.andThen (h.value hg rhs) (.plain rfl (isPlain_storeItem ..))))
  | literal | cls => exact .fail rfl

/-- An instruction with new names has the same code with new labels. -/
theorem instr (h : f.Named ν g f') (i : Instr) :
    SameCode (κ := κ) g (f.instr i) (f'.instr (i.withNames ν g)) := by
  cases i with
  | assign dest ty rhs => exact h.assign hg dest ty rhs
  | call kind target method args params ty =>
    refine .andThen (h.writeCall kind target method args params ty) ?_
    split
    · exact .emit rfl
    · exact Stage.Alike.pure (joins_relabelled g) rfl
  | putField field v => cases field with
    | var x ty p =>
      refine .andThen (.emit rfl) (.andThen (h.writePush v) (.plain ?_ rfl))
      rw [h.unit.name, h.unit.samePaths.classPath, h.unit.samePaths.descriptor]
    | literal | item | cls => exact .fail rfl
  | branch c l => exact .andThen (h.writePush c) (.emit rfl)
  | ret ty o => cases ty with
    | void => exact .emit rfl
    | int | bool | str | cls | array => cases o with
      | none => exact .fail rfl
      | some o => exact .andThen (h.writePush o) (.plain rfl (isPlain_returnOf _))
  | goto l | label l => exact .emit rfl
  | value | not | binary | newObject | newArray | length | getField =>
    exact .andThen (h.value hg _) (.emit rfl)

end Assembly.Frame.Named

/-! ## Classes -/

/-- The second piece is the first with new names. -/
inductive Assembly.Piece.Named (g : String → String) : Piece → Piece → Prop
  | heading {m : Method} (ν : Naming) : Named g (.heading m) (.heading (m.withNames ν g))
  | block {i i' : Instr} {code : List Asm} :
      Named g (.block i code) (.block i' (code.map (Asm.relabel g)))
  | ending : Named g .ending .ending

/-- The second stage writes the pieces of the first with new names. -/
abbrev NamedPieces {κ : Type} (g : String → String) (x y : Stage κ Piece EmitError Unit) : Prop :=
  Stage.Alike (List.Forall₂ (Piece.Named g)) SameKind Eq x y

section

variable {κ : Type} [Counting κ] {g : String → String} {u u' : ClassUnit}

theorem Assembly.Frame.Named.blocks (hg : FixesComparisons g) {ν : Naming} {f f' : Frame}
    (h : f.Named ν g f') (is : List Instr) :
    NamedPieces (κ := κ) g (f.blocks is) (f'.blocks (is.map (Instr.withNames ν g))) := by
  have hjoins := joins_forall₂ (Piece.Named g)
  induction is with
  | nil => exact .pure hjoins rfl
  | cons i is ih =>
    rw [List.map_cons, Frame.blocks, Frame.blocks]
    refine .bind hjoins ((h.instr hg i).collect fun _ _ _ => hjoins.nil) fun code code' hcode => ?_
    subst hcode
    exact .bind hjoins (.emit (.cons .block .nil)) fun _ _ _ => ih

namespace Ir.ClassUnit.Named

theorem methodPieces (hg : FixesComparisons g) (h : u.Named g u') (ν : Naming) {m : Method}
    (hfresh : m.frozen = none) :
    NamedPieces (κ := κ) g (Assembly.methodPieces u m)
      (Assembly.methodPieces u' (m.withNames ν g)) := by
  have hjoins := joins_forall₂ (Piece.Named g)
  have hframe : (Frame.of u m).Named ν g (Frame.of u' (m.withNames ν g)) :=
    ⟨h, rfl, Method.registers_withNames hfresh⟩
  exact .bind hjoins (.emit (.cons (.heading ν) .nil)) fun _ _ _ =>
    .bind hjoins (hframe.blocks hg m.code) fun _ _ _ => .emit (.cons .ending .nil)

theorem methodsPieces (hg : FixesComparisons g) (h : u.Named g u') {ms ms' : List Method}
    (hms : List.Forall₂ (fun m m' => ∃ ν, m' = m.withNames ν g) ms ms')
    (hfresh : ∀ m ∈ ms, m.frozen = none) :
    NamedPieces (κ := κ) g (Assembly.methodsPieces u ms) (Assembly.methodsPieces u' ms') := by
  have hjoins := joins_forall₂ (Piece.Named g)
  induction hms with
  | nil => exact .pure hjoins rfl
  | cons hm _ ih =>
    obtain ⟨ν, rfl⟩ := hm
    rw [List.forall_mem_cons] at hfresh
    exact .bind hjoins (h.methodPieces hg ν hfresh.1) fun _ _ _ => ih hfresh.2

/-- Constructors stay constructors, so the methods come in the same order. -/
theorem emissionOrder (h : u.Named g u') :
    List.Forall₂ (fun m m' => ∃ ν, m' = m.withNames ν g) u.emissionOrder u'.emissionOrder := by
  refine List.rel_append (List.rel_filter ?_ h.methods) (List.rel_filter ?_ h.methods)
  · rintro m m' ⟨ν, rfl⟩
    exact Iff.rfl
  · rintro m m' ⟨ν, rfl⟩
    exact Iff.rfl

theorem pieces (hg : FixesComparisons g) (h : u.Named g u')
    (hfresh : ∀ m ∈ u.methods, m.frozen = none) : NamedPieces (κ := κ) g u.pieces u'.pieces :=
  h.methodsPieces hg h.emissionOrder fun m hm => hfresh m ((perm_emissionOrder u).mem_iff.1 hm)

end Ir.ClassUnit.Named

/-! ## Texts -/

variable (κ) in
/-- The text of a class with new names for the labels, where they are set and where they are jumped
to. Comparisons are counted in `κ`. -/
def Ir.ClassUnit.relabelledText (u : ClassUnit) (limits : Limits) (g : String → String) : String :=
  classText u limits ((u.pieces.run (Counting.zero : κ)).output.map (Piece.relabel g))

namespace Ir.ClassUnit.Named

theorem pieceText (h : u.Named g u') (limits : Limits) (σ : String → String) {q q' : Piece}
    (hq : q.Named g q') :
    Piece.text u' limits (q'.relabel σ) = Piece.text u limits (q.relabel fun l => σ (g l)) := by
  cases hq with
  | heading ν =>
    rw [Piece.relabel, Piece.relabel, Piece.text, Piece.text,
      h.samePaths.heading limits (Method.sameHeading_withNames _)]
  | @block i i' code =>
    have hcode : (code.map (Asm.relabel g)).map (Asm.relabel σ) =
        code.map (Asm.relabel fun l => σ (g l)) := by
      rw [List.map_map]
      exact List.map_congr_left fun a _ => a.relabel_relabel σ g
    rw [Piece.relabel, Piece.relabel, Piece.text, Piece.text, hcode]
  | ending => rw [Piece.relabel, Piece.relabel, Piece.text, Piece.text]

theorem relabelledText (hg : FixesComparisons g) (h : u.Named g u')
    (hfresh : ∀ m ∈ u.methods, m.frozen = none) (limits : Limits) (σ : String → String) :
    u'.relabelledText κ limits σ = u.relabelledText κ limits fun l => σ (g l) := by
  refine h.samePaths.classText h.fields limits ?_
  rw [List.map_map, List.map_map]
  exact map_eq_of_forall₂ ((h.pieces hg hfresh Counting.zero).output.imp fun q q' hq =>
    h.pieceText limits σ hq)

end Ir.ClassUnit.Named

/-- The text of a class is the one in which labels have their own names. -/
theorem Assembly.Emitter.result_build_new (u : ClassUnit) (limits : Limits) :
    (build (κ := κ) { unit := u, limits }).result =
      (u.pieces.run (Counting.zero : κ)).result.map fun _ =>
        u.relabelledText κ limits fun l => l := by
  have hsame : (u.pieces.run (Counting.zero : κ)).output.map (Piece.relabel fun l => l) =
      (u.pieces.run (Counting.zero : κ)).output := by
    rw [List.map_congr_left fun q _ => q.relabel_self, List.map_id']
  unfold ClassUnit.relabelledText
  dsimp only [build]
  rw [hsame]
  cases (u.pieces.run (Counting.zero : κ)).result with
  | ok _ => rfl
  | error e => rfl

/-- **Emission of code with new names.** The text of the class is the same with new labels. -/
theorem Ir.ClassUnit.Named.build (hg : FixesComparisons g) (h : u.Named g u')
    (hfresh : ∀ m ∈ u.methods, m.frozen = none) (limits : Limits) :
    ResultsAlike SameKind
      (fun text text' => text = (u.relabelledText κ limits fun l => l) ∧
        text' = u.relabelledText κ limits g)
      (Emitter.build (κ := κ) { unit := u, limits }).result
      (Emitter.build (κ := κ) { unit := u', limits }).result := by
  rw [Emitter.result_build_new, Emitter.result_build_new, h.relabelledText hg hfresh]
  have hresult := (h.pieces hg hfresh (Counting.zero : κ)).result
  generalize (u.pieces.run (Counting.zero : κ)).result = r,
    (u'.pieces.run (Counting.zero : κ)).result = r' at hresult
  cases hresult with
  | ok _ => exact .ok ⟨rfl, rfl⟩
  | error he => exact .error he

end

end MiniJava
