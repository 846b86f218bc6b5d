import MiniJava.Proofs.Emission.Linking
import MiniJava.Proofs.Imports.Code

/-!
# Assembly without an import

The assembly of a class asks for the import of a class where it writes its path: in descriptors, in
calls, where an object or an array is made, and for the superclass. A unit that has none of these
for a name (`Ir.ClassUnit.Lacks`) has the same assembly under any other list of imports that agrees
on all other names (`Ir.ClassUnit.emit_withImports`).
-/

namespace MiniJava

open Ir Assembly

/-! ## Paths and descriptors -/

namespace Ir.ClassUnit

variable {s : String} {u : ClassUnit} {imports : List String}

/-- The imports of the class and the others agree on all names but one. -/
def AgreesApart (s : String) (u : ClassUnit) (imports : List String) : Prop :=
  ∀ c, c ≠ s → findImport imports c = findImport u.imports c

namespace AgreesApart

theorem classPath (h : u.AgreesApart s imports) {c : String} (hc : c ≠ s) :
    (u.withImports imports).classPath c = u.classPath c := by
  have hpath : (u.withImports imports).importPath c = u.importPath c := h c hc
  unfold ClassUnit.classPath
  rw [hpath]
  rfl

theorem superPath (h : u.AgreesApart s imports) (hsuper : u.superName ≠ some s) :
    (u.withImports imports).superPath = u.superPath := by
  unfold ClassUnit.superPath
  have hname : (u.withImports imports).superName = u.superName := rfl
  rw [hname]
  cases hc : u.superName with
  | none => rfl
  | some c => exact h.classPath fun heq => hsuper (heq ▸ hc)

theorem descriptor (h : u.AgreesApart s imports) {ty : Ty} (hty : ty.Lacks s) :
    (u.withImports imports).descriptor ty = u.descriptor ty := by
  induction ty with
  | cls c => rw [ClassUnit.descriptor, ClassUnit.descriptor, h.classPath (Ty.lacks_cls.1 hty)]
  | array e ih => rw [ClassUnit.descriptor, ClassUnit.descriptor, ih (Ty.lacks_array.1 hty)]
  | int | bool | str | void => rfl

theorem descriptors (h : u.AgreesApart s imports) {tys : List Ty} (htys : ∀ ty ∈ tys, ty.Lacks s) :
    tys.map (u.withImports imports).descriptor = tys.map u.descriptor :=
  List.map_congr_left fun ty hty => h.descriptor (htys ty hty)

theorem makeArray (h : u.AgreesApart s imports) {ty : Ty} (hty : ty.Lacks s) :
    Assembly.makeArray (u.withImports imports) ty = Assembly.makeArray u ty := by
  have hitem : ∀ e : Ty, e.Lacks s → (u.withImports imports).itemName e = u.itemName e := by
    intro e he
    unfold ClassUnit.itemName
    split
    · exact h.classPath (Ty.lacks_cls.1 he)
    · rw [h.descriptor he]
  unfold Assembly.makeArray
  split
  · rfl
  · rfl
  · rw [hitem _ (Ty.lacks_array.1 hty)]
  · rfl

theorem heading (h : u.AgreesApart s imports) (limits : Limits) {m : Method} (hm : m.Lacks s) :
    Assembly.heading (u.withImports imports) limits m = Assembly.heading u limits m := by
  have hparams : (m.params.map fun p => (u.withImports imports).descriptor p.ty) =
      m.params.map fun p => u.descriptor p.ty :=
    List.map_congr_left fun p hp => h.descriptor (hm.params p hp)
  unfold Assembly.heading
  rw [hparams, h.descriptor hm.returnTy]

theorem fieldLine (h : u.AgreesApart s imports) {f : Field} (hf : f.ty.Lacks s) :
    Assembly.fieldLine (u.withImports imports) f = Assembly.fieldLine u f := by
  unfold Assembly.fieldLine
  rw [h.descriptor hf]

end AgreesApart

end Ir.ClassUnit

/-! ## Code -/

namespace Assembly.Frame

variable {s : String} {f : Frame} {imports : List String}

/-- The frame in the class with other imports. -/
def withImports (f : Frame) (imports : List String) : Frame :=
  { f with unit := f.unit.withImports imports }

theorem push_withImports (o : Operand) : (f.withImports imports).push o = f.push o := by
  have hregister : ∀ x, (f.withImports imports).register x = f.register x := fun _ => rfl
  induction o with
  | literal v ty => rfl
  | var x ty p => rw [push, push, hregister]
  | item x i ty p ih => rw [push, push, hregister, ih]
  | cls c => rfl

theorem pushAll_withImports (os : List Operand) :
    (f.withImports imports).pushAll os = f.pushAll os := by
  induction os with
  | nil => rfl
  | cons o os ih => rw [pushAll, pushAll, push_withImports, ih]

variable (h : f.unit.AgreesApart s imports) (hsuper : f.unit.superName ≠ some s)

include h hsuper

theorem owner_withImports (kind : CallKind) {target : Operand} (htarget : target.Lacks s) :
    (f.withImports imports).owner kind target = f.owner kind target := by
  have hmethod : (f.withImports imports).method = f.method := rfl
  have hpath : (f.withImports imports).unit.superPath = f.unit.superPath := h.superPath hsuper
  unfold owner
  rw [hmethod, hpath]
  split
  · next name => exact congrArg Except.ok (h.classPath (Ty.lacks_cls.1 htarget))
  · congr 1
    split
    · next name hname =>
      rw [Operand.Lacks, hname, Ty.lacks_cls] at htarget
      exact congrArg Except.ok (h.classPath htarget)
    · rfl

theorem call_withImports (kind : CallKind) {target : Operand} (method : String)
    {args : List Operand} {params : Option (List Ty)} {ty : Ty}
    (hi : (Instr.call kind target method args params ty).Lacks s) :
    (f.withImports imports).call kind target method args params ty =
      f.call kind target method args params ty := by
  obtain ⟨htarget, hi⟩ := List.forall_mem_cons.1 hi
  obtain ⟨hty, hparams⟩ := List.forall_mem_cons.1 hi
  have hdescriptors : ∀ tys : List Ty, (∀ t ∈ tys, t.Lacks s) →
      tys.map (f.withImports imports).unit.descriptor = tys.map f.unit.descriptor :=
    fun tys htys => h.descriptors htys
  have hresult : (f.withImports imports).unit.descriptor ty = f.unit.descriptor ty :=
    h.descriptor hty
  unfold call
  rw [owner_withImports h hsuper kind htarget, push_withImports, pushAll_withImports]
  dsimp only
  rw [hdescriptors _ hparams, hresult]

theorem value_withImports {i : Instr} (hi : i.Lacks s) :
    (f.withImports imports).value i = f.value i := by
  cases i with
  | value o | not o ty | length a => simp only [value, push_withImports]
  | binary op l r ty => simp only [value, push_withImports]
  | call kind target method args params ty =>
    rw [value, value, call_withImports h hsuper kind method hi]
    rfl
  | newObject c =>
    have hpath : (f.withImports imports).unit.classPath c = f.unit.classPath c :=
      h.classPath (Ty.lacks_cls.1 (List.forall_mem_singleton.1 hi))
    rw [value, value, hpath]
  | newArray size ty =>
    have harray : Assembly.makeArray (f.withImports imports).unit ty =
        Assembly.makeArray f.unit ty :=
      h.makeArray (List.forall_mem_singleton.1 hi)
    rw [value, value, push_withImports, harray]
  | getField field ty =>
    have hty : (f.withImports imports).unit.descriptor ty = f.unit.descriptor ty :=
      h.descriptor (List.forall_mem_singleton.1 hi)
    rw [value, value, hty, classPath_self, classPath_self]
    rfl
  | assign | putField | goto | branch | label | ret => rfl

theorem assign_withImports (dest : Operand) (ty : Ty) {rhs : Instr} (hrhs : rhs.Lacks s) :
    (f.withImports imports).assign dest ty rhs = f.assign dest ty rhs := by
  have hregister : ∀ x, (f.withImports imports).register x = f.register x := fun _ => rfl
  cases dest with
  | var x t p => rw [assign, assign, value_withImports h hsuper hrhs, hregister]
  | item x index t p =>
    rw [assign, assign, value_withImports h hsuper hrhs, push_withImports, hregister]
  | literal | cls => rfl

/-- An instruction that does not name a class by `s` has the same code. -/
theorem instr_withImports {i : Instr} (hi : i.Lacks s) :
    (f.withImports imports).instr i = f.instr i := by
  cases i with
  | assign dest ty rhs => exact assign_withImports h hsuper dest ty hi
  | call kind target method args params ty =>
    rw [instr, instr, call_withImports h hsuper kind method hi]
  | putField field v => cases field with
    | var x ty p =>
      have hty : (f.withImports imports).unit.descriptor ty = f.unit.descriptor ty :=
        h.descriptor (List.forall_mem_singleton.1 hi)
      simp only [instr, push_withImports, hty, classPath_self]
      rfl
    | literal | item | cls => rfl
  | goto l | label l => rfl
  | branch c l => simp only [instr, push_withImports]
  | ret ty o => cases o with
    | none => cases ty <;> rfl
    | some o => cases ty <;> simp only [instr, push_withImports]
  | value o | not o ty | binary op l r ty | newObject c | newArray size ty | length a
      | getField x ty =>
    simp only [instr, value_withImports h hsuper hi]

end Assembly.Frame

/-! ## Classes -/

section

variable {s : String} {u : ClassUnit} {imports : List String}

/-- Pieces with the same text. -/
def SameText (u u' : ClassUnit) (limits : Limits) (out out' : List Piece) : Prop :=
  out'.map (Piece.text u' limits) = out.map (Piece.text u limits)

theorem joins_sameText (u u' : ClassUnit) (limits : Limits) : Joins (SameText u u' limits) where
  nil := by rw [SameText, List.map_nil, List.map_nil]
  append := by
    intro a a' b b' ha hb
    rw [SameText, List.map_append, List.map_append, ha, hb]

/-- The pieces of both classes have the same text, and a fault is the same. -/
abbrev EqualPieces (u u' : ClassUnit) (limits : Limits)
    (x y : Stage Nat Piece EmitError Unit) : Prop :=
  Stage.Alike (SameText u u' limits) Eq Eq x y

theorem Assembly.Frame.blocks_withImports {f : Frame} (h : f.unit.AgreesApart s imports)
    (hsuper : f.unit.superName ≠ some s) (limits : Limits) {is : List Instr}
    (his : ∀ i ∈ is, i.Lacks s) :
    EqualPieces u (u.withImports imports) limits (f.blocks is)
      ((f.withImports imports).blocks is) := by
  have hjoins := joins_sameText u (u.withImports imports) limits
  induction is with
  | nil => exact .pure hjoins rfl
  | cons i is ih =>
    rw [List.forall_mem_cons] at his
    rw [Frame.blocks, Frame.blocks, Frame.instr_withImports h hsuper his.1]
    refine .bind hjoins (.collect (.refl _ fun _ => rfl) fun _ _ _ => hjoins.nil)
      fun code code' hcode => ?_
    refine .bind hjoins (.emit ?_) fun _ _ _ => ih his.2
    rw [← hcode, SameText, List.map_singleton, List.map_singleton, Piece.text, Piece.text]

theorem Assembly.methodPieces_withImports (h : u.AgreesApart s imports) (hu : u.Lacks s)
    (limits : Limits) {m : Method} (hm : m.Lacks s) :
    EqualPieces u (u.withImports imports) limits (methodPieces u m)
      (methodPieces (u.withImports imports) m) := by
  have hjoins := joins_sameText u (u.withImports imports) limits
  have hheading : SameText u (u.withImports imports) limits [.heading m] [.heading m] := by
    rw [SameText, List.map_singleton, List.map_singleton, Piece.text, Piece.text,
      h.heading limits hm]
  have hending : SameText u (u.withImports imports) limits [.ending] [.ending] := by
    rw [SameText, List.map_singleton, List.map_singleton, Piece.text, Piece.text]
  have hblocks : EqualPieces u (u.withImports imports) limits ((Frame.of u m).blocks m.code)
      ((Frame.of (u.withImports imports) m).blocks m.code) :=
    Frame.blocks_withImports h hu.superName limits hm.code
  exact .bind hjoins (.emit hheading) fun _ _ _ => .bind hjoins hblocks fun _ _ _ => .emit hending

theorem Assembly.methodsPieces_withImports (h : u.AgreesApart s imports) (hu : u.Lacks s)
    (limits : Limits) {ms : List Method} (hms : ∀ m ∈ ms, m.Lacks s) :
    EqualPieces u (u.withImports imports) limits (methodsPieces u ms)
      (methodsPieces (u.withImports imports) ms) := by
  have hjoins := joins_sameText u (u.withImports imports) limits
  induction ms with
  | nil => exact .pure hjoins rfl
  | cons m ms ih =>
    rw [List.forall_mem_cons] at hms
    exact .bind hjoins (methodPieces_withImports h hu limits hms.1) fun _ _ _ => ih hms.2

theorem Ir.ClassUnit.classText_withImports (h : u.AgreesApart s imports) (hu : u.Lacks s)
    (limits : Limits) {out out' : List Piece}
    (htext : SameText u (u.withImports imports) limits out out') :
    Assembly.classText (u.withImports imports) limits out' = Assembly.classText u limits out := by
  have hfields : u.fields.map (fieldLine (u.withImports imports)) = u.fields.map (fieldLine u) :=
    List.map_congr_left fun f hf => h.fieldLine (hu.fields f hf)
  have hsame : (u.withImports imports).fields = u.fields := rfl
  have hname : (u.withImports imports).name = u.name := rfl
  unfold Assembly.classText
  rw [hsame, hname, hfields, h.superPath hu.superName, htext]

/-- **Emission without an import.** Other imports do not change the assembly of a class if they
agree on all names that the assembly needs. -/
theorem Ir.ClassUnit.emit_withImports (h : u.AgreesApart s imports) (hu : u.Lacks s)
    (limits : Limits) :
    emit (u.withImports imports) limits = emit u limits := by
  have hmethods : ∀ m ∈ u.emissionOrder, m.Lacks s :=
    fun m hm => hu.methods m ((perm_emissionOrder u).mem_iff.1 hm)
  have hpieces : (u.pieces.run 0).Alike (SameText u (u.withImports imports) limits) Eq Eq
      ((u.withImports imports).pieces.run 0) :=
    methodsPieces_withImports h hu limits hmethods 0
  unfold emit
  dsimp only [Emitter.build]
  rcases hold : u.pieces.run 0 with ⟨r, n, out⟩
  rcases hnew : (u.withImports imports).pieces.run 0 with ⟨r', n', out'⟩
  rw [hold, hnew] at hpieces
  obtain ⟨hresult, -, htext⟩ := hpieces
  dsimp only at hresult htext ⊢
  cases hresult with
  | ok _ => exact congrArg Except.ok (classText_withImports h hu limits htext)
  | error he => rw [he]

end

end MiniJava
