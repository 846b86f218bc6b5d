import MiniJava.Proofs.Emission.Naming
import MiniJava.Proofs.Lowering.Marks

/-!
# Code without marks

Assembly has no ordinals of parameters in it: an operand is pushed by the register of its name.
Marks only show in the text of three-address code, and so in the text of some faults. A class whose
marks are erased has the same assembly, and a fault stays a fault of its kind at the same place
(`Ir.ClassUnit.pieces_unmarked`).
-/

namespace MiniJava

open Ir Assembly

/-! ## Erasing marks -/

namespace Ir

def Operand.unmarked : Operand → Operand
  | literal v t => literal v t
  | var x t _ => var x t none
  | item x i t _ => item x i.unmarked t none
  | cls c => cls c

/-- The instruction without marks, also where it names a field. -/
def Instr.unmarked : Instr → Instr
  | assign dest ty rhs => assign dest.unmarked ty rhs.unmarked
  | value o => value o.unmarked
  | not o ty => not o.unmarked ty
  | binary op l r ty => binary op l.unmarked r.unmarked ty
  | call kind target m args params ty =>
    call kind target.unmarked m (args.map Operand.unmarked) params ty
  | newObject c => newObject c
  | newArray size ty => newArray size.unmarked ty
  | length a => length a.unmarked
  | getField field ty => getField field.unmarked ty
  | putField field o => putField field.unmarked o.unmarked
  | goto l => goto l
  | branch c l => branch c.unmarked l
  | label l => label l
  | ret ty o => ret ty (o.map Operand.unmarked)

def Method.unmarked (m : Method) : Method := { m with code := m.code.map Instr.unmarked }

def ClassUnit.unmarked (u : ClassUnit) : ClassUnit :=
  { u with methods := u.methods.map Method.unmarked }

/-- No operand of the code is marked, at any depth. -/
def ClassUnit.HasNoMarks (u : ClassUnit) : Prop :=
  ∀ m ∈ u.methods, ∀ i ∈ m.code, ∀ o ∈ i.occurrences, o.mark? = none

@[simp] theorem Operand.ty_unmarked (o : Operand) : o.unmarked.ty = o.ty := by
  cases o <;> rfl

@[simp] theorem Operand.name?_unmarked (o : Operand) : o.unmarked.name? = o.name? := by
  cases o <;> rfl

@[simp] theorem Operand.isThis_unmarked (o : Operand) : o.unmarked.isThis = o.isThis := by
  cases o <;> rfl

theorem Operand.mark?_of_unmarked (o : Operand) : ∀ q ∈ o.unmarked.occurrences, q.mark? = none := by
  induction o with
  | literal | var | cls => exact List.forall_mem_singleton.2 rfl
  | item x i t p ih => exact List.forall_mem_cons.2 ⟨rfl, ih⟩

theorem Instr.operands_unmarked (i : Instr) :
    i.unmarked.operands = i.operands.map Operand.unmarked := by
  induction i with
  | assign dest ty rhs ih => rw [unmarked, operands, operands, ih, List.map_cons]
  | ret ty o => cases o <;> rfl
  | _ => rfl

theorem ClassUnit.hasNoMarks_unmarked (u : ClassUnit) : u.unmarked.HasNoMarks := by
  intro m hm i hi o ho
  obtain ⟨m, -, rfl⟩ := List.mem_map.1 hm
  obtain ⟨i, -, rfl⟩ := List.mem_map.1 hi
  obtain ⟨q, hq, ho⟩ := List.mem_flatMap.1 ho
  rw [Instr.operands_unmarked] at hq
  obtain ⟨q, -, rfl⟩ := List.mem_map.1 hq
  exact q.mark?_of_unmarked o ho

/-! Registers, headings and paths have nothing to do with marks. -/

theorem Instr.assigned?_unmarked (i : Instr) : i.unmarked.assigned? = i.assigned? := by
  cases i with
  | assign dest ty rhs => cases dest <;> rfl
  | _ => rfl

theorem Method.registers_unmarked (m : Method) : m.unmarked.registers = m.registers := by
  have hassigned : (m.code.map Instr.unmarked).filterMap Instr.assigned? =
      m.code.filterMap Instr.assigned? := by
    rw [List.filterMap_map]
    congr 1
    funext i
    exact i.assigned?_unmarked
  unfold registers declarations
  show m.frozen.getD
    (.ofDeclarations (_ ++ (m.code.map Instr.unmarked).filterMap Instr.assigned?)) = _
  rw [hassigned]
  rfl

theorem Method.sameHeading_unmarked (m : Method) : m.SameHeading m.unmarked :=
  ⟨rfl, rfl, rfl, rfl, rfl, rfl⟩

theorem ClassUnit.samePaths_unmarked (u : ClassUnit) : u.SamePaths u.unmarked := ⟨rfl, rfl, rfl⟩

end Ir

/-! ## Code -/

/-- The stages write the same. One has a fault where the other has one of the same kind. -/
abbrev SameWork (x y : Emit Unit) : Prop := Stage.Alike Eq SameKind Eq x y

namespace SameWork

variable {x y x' y' : Emit Unit}

theorem of_eq (h : x = y) : SameWork x y := h ▸ .refl x fun _ => rfl

theorem andThen (h : SameWork x y) (h' : SameWork x' y') :
    SameWork (x >>= fun _ => x') (y >>= fun _ => y') :=
  .bind joins_eq h fun _ _ _ => h'

/-- Goes on with one and the same value. -/
theorem withValue {α : Type} {r : Except EmitError α} {k k' : α → Emit Unit}
    (hk : ∀ a, SameWork (k a) (k' a)) :
    SameWork (Stage.ofExcept r >>= k) (Stage.ofExcept r >>= k') := by
  have hr : Stage.Alike Eq SameKind Eq (Stage.ofExcept r : Emit α) (Stage.ofExcept r) :=
    .refl _ fun _ => rfl
  refine .bind joins_eq hr fun a a' ha => ?_
  rw [← ha]
  exact hk a

protected theorem write {r r' : Except EmitError (List Asm)} (h : SameValue r r') :
    SameWork (write r) (write r') :=
  .bind joins_eq (.ofExcept joins_eq h) fun _ _ hcode => of_eq (congrArg Stage.emitAll hcode)

end SameWork

namespace Assembly.Frame

/-- The frame in the class without marks. -/
def unmarked (f : Frame) : Frame := ⟨f.unit.unmarked, f.method.unmarked, f.registers⟩

variable (f : Frame)

theorem of_unmarked (u : ClassUnit) (m : Method) :
    Frame.of u.unmarked m.unmarked = (Frame.of u m).unmarked := by
  rw [Frame.of, Frame.of, unmarked, m.registers_unmarked]

theorem paths_unmarked : f.unit.SamePaths f.unmarked.unit := f.unit.samePaths_unmarked

theorem push_unmarked (o : Operand) : f.unmarked.push o.unmarked = f.push o := by
  have hregister : ∀ x, f.unmarked.register x = f.register x := fun _ => rfl
  induction o with
  | literal v ty => rfl
  | var x ty p => rw [Operand.unmarked, push, push, hregister]
  | item x i ty p ih => rw [Operand.unmarked, push, push, hregister, ih]
  | cls c => rfl

theorem pushAll_unmarked (os : List Operand) :
    f.unmarked.pushAll (os.map Operand.unmarked) = f.pushAll os := by
  induction os with
  | nil => rfl
  | cons o os ih => rw [List.map_cons, pushAll, pushAll, push_unmarked, ih]

/-- Only here, and in the faults of `value` and `assign`, a mark may show. -/
theorem owner_unmarked (kind : CallKind) (target : Operand) :
    SameValue (f.owner kind target) (f.unmarked.owner kind target.unmarked) := by
  have hsame : (kind == .special && target.unmarked.isThis && f.unmarked.method.isConstructor) =
      (kind == .special && target.isThis && f.method.isConstructor) := by
    rw [target.isThis_unmarked]
    rfl
  cases hsuper : kind == .special && target.isThis && f.method.isConstructor with
  | true =>
    rw [owner_of_super hsuper, owner_of_super (hsame.trans hsuper)]
    exact .ok f.paths_unmarked.superPath.symm
  | false =>
    by_cases hty : ∃ c, target.ty = .cls c
    · obtain ⟨c, hc⟩ := hty
      rw [owner_of_cls hsuper hc, owner_of_cls (hsame.trans hsuper) (target.ty_unmarked.trans hc)]
      exact .ok (f.paths_unmarked.classPath c).symm
    · rw [owner_of_not_cls hsuper hty,
        owner_of_not_cls (hsame.trans hsuper) (target.ty_unmarked.symm ▸ hty)]
      exact .error rfl

theorem call_unmarked (kind : CallKind) (target : Operand) (method : String) (args : List Operand)
    (params : Option (List Ty)) (ty : Ty) :
    SameValue (f.call kind target method args params ty)
      (f.unmarked.call kind target.unmarked method (args.map Operand.unmarked) params ty) := by
  have htypes : (args.map Operand.unmarked).map Operand.ty = args.map Operand.ty := by
    rw [List.map_map]
    exact List.map_congr_left fun o _ => o.ty_unmarked
  unfold call
  refine (f.owner_unmarked kind target).bind fun owner owner' howner => ?_
  dsimp only
  rw [htypes, f.paths_unmarked.descriptors, f.paths_unmarked.descriptor, push_unmarked,
    pushAll_unmarked, ← howner]
  exact (ResultsAlike.refl _).mono (fun _ _ he => congrArg EmitError.ctorIdx he.symm)
    fun _ _ hv => hv

theorem value_unmarked (i : Instr) : SameWork (f.value i) (f.unmarked.value i.unmarked) := by
  cases i with
  | value o | not o ty | binary op l r ty | length a =>
    simp only [Instr.unmarked, value, push_unmarked]
    exact .of_eq rfl
  | call kind target method args params ty =>
    rw [Instr.unmarked, value, value]
    split
    · exact .fail joins_eq rfl
    · exact .write (f.call_unmarked kind target method args params ty)
  | newObject c =>
    rw [Instr.unmarked, value, value, f.paths_unmarked.classPath]
    exact .of_eq rfl
  | newArray size ty =>
    rw [Instr.unmarked, value, value, push_unmarked, f.paths_unmarked.makeArray]
    exact .of_eq rfl
  | getField field ty =>
    rw [Instr.unmarked, value, value, f.paths_unmarked.name, f.paths_unmarked.classPath,
      f.paths_unmarked.descriptor, field.name?_unmarked]
    exact .of_eq rfl
  | assign | putField | goto | branch | label | ret => exact .fail joins_eq rfl

theorem assign_unmarked (dest : Operand) (ty : Ty) (rhs : Instr) :
    SameWork (f.assign dest ty rhs) (f.unmarked.assign dest.unmarked ty rhs.unmarked) := by
  have hregister : ∀ x, f.unmarked.register x = f.register x := fun _ => rfl
  cases dest with
  | var x t p =>
    rw [Operand.unmarked, assign, assign, hregister]
    exact (f.value_unmarked rhs).andThen (.of_eq rfl)
  | item x index t p =>
    rw [Operand.unmarked, assign, assign, hregister, push_unmarked]
    refine .withValue fun r => ?_
    exact .andThen (.of_eq rfl)
      (.andThen (.of_eq rfl) ((f.value_unmarked rhs).andThen (.of_eq rfl)))
  | literal | cls => exact .fail joins_eq rfl

/-- An instruction has the same code without its marks. -/
theorem instr_unmarked (i : Instr) : SameWork (f.instr i) (f.unmarked.instr i.unmarked) := by
  cases i with
  | assign dest ty rhs => exact f.assign_unmarked dest ty rhs
  | call kind target method args params ty =>
    exact .andThen (.write (f.call_unmarked kind target method args params ty)) (.of_eq rfl)
  | putField field v => cases field with
    | var x ty p =>
      simp only [Instr.unmarked, Operand.unmarked, instr, push_unmarked, f.paths_unmarked.name,
        f.paths_unmarked.classPath, f.paths_unmarked.descriptor]
      exact .of_eq rfl
    | literal | item | cls => exact .fail joins_eq rfl
  | branch c l =>
    simp only [Instr.unmarked, instr, push_unmarked]
    exact .of_eq rfl
  | ret ty o =>
    by_cases hty : ty = .void
    · subst hty
      exact .of_eq rfl
    · cases o with
      | none => cases ty <;> first | exact absurd rfl hty | exact .fail joins_eq rfl
      | some o =>
        simp only [Instr.unmarked, Option.map_some, instr, push_unmarked]
        exact .of_eq rfl
  | goto l | label l => exact .of_eq rfl
  | value | not | binary | newObject | newArray | length | getField =>
    exact (f.value_unmarked _).andThen (.of_eq rfl)

end Assembly.Frame

/-! ## Classes -/

def Assembly.Piece.unmarked : Piece → Piece
  | heading m => heading m.unmarked
  | block i code => block i.unmarked code
  | ending => ending

/-- The second stage writes the pieces of the first without marks. -/
abbrev UnmarkedPieces (x y : Stage Nat Piece EmitError Unit) : Prop :=
  Stage.Alike (fun out out' => out' = out.map Piece.unmarked) SameKind Eq x y

theorem Assembly.Frame.blocks_unmarked (f : Frame) (is : List Instr) :
    UnmarkedPieces (f.blocks is) (f.unmarked.blocks (is.map Instr.unmarked)) := by
  have hjoins := joins_map Piece.unmarked
  induction is with
  | nil => exact .pure hjoins rfl
  | cons i is ih =>
    rw [List.map_cons, Frame.blocks, Frame.blocks]
    refine .bind hjoins ((f.instr_unmarked i).collect fun _ _ _ => rfl) fun code code' hcode => ?_
    subst hcode
    exact .bind hjoins (.emit rfl) fun _ _ _ => ih

theorem Assembly.methodPieces_unmarked (u : ClassUnit) (m : Method) :
    UnmarkedPieces (methodPieces u m) (methodPieces u.unmarked m.unmarked) := by
  have hjoins := joins_map Piece.unmarked
  have hblocks := (Frame.of u m).blocks_unmarked m.code
  rw [← Frame.of_unmarked] at hblocks
  exact .bind hjoins (.emit rfl) fun _ _ _ => .bind hjoins hblocks fun _ _ _ => .emit rfl

theorem Assembly.methodsPieces_unmarked (u : ClassUnit) (ms : List Method) :
    UnmarkedPieces (methodsPieces u ms) (methodsPieces u.unmarked (ms.map Method.unmarked)) := by
  have hjoins := joins_map Piece.unmarked
  induction ms with
  | nil => exact .pure hjoins rfl
  | cons m ms ih => exact .bind hjoins (methodPieces_unmarked u m) fun _ _ _ => ih

namespace Ir.ClassUnit

variable (u : ClassUnit)

theorem emissionOrder_unmarked :
    u.unmarked.emissionOrder = u.emissionOrder.map Method.unmarked := by
  rw [emissionOrder, emissionOrder, unmarked, List.map_append, List.filter_map, List.filter_map]
  rfl

/-- **Classes.** Without marks, a class has the same pieces without marks. -/
theorem pieces_unmarked : UnmarkedPieces u.pieces u.unmarked.pieces := by
  rw [pieces, pieces, emissionOrder_unmarked]
  exact methodsPieces_unmarked u u.emissionOrder

theorem pieceText_unmarked (limits : Limits) (q : Piece) :
    Piece.text u.unmarked limits q.unmarked = Piece.text u limits q := by
  cases q with
  | heading m =>
    rw [Piece.unmarked, Piece.text, Piece.text,
      u.samePaths_unmarked.heading limits m.sameHeading_unmarked]
  | block i code => rw [Piece.unmarked, Piece.text, Piece.text]
  | ending => rw [Piece.unmarked, Piece.text, Piece.text]

theorem classText_unmarked (limits : Limits) (out : List Piece) :
    classText u.unmarked limits (out.map Piece.unmarked) = classText u limits out := by
  apply u.samePaths_unmarked.classText rfl limits
  rw [List.map_map]
  exact List.map_congr_left fun q _ => u.pieceText_unmarked limits q

end Ir.ClassUnit

/-- **Texts.** What an emitter makes of a class has no marks in it, wherever its numbers start. -/
theorem Assembly.Emitter.build_unmarked (u : ClassUnit) (limits : Limits) (n : Nat) :
    SameValue (build { unit := u, limits, comparisons := n }).result
      (build { unit := u.unmarked, limits, comparisons := n }).result := by
  have hpieces := u.pieces_unmarked n
  dsimp only [build]
  rcases hold : u.pieces.run n with ⟨r, n₁, out⟩
  rcases hnew : u.unmarked.pieces.run n with ⟨r', n₁', out'⟩
  rw [hold, hnew] at hpieces
  obtain ⟨hresult, -, hout⟩ := hpieces
  dsimp only at hresult hout ⊢
  subst hout
  cases hresult with
  | ok _ => exact .ok (u.classText_unmarked limits out).symm
  | error he => exact .error he

/-- **Marks are exact and can be erased.** In a method that leaves `this` and the names of
temporaries alone, an operand in code that comes from a `return` is not marked, and any other is
marked with `k` exactly if no local has its name and the first parameter of its name is the `k`th.
This holds for a method that is lowered by itself, and for those of all classes that a lowerer comes
to, also after classes that fail. Of any class at all, the marks can be erased, and the text that an
emitter makes stays the same. -/
theorem marks_exact_and_erasable (table : SymbolTable) (types : TypeMap) :
    (∀ cls d c m, ((MethodDecl.lower table types cls d).run c).result = .ok m → m.LeavesNames →
        d.MarksParameters table types cls m) ∧
      (∀ c jobs, List.Forall₂
        (fun j r => ∀ u, r = .ok u → j.decl.MarksParameters table types u) jobs
        (Lowerer.lowerEach table types jobs (.startingAt c)).results) ∧
      ∀ (u : ClassUnit) limits n, u.unmarked.HasNoMarks ∧
        ∀ text, (Emitter.build { unit := u, limits, comparisons := n }).result = .ok text ↔
          (Emitter.build { unit := u.unmarked, limits, comparisons := n }).result = .ok text := by
  refine ⟨?_, ?_, ?_⟩
  · intro cls d c m hresult hnames
    obtain ⟨c', events, hrun⟩ := Stage.run_of_result hresult
    exact MethodDecl.LowersTo.marksParameters ⟨c, c', events, hrun⟩ hnames
  · intro c jobs
    exact Lowerer.lowerEach_marksParameters jobs (Lowerer.idle_startingAt c)
  · intro u limits n
    exact ⟨u.hasNoMarks_unmarked, (Emitter.build_unmarked u limits n).ok_iff⟩

/-! A class that fails inside a `return`, and a method lowered after it in which a local hides a
parameter. -/

namespace Ledger

/-- `int tear(int n) { return (n + 1) + page; }` in a class that knows no `page`. -/
def tear : MethodDecl where
  name := { node := "tear" }
  params := [⟨{ node := "n" }, { node := .int }⟩]
  returnTy := { node := .int }
  body :=
    [.ret .unknown (some (.binary { id := 0 } .add
      (.binary { id := 1 } .add (.var { id := 2 } "n") (.int { id := 3 } 1))
      (.var { id := 4 } "page")))]

/-- `int pick(int[] items, int n, int k) { int n; n = items[k]; k = n; return items[k]; }` -/
def pick : MethodDecl where
  name := { node := "pick" }
  params := [⟨{ node := "items" }, { node := .array .int }⟩, ⟨{ node := "n" }, { node := .int }⟩,
    ⟨{ node := "k" }, { node := .int }⟩]
  returnTy := { node := .int }
  body :=
    [.varDecl .unknown ⟨{ node := "n" }, { node := .int }⟩,
    .assign .unknown { node := "n" }
      (.index { id := 5 } (.var { id := 6 } "items") (.var { id := 7 } "k")),
    .assign .unknown { node := "k" } (.var { id := 8 } "n"),
    .ret .unknown (some (.index { id := 9 } (.var { id := 10 } "items") (.var { id := 11 } "k")))]

def broken : ClassDecl where
  name := { node := "Torn" }
  methods := [tear]

def whole : ClassDecl where
  name := { node := "Ledger" }
  methods := [pick]

def program : Program where
  classes := [broken, whole]

def table : SymbolTable := .ofProgram program

def types : TypeMap := (program.annotate table).types

def session : Lowerer.Session :=
  Lowerer.lowerEach table types [{ decl := broken }, { decl := whole }] (.startingAt {})

theorem pick_marked : ∃ e u m cls text, session.results = [.error e, .ok u] ∧
    u.methods = [m, .defaultConstructor "Ledger"] ∧ m.LeavesNames ∧
    ((m.code.flatMap Instr.occurrences).map fun o => (o.name?, o.mark?)) =
      [(some "tmp1", none), (some "items", some 1), (some "k", some 3), (some "n", none),
        (some "tmp1", none), (some "k", some 3), (some "n", none), (some "tmp2", none),
        (some "items", none), (some "k", none), (some "tmp2", none)] ∧
    table.class? "Ledger" = some cls ∧ pick.MarksParameters table types cls m ∧
    (Emitter.build { unit := u }).result = .ok text ∧
    (Emitter.build { unit := u.unmarked }).result = .ok text := by
  have hrun : ∃ e u m text, session.results = [.error e, .ok u] ∧
      u.methods = [m, .defaultConstructor "Ledger"] ∧ u.name = "Ledger" ∧
      (m.params ++ m.locals).map Symbol.name = ["items", "n", "k", "n"] ∧
      ((m.code.flatMap Instr.occurrences).map fun o => (o.name?, o.mark?)) =
        [(some "tmp1", none), (some "items", some 1), (some "k", some 3), (some "n", none),
          (some "tmp1", none), (some "k", some 3), (some "n", none), (some "tmp2", none),
          (some "items", none), (some "k", none), (some "tmp2", none)] ∧
      (Emitter.build { unit := u }).result = .ok text :=
    ⟨_, _, _, _, rfl, rfl, rfl, rfl, rfl, rfl⟩
  obtain ⟨e, u, m, text, hresults, hmethods, hname, hnames, hmarks, htext⟩ := hrun
  have hleaves : m.LeavesNames := by
    have hall : ∀ x ∈ ["items", "n", "k", "n"], x ≠ "this" ∧ isTemporary x = false := by decide
    intro v hv
    exact hall v.name (hnames ▸ List.mem_map_of_mem hv)
  obtain ⟨-, hsession, herase⟩ := marks_exact_and_erasable table types
  have hboth := hsession {} [{ decl := broken }, { decl := whole }]
  rw [show (Lowerer.lowerEach table types _ _).results = _ from hresults] at hboth
  obtain ⟨-, hwhole⟩ := List.forall₂_cons.1 hboth
  obtain ⟨hwhole, -⟩ := List.forall₂_cons.1 hwhole
  obtain ⟨cls, ms, hcls, hms, hpick⟩ := hwhole u rfl
  obtain rfl : ms = [m] := by
    rw [hmethods, hname] at hms
    have hsplit : [m] ++ [Method.defaultConstructor "Ledger"] =
      ms ++ [.defaultConstructor "Ledger"] := hms
    exact (List.append_cancel_right hsplit).symm
  refine ⟨e, u, m, cls, text, hresults, hmethods, hleaves, hmarks, hcls, ?_, htext, ?_⟩
  · exact (List.forall₂_cons.1 hpick).1 hleaves
  · exact ((herase u {} 0).2 text).1 htext

end Ledger

end MiniJava
