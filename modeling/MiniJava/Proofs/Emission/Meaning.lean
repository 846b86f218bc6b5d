import MiniJava.Proofs.Emission.StackHeight
import MiniJava.Proofs.Lowering.Meaning

/-!
# Compilation preserves meaning

The two simulations put together: the assembly of a method does what the body of its declaration
means. Both run in one world, which performs the operations that programs ask for. The machine asks
for operations with full names and descriptors, and `Op.plain` is what a program knows of them: a
class goes by the last part of its full name, and types are left out.

* **Views.** Three-address code runs alike if two views agree on the operations that it asks for
  (`runs_congr`), and what a program knows of an operation at run time is what it knows of it in the
  code (`Op.plain_runtime`), as long as classes have names without slashes.
* **Theorem** (`compilation_preserves_meaning`). Runs of the source, of the three-address code and
  of the assembly end alike.
-/

namespace MiniJava

open Ir

/-! ## Names without a path -/

/-- The part of a full name behind the last slash. -/
def simpleName (path : String) : String :=
  String.ofList (((path.toList.splitOn '/').getLast?).getD [])

theorem simpleName_of_not_mem {name : String} (h : '/' ∉ name.toList) : simpleName name = name := by
  rw [simpleName, List.splitOn_eq_singleton h, List.getLast?_singleton, Option.getD_some,
    String.ofList_toList]

theorem getLast?_splitOn_intercalate {segments : List (List Char)} {last : List Char}
    (hlast : segments.getLast? = some last) (h : '/' ∉ last) :
    ((['/'].intercalate segments).splitOn '/').getLast? = some last := by
  induction segments with
  | nil => cases hlast
  | cons s rest ih =>
    cases rest with
    | nil =>
      obtain rfl : s = last := Option.some.inj hlast
      rw [List.intercalate_singleton, List.splitOn_eq_singleton h, List.getLast?_singleton]
    | cons s' rest =>
      rw [List.getLast?_cons_cons] at hlast
      rw [List.intercalate_cons_cons, List.append_assoc, List.singleton_append,
        List.splitOn_append_cons_self, List.getLast?_append, ih hlast, Option.some_or]

/-- The full name of a class ends in its name. -/
theorem simpleName_runtimeName {name : String} (h : '/' ∉ name.toList) (u : ClassUnit) :
    simpleName (u.runtimeName name) = name := by
  rw [ClassUnit.runtimeName]
  split
  · exact simpleName_of_not_mem h
  · split
    · next path hfound =>
      have hlast : (segments path).getLast? = some name.toList := by
        simpa using List.find?_some hfound
      rw [simpleName, joinedPath, String.toList_ofList, getLast?_splitOn_intercalate hlast h,
        Option.getD_some, String.ofList_toList]
    · exact simpleName_of_not_mem h

/-! ## What a program knows of an operation -/

/-- What a program asks for when the machine asks for the operation. -/
def Assembly.Op.plain : Assembly.Op → Source.Op
  | .call .static owner m _ _ => .callStatic (simpleName owner) m
  | .call .special .. => .construct
  | .call .virtual _ m _ _ => .call m
  | .newObject path => .newObject (simpleName path)
  | .newArray _ => .newArray
  | .length => .length
  | .getField _ x _ => .getField x
  | .putField _ x _ => .putField x
  | .readItem _ => .readItem
  | .writeItem _ => .writeItem

namespace Ir

/-- A static call goes to a class, and a class that is called or made has a name without slashes. -/
def Op.IsSimple : Op → Prop
  | .call .static target .. => ∃ c, target = .cls c ∧ '/' ∉ c.toList
  | .newObject c => '/' ∉ c.toList
  | _ => True

theorem Op.plain_runtime {op : Op} (h : op.IsSimple) (u : ClassUnit) (m : Method) :
    (op.runtime u m).plain = op.plain := by
  cases op with
  | call kind target method params ty =>
    cases kind with
    | static =>
      obtain ⟨c, rfl, hc⟩ := h
      have howner : calledClass u m .static (.cls c) = u.runtimeName c := by
        simp [calledClass, Operand.ty]
      simp only [runtime, Assembly.Op.plain, howner, simpleName_runtimeName hc, plain]
    | special | virtual => rfl
  | newObject c => simp only [runtime, Assembly.Op.plain, simpleName_runtimeName h, plain]
  | newArray | length | getField | putField | readItem | writeItem => rfl

/-- The operation that the instruction asks for by a class name is simple. -/
def Instr.IsSimple : Instr → Prop
  | .assign _ _ rhs => rhs.IsSimple
  | .call kind target method args params ty =>
    (Op.call kind target method (params.getD (args.map Operand.ty)) ty).IsSimple
  | .newObject c => (Op.newObject c).IsSimple
  | _ => True

/-! ## Views that agree -/

section

variable {O : Type} {view view' : Op → O} {W : World O}
  (hview : ∀ op, op.IsSimple → view op = view' op)
include hview

theorem Operand.read_congr (ρ : Env W) (o : Operand) : o.read view W ρ = o.read view' W ρ := by
  induction o with
  | literal | var | cls => rfl
  | item x i ty p ih => simp only [read, ih, hview (.readItem ty) trivial]

theorem Operand.readAll_congr (ρ : Env W) (os : List Operand) :
    readAll view W ρ os = readAll view' W ρ os := by
  induction os with
  | nil => rfl
  | cons o os ih => simp only [readAll, read_congr hview, ih]

theorem invoke_congr (ρ : Env W) {kind : CallKind} {target : Operand} {method : String}
    {args : List Operand} {params : Option (List Ty)} {ty : Ty}
    (h : (Instr.call kind target method args params ty).IsSimple) :
    invoke view W ρ kind target method args params ty =
      invoke view' W ρ kind target method args params ty := by
  simp only [invoke, receiver, Operand.read_congr hview, Operand.readAll_congr hview, hview _ h]

theorem Instr.compute_congr (ρ : Env W) {i : Instr} (h : i.IsSimple) :
    i.compute view W ρ = i.compute view' W ρ := by
  cases i with
  | value o => exact Operand.read_congr hview ρ o
  | not | binary => simp only [compute, Operand.read_congr hview]
  | call => simp only [compute, invoke_congr hview ρ h]
  | newObject c => simp only [compute, hview _ h]
  | newArray size ty => simp only [compute, Operand.read_congr hview, hview (.newArray ty) trivial]
  | length => simp only [compute, Operand.read_congr hview, hview .length trivial]
  | getField field ty =>
    have hget : ∀ x, view (.getField x ty) = view' (.getField x ty) := fun x => hview _ trivial
    simp only [compute, hget]
  | assign | putField | goto | branch | label | ret => rfl

theorem store_congr (ρ : Env W) (dest : Operand) (ty : Ty) {rhs : Instr} (h : rhs.IsSimple) :
    store view W ρ dest ty rhs = store view' W ρ dest ty rhs := by
  cases dest with
  | var => simp only [store, Instr.compute_congr hview ρ h]
  | item =>
    simp only [store, Operand.read_congr hview, Instr.compute_congr hview ρ h,
      hview (.writeItem ty) trivial]
  | literal | cls => rfl

theorem Instr.exec_congr (ρ : Env W) {i : Instr} (h : i.IsSimple) :
    i.exec view W ρ = i.exec view' W ρ := by
  cases i with
  | assign dest ty rhs =>
    have hrhs : rhs.IsSimple := h
    simp only [exec, store_congr hview ρ dest ty hrhs]
  | call => simp only [exec, invoke_congr hview ρ h]
  | putField field v =>
    cases field with
    | var x ty p => simp only [exec, Operand.read_congr hview, hview (.putField x ty) trivial]
    | literal | item | cls => rfl
  | branch => simp only [exec, Operand.read_congr hview]
  | ret ty o =>
    cases o with
    | none => cases ty <;> rfl
    | some o => cases ty <;> simp only [exec, Operand.read_congr hview]
  | goto | label => rfl
  | value | not | binary | newObject | newArray | length | getField =>
    simp only [exec, compute_congr hview ρ h]

/-- Code that asks for simple operations runs alike in all views that agree on these. -/
theorem runs_congr {code : List Instr} (hcode : ∀ i ∈ code, i.IsSimple) {s : Control (Env W)}
    {h : W.Heap} {o : Outcome W.Heap (Request O W.Ref) (Halt W.Fault) (Result W)}
    (hruns : (machine view W).Runs code s h o) : (machine view' W).Runs code s h o := by
  have hstep : ∀ s, (machine view' W).step code s = (machine view W).step code s := by
    intro s
    simp only [Machine.step]
    cases hi : code[s.pc]? with
    | none => rfl
    | some i =>
      exact congrArg (· >>= _) (i.exec_congr hview s.data (hcode i (List.mem_of_getElem? hi))).symm
  induction hruns with
  | done hdone => exact .done (by rw [hstep, hdone])
  | halt hhalt => exact .halt (by rw [hstep, hhalt])
  | step hgo _ ih => exact .step (by rw [hstep, hgo]) ih

end

/-! ## Lowered methods -/

/-- The class that the instruction makes an object of or calls a static method of. -/
def Instr.namedClass? : Instr → Option String
  | .assign _ _ rhs => rhs.namedClass?
  | .call .static (.cls c) .. | .newObject c => some c
  | _ => none

theorem CallTyped.isSimple {sc : Scope} {vars : List Symbol} {kind : CallKind} {target : Operand}
    {method : String} {args : List Operand} {params : Option (List Ty)} {ty : Ty}
    (h : CallTyped sc vars target args params kind)
    (hname : ∀ c, (Instr.call kind target method args params ty).namedClass? = some c →
      '/' ∉ c.toList) : (Instr.call kind target method args params ty).IsSimple := by
  cases kind with
  | static =>
    obtain ⟨hclass, -⟩ := h
    cases target with
    | cls c => exact ⟨c, rfl, hname c rfl⟩
    | literal | var | item => cases hclass
  | special | virtual => trivial

/-- In well-typed code, a static call goes to a class. -/
theorem Instr.WellTyped.isSimple {sc : Scope} {vars : List Symbol} {i : Instr}
    (h : i.WellTyped sc vars) (hname : ∀ c, i.namedClass? = some c → '/' ∉ c.toList) :
    i.IsSimple := by
  cases i with
  | assign dest ty rhs =>
    obtain ⟨-, hrhs, -⟩ := h
    cases rhs with
    | call => exact hrhs.2.isSimple hname
    | newObject c => exact hname c rfl
    | assign => exact absurd hrhs id
    | _ => trivial
  | call => exact CallTyped.isSimple h hname
  | newObject c => exact hname c rfl
  | _ => trivial

/-- What is asked of a method so that its assembly means what its declaration means: it has no more
variables than there are registers, it uses `this` and fields only if there is an object, its
variables are not named as temporaries are, and no class has a slash in its name. -/
structure Method.Portable (m : Method) : Prop where
  few : (m.declarations.map Symbol.name).toFinset.card ≤ 65536
  object : ∀ i ∈ m.code, i.usesObject = true → m.isStatic = false
  names : ∀ v ∈ m.params ++ m.locals, ∀ k, v.name ≠ Lower.tempName k
  classes : ∀ i ∈ m.code, ∀ c, i.namedClass? = some c → '/' ∉ c.toList

end Ir

namespace Assembly

/-- The method is the constructor that every class has, or it comes from a declaration of the class,
and its code, whatever the world, ends in the way that the body of the declaration ends. -/
def MeansSource (p : Program) (table : SymbolTable) (u : ClassUnit) (m : Method)
    (code : List (List Asm)) : Prop :=
  m = Method.defaultConstructor u.name ∨
    ∃ d ∈ p.classes, d.name.node = u.name ∧ ∃ cls, table.class? u.name = some cls ∧
      ∃ md ∈ d.methods, md.name.node = m.name ∧ ∃ method, cls.method? m.name = some method ∧
        ∀ (W : World Source.Op) (env : Env W) (regs : UInt16 → Option (Value W.Ref)) (h : W.Heap)
          (o : Outcome W.Heap (Request Source.Op W.Ref) (Halt W.Fault) (Option (Value W.Ref))),
          Represents m.registers env regs →
          ExecBody (md.scope table cls method) W md.body env h o → o.result ≠ .error .stuck →
          ∀ o', (machine Op.plain W).Runs code.flatten ⟨0, [], regs⟩ h o' ↔ o' = o

variable {p : Program} {table : SymbolTable} {a : Annotation} {c : Counters}
  {units : List ClassUnit} {u : ClassUnit} {m : Method} {n n' : Nat} {code : List (List Asm)}

/-- The blocks of a lowered method simulate its instructions. -/
theorem Emitted.emits (hemitted : Emitted (.of u m) m.code n code n') (horderly : Orderly m)
    (hfresh : m.frozen = none) (hm : m.Portable) : (Frame.of u m).Emits m.code code where
  registers := (Method.registered_of_fresh hfresh hm.few).sound
  object := hm.object
  arity i hi := (horderly.flat i hi).2
  labels := hemitted.nodup_labels horderly.distinct horderly.other
  blocks := ⟨n, n', hemitted⟩

theorem Emitted.meansSource (h : p.checked table = .ok a)
    (hlow : ((p.lower table a.types).run c).result = .ok units) (hu : u ∈ units)
    (hmem : m ∈ u.methods) (hm : m.Portable) (hemitted : Emitted (.of u m) m.code n code n') :
    MeansSource p table u m code := by
  obtain ⟨c', events, hrun⟩ := Stage.run_of_result hlow
  obtain ⟨d, hd, cls, hcls, hname, hmethods⟩ := Program.lower_methods hrun hu
  refine (hmethods m hmem).imp_right ?_
  rintro ⟨md, hmd, method, hmethod, c₁, c₂, events₁, hmrun⟩
  obtain ⟨hmname, -, -, -, hfresh⟩ := MethodDecl.lower_heading hmrun
  refine ⟨d, hd, hname.symm, cls, hname ▸ hcls, md, hmd, hmname.symm, method, hmname ▸ hmethod, ?_⟩
  intro W env regs h₀ o hrep hexec hmean o'
  -- First from the body to its three-address code.
  have hlower : (lowMachine W).Runs m.code ⟨0, env⟩ h₀ o :=
    hexec.runs_of_lower (Program.checked_ok_iff.1 h).2 hd hcls hmd hmethod hmrun hm.names hmean
  -- The world sees of an operation at run time what it sees of it in the code.
  obtain ⟨sc, -, htyped⟩ := Program.wellTyped_of_lower h hlow u hu m hmem
  have hview : (Ir.machine (Op.plain ∘ Ir.Op.runtime u m) W).Runs m.code ⟨0, env⟩ h₀ o :=
    runs_congr (fun op hop => (op.plain_runtime hop u m).symm)
      (fun i hi => (htyped i hi).isSimple (hm.classes i hi)) hlower
  -- Then from there to the assembly.
  have hemits := hemitted.emits (orderly_of_lower h hlow hu hmem) hfresh hm
  have hmachine := (hemits.simulated Op.plain W).runs hview hmean hrep
  exact ⟨fun h' => h'.unique hmachine, fun h' => h' ▸ hmachine⟩

theorem EmittedAll.meansSource (h : p.checked table = .ok a)
    (hlow : ((p.lower table a.types).run c).result = .ok units) (hu : u ∈ units) {ms : List Method}
    (hms : ∀ m ∈ ms, m ∈ u.methods) {codes : List (List (List Asm))}
    (hemitted : EmittedAll u ms n codes n') :
    List.Forall₂ (fun m code => m.Portable → MeansSource p table u m code) ms codes := by
  induction hemitted with
  | nil => exact .nil
  | cons hfirst _ ih =>
    obtain ⟨hm, hrest⟩ := List.forall_mem_cons.1 hms
    exact .cons (fun hportable => hfirst.meansSource h hlow hu hm hportable) (ih hrest)

/-- **Compilation preserves meaning.** A compiled program has a text for each of its classes, with a
block of lines for each instruction of a method. Whenever the body of a declared method, executed in
any world, gives back a result, or stops early because an operation failed or a divisor was zero,
then the lines of the method, started with registers that hold what the environment holds, end in
the same way, with the same heap and after the same requests, and in no other way. -/
theorem compilation_preserves_meaning {options : Options} {out : Output}
    (h : p.compiled table options = .ok out) :
    ∃ units, p.lowered table = .ok units ∧
      List.Forall₂ (fun u c => ∃ codes,
          c.assembly = classText u options.limits (listings u.emissionOrder codes) ∧
          List.Forall₂ (fun m code => m.Portable → MeansSource p table u m code)
            u.emissionOrder codes)
        units out.classes := by
  obtain ⟨a, units, hchecked, hlow, hclasses⟩ := Program.compiled_ok h
  refine ⟨units, Program.lowered_ok_iff.2 ⟨a, hchecked, hlow⟩, ?_⟩
  refine List.Forall₂.imp ?_
    ((List.forall₂_and_left units out.classes).2 ⟨fun u hu => hu, hclasses⟩)
  rintro u c ⟨hu, hc⟩
  obtain ⟨codes, n, hemitted, htext⟩ := Emitter.build_listed rfl hc.assembly
  exact ⟨codes, htext, hemitted.meansSource hchecked hlow hu fun m hm => mem_emissionOrder.1 hm⟩

/-- The loop that climbs is portable. -/
example : ∃ m c events, (Lift.climb.lower Lift.table (Lift.program.annotate Lift.table).types
    Lift.symbols).run {} = ⟨.ok m, c, events⟩ ∧ m.Portable := by
  have hnames : ∀ v ∈ Lift.climbSymbols.params ++ Lift.climbSymbols.locals,
      v.name.toList[1]? ≠ some 'm' := by decide
  refine ⟨_, _, _, rfl, ?_⟩
  refine ⟨by decide, fun _ _ _ => rfl, fun v hv => Lower.ne_tempName (hnames v hv), ?_⟩
  suffices hnone : ∀ i ∈ _, Instr.namedClass? i = none by
    intro i hi c hc
    rw [hnone i hi] at hc
    cases hc
  decide

end Assembly

end MiniJava
