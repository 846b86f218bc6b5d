import MiniJava.Proofs.Emission.Naming

/-!
# Building is repeatable

An emitter that has failed keeps no text, and the next call starts over: with the counter of
comparisons where the failed call left it, and on methods whose register tables are frozen by now.

**Theorem** (`building_repeatable`). All calls of one emitter have the same result, and a new
emitter of the class has it too, before those calls and after them. After `n` failed calls the
emitter is the one after the first, with a counter that is `n` times as far, in words of 32 bits.

**Frozen tables.** A table that is frozen is the one that would be made. The code of an instruction
depends on the registers and not on how they came about (`Frame.Agrees`), so a class gives the same
pieces (`ClassUnit.Asked.pieces`).

**The counter.** Its value goes into the labels of comparisons and nowhere else. From another start
a stage has the same result and counts as far (`Stage.Shifted`), also where the words come to their
end.
-/

namespace MiniJava

open Ir Assembly

/-! ## Frozen tables -/

namespace Ir

@[simp] theorem Method.registers_freeze (m : Method) : m.freeze.registers = m.registers := rfl

@[simp] theorem Method.freeze_freeze (m : Method) : m.freeze.freeze = m.freeze := rfl

/-- The method after its register table may have been asked for. -/
def Method.Asked (m m' : Method) : Prop := m' = m ∨ m' = m.freeze

/-- The class after some of its register tables have been asked for. -/
structure ClassUnit.Asked (u u' : ClassUnit) : Prop where
  paths : u.SamePaths u'
  fields : u'.fields = u.fields
  methods : List.Forall₂ Method.Asked u.methods u'.methods

theorem Method.Asked.trans {m m' m'' : Method} (h : m.Asked m') (h' : m'.Asked m'') :
    m.Asked m'' := by
  rcases h with rfl | rfl
  · exact h'
  · rcases h' with rfl | rfl
    · exact .inr rfl
    · exact .inr m.freeze_freeze

theorem Method.Asked.registers {m m' : Method} (h : m.Asked m') : m'.registers = m.registers := by
  rcases h with rfl | rfl
  · rfl
  · exact m.registers_freeze

theorem Method.Asked.code {m m' : Method} (h : m.Asked m') : m'.code = m.code := by
  rcases h with rfl | rfl <;> rfl

theorem Method.Asked.sameHeading {m m' : Method} (h : m.Asked m') : m.SameHeading m' := by
  rcases h with rfl | rfl <;> exact ⟨rfl, rfl, rfl, rfl, rfl, rfl⟩

theorem Method.Asked.filter {p : Method → Bool} (hp : ∀ m, p m.freeze = p m) {ms ms' : List Method}
    (h : List.Forall₂ Method.Asked ms ms') :
    List.Forall₂ Method.Asked (ms.filter p) (ms'.filter p) := by
  refine List.rel_filter ?_ h
  intro m m' hm
  rcases hm with rfl | rfl
  · exact Iff.rfl
  · show p m = true ↔ p m.freeze = true
    rw [hp]

end Ir

namespace Assembly

variable {p q : Method → Bool}

theorem freezeFirst_asked {ms ms' : List Method} (h : List.Forall₂ Method.Asked ms ms')
    (p : Method → Bool) (n : Nat) : List.Forall₂ Method.Asked ms (freezeFirst p n ms') := by
  induction h generalizing n with
  | nil => exact .nil
  | cons hm hms ih =>
    cases n with
    | zero => exact .cons hm hms
    | succ n =>
      rw [freezeFirst]
      split
      · exact .cons (hm.trans (.inr rfl)) (ih n)
      · exact .cons hm (ih (n + 1))

theorem freezeEmitted_asked (u : ClassUnit) (n : Nat) : u.Asked (freezeEmitted u n) where
  paths := ⟨rfl, rfl, rfl⟩
  fields := rfl
  methods := freezeFirst_asked (freezeFirst_asked (List.forall₂_same.2 fun _ _ => .inl rfl) _ _) _ _

/-- Freezing other methods as well leaves the frozen ones as they are. -/
theorem freezeFirst_fixed (hp : ∀ m, p m.freeze = p m) {n : Nat} {ms : List Method}
    (h : freezeFirst p n ms = ms) (k : Nat) :
    freezeFirst p n (freezeFirst q k ms) = freezeFirst q k ms := by
  induction ms generalizing n k with
  | nil => exact h
  | cons m ms ih =>
    cases n with
    | zero => cases freezeFirst q k (m :: ms) <;> rfl
    | succ n =>
      cases k with
      | zero => exact h
      | succ k =>
        rw [freezeFirst] at h
        rw [freezeFirst]
        -- A method that the second pass froze is frozen already when the first comes to it again.
        by_cases hm : p m
        · rw [if_pos hm] at h
          obtain ⟨hfreeze, hrest⟩ := List.cons.inj h
          split
          · rw [freezeFirst, if_pos ((hp m).trans hm), m.freeze_freeze, ih hrest]
          · rw [freezeFirst, if_pos hm, hfreeze, ih hrest]
        · rw [if_neg hm] at h
          have hrest := (List.cons.inj h).2
          split
          · rw [freezeFirst, if_neg ((hp m).symm ▸ hm), ih hrest]
          · rw [freezeFirst, if_neg hm, ih hrest]

theorem freezeFirst_freezeFirst (hp : ∀ m, p m.freeze = p m) (n : Nat) (ms : List Method) :
    freezeFirst p n (freezeFirst p n ms) = freezeFirst p n ms := by
  induction ms generalizing n with
  | nil => rfl
  | cons m ms ih =>
    cases n with
    | zero => rfl
    | succ n =>
      rw [freezeFirst]
      split
      · next hm => rw [freezeFirst, if_pos ((hp m).trans hm), m.freeze_freeze, ih]
      · next hm => rw [freezeFirst, if_neg hm, ih]

theorem freezeEmitted_fixed {u : ClassUnit} {n : Nat}
    (hconstructors : freezeFirst (·.isConstructor) n u.methods = u.methods)
    (hothers : freezeFirst (!·.isConstructor)
      (n - (u.methods.filter (·.isConstructor)).length) u.methods =
      u.methods) : freezeEmitted u n = u := by
  unfold freezeEmitted
  dsimp only
  rw [hconstructors, hothers]

/-- To ask for the same tables again is no change. -/
theorem freezeEmitted_freezeEmitted (u : ClassUnit) (n : Nat) :
    freezeEmitted (freezeEmitted u n) n = freezeEmitted u n := by
  have hcount : ((freezeEmitted u n).methods.filter (·.isConstructor)).length =
      (u.methods.filter (·.isConstructor)).length :=
    (Method.Asked.filter (fun _ => rfl) (freezeEmitted_asked u n).methods).length_eq.symm
  refine freezeEmitted_fixed ?_ ?_
  · exact freezeFirst_fixed (fun _ => rfl) (freezeFirst_freezeFirst (fun _ => rfl) n u.methods) _
  · rw [hcount]
    exact freezeFirst_freezeFirst (fun _ => rfl) _ _

/-! ## What code depends on -/

/-- Both have what the code of an instruction depends on: the paths of classes, the name and the
kind of the method, and its registers. -/
structure Frame.Agrees (f f' : Frame) : Prop where
  paths : f.unit.SamePaths f'.unit
  name : f'.method.name = f.method.name
  isConstructor : f'.method.isConstructor = f.method.isConstructor
  registers : f'.registers = f.registers

namespace Frame.Agrees

variable {κ : Type} [Counting κ] {f f' : Frame}

theorem register (h : f.Agrees f') : f'.register = f.register := by
  funext x
  unfold Frame.register
  rw [h.registers, h.name]

theorem push (h : f.Agrees f') : f'.push = f.push := by
  funext o
  induction o with
  | literal | cls => rfl
  | var x t p => rw [Frame.push, Frame.push, h.register]
  | item x i t p ih => rw [Frame.push, Frame.push, h.register, ih]

theorem pushAll (h : f.Agrees f') : f'.pushAll = f.pushAll := by
  funext os
  induction os with
  | nil => rfl
  | cons o os ih => rw [Frame.pushAll, Frame.pushAll, h.push, ih]

theorem owner (h : f.Agrees f') : f'.owner = f.owner := by
  funext kind target
  simp only [Frame.owner, h.paths.classPath, h.paths.superPath, h.isConstructor, h.name]

theorem descriptor (h : f.Agrees f') : f'.unit.descriptor = f.unit.descriptor :=
  funext h.paths.descriptor

theorem call (h : f.Agrees f') : f'.call = f.call := by
  funext kind target method args params ty
  simp only [Frame.call, h.owner, h.push, h.pushAll, h.descriptor]

theorem value (h : f.Agrees f') (i : Instr) : (f'.value i : EmitIn κ Unit) = f.value i := by
  cases i with
  | newArray size ty => rw [Frame.value, Frame.value, h.push, h.paths.makeArray]
  | newObject c => rw [Frame.value, Frame.value, h.paths.classPath]
  | getField field ty =>
    rw [Frame.value, Frame.value, h.paths.name, h.paths.classPath, h.descriptor]
  | call kind target method args params ty => rw [Frame.value, Frame.value, h.call, h.name]
  | value | not | binary | length => rw [Frame.value, Frame.value, h.push]
  | assign | putField | goto | branch | label | ret => rw [Frame.value, Frame.value, h.name]

theorem assign (h : f.Agrees f') (dest : Operand) (ty : Ty) (rhs : Instr) :
    (f'.assign dest ty rhs : EmitIn κ Unit) = f.assign dest ty rhs := by
  cases dest with
  | var x t p => rw [Frame.assign, Frame.assign, h.value, h.register]
  | item x i t p => rw [Frame.assign, Frame.assign, h.value, h.register, h.push]
  | literal | cls => rw [Frame.assign, Frame.assign, h.name]

theorem instr (h : f.Agrees f') (i : Instr) : (f'.instr i : EmitIn κ Unit) = f.instr i := by
  cases i with
  | assign dest ty rhs => exact h.assign dest ty rhs
  | call kind target method args params ty => rw [Frame.instr, Frame.instr, h.call]
  | putField field v =>
    cases field with
    | var x t p =>
      rw [Frame.instr, Frame.instr, h.push, h.paths.name, h.paths.classPath, h.descriptor]
    | literal | item | cls => simp only [Frame.instr, h.name]
  | goto | label => rfl
  | branch c l => rw [Frame.instr, Frame.instr, h.push]
  | ret ty o => cases ty <;> cases o <;> simp only [Frame.instr, h.push, h.name]
  | value | not | binary | newObject | newArray | length | getField =>
    rw [Frame.instr, Frame.instr, h.value]

theorem blocks (h : f.Agrees f') (is : List Instr) :
    (f'.blocks is : Stage κ Piece EmitError Unit) = f.blocks is := by
  induction is with
  | nil => rfl
  | cons i is ih => rw [Frame.blocks, Frame.blocks, h.instr, ih]

end Frame.Agrees

/-! ## Classes with frozen tables -/

/-- The second piece is the first, with a heading of a method whose table may have been asked
for. -/
inductive Piece.Asked : Piece → Piece → Prop
  | heading {m m' : Method} : m.Asked m' → Asked (.heading m) (.heading m')
  | same {q : Piece} : Asked q q

/-- The second stage does what the first does, with headings of methods that may have been asked. -/
abbrev AskedPieces {κ : Type} (x y : Stage κ Piece EmitError Unit) : Prop :=
  Stage.Alike (List.Forall₂ Piece.Asked) Eq Eq x y

theorem AskedPieces.refl {κ : Type} (x : Stage κ Piece EmitError Unit) : AskedPieces x x := by
  refine (Stage.Alike.refl x fun _ => rfl).mono ?_ (fun _ _ h => h) fun _ _ h => h
  rintro out _ rfl
  exact List.forall₂_same.2 fun _ _ => .same

theorem Piece.Asked.countP_opens {out out' : List Piece} (h : List.Forall₂ Piece.Asked out out') :
    out'.countP Piece.opens = out.countP Piece.opens := by
  induction h with
  | nil => rfl
  | cons hq _ ih =>
    rw [List.countP_cons, List.countP_cons, ih]
    cases hq <;> rfl

end Assembly

namespace Ir.ClassUnit.Asked

variable {κ : Type} [Counting κ] {u u' : ClassUnit}

theorem methodPieces (h : u.Asked u') {m m' : Method} (hm : m.Asked m') :
    AskedPieces (κ := κ) (Assembly.methodPieces u m) (Assembly.methodPieces u' m') := by
  have hjoins := joins_forall₂ Piece.Asked
  have hframe : (Frame.of u m).Agrees (Frame.of u' m') :=
    ⟨h.paths, hm.sameHeading.name, hm.sameHeading.isConstructor, hm.registers⟩
  refine .bind hjoins (.emit (.cons (.heading hm) .nil)) fun _ _ _ => ?_
  rw [hframe.blocks, hm.code]
  exact AskedPieces.refl _

theorem methodsPieces (h : u.Asked u') {ms ms' : List Method}
    (hms : List.Forall₂ Method.Asked ms ms') :
    AskedPieces (κ := κ) (Assembly.methodsPieces u ms) (Assembly.methodsPieces u' ms') := by
  have hjoins := joins_forall₂ Piece.Asked
  induction hms with
  | nil => exact .pure hjoins rfl
  | cons hm _ ih => exact .bind hjoins (h.methodPieces hm) fun _ _ _ => ih

theorem emissionOrder (h : u.Asked u') :
    List.Forall₂ Method.Asked u.emissionOrder u'.emissionOrder :=
  List.rel_append (Method.Asked.filter (fun _ => rfl) h.methods)
    (Method.Asked.filter (fun _ => rfl) h.methods)

/-- **Frozen tables do not matter.** The class has the same pieces as before. -/
theorem pieces (h : u.Asked u') : AskedPieces (κ := κ) u.pieces u'.pieces :=
  h.methodsPieces h.emissionOrder

theorem pieceText (h : u.Asked u') (limits : Limits) {q q' : Piece} (hq : q.Asked q') :
    Piece.text u' limits q' = Piece.text u limits q := by
  cases hq with
  | heading hm => rw [Piece.text, Piece.text, h.paths.heading limits hm.sameHeading]
  | same => cases q with
    | heading m =>
      rw [Piece.text, Piece.text, h.paths.heading limits (Method.Asked.sameHeading (.inl rfl))]
    | block | ending => rw [Piece.text, Piece.text]

theorem classText (h : u.Asked u') (limits : Limits) {out out' : List Piece}
    (hout : List.Forall₂ Piece.Asked out out') :
    Assembly.classText u' limits out' = Assembly.classText u limits out :=
  h.paths.classText h.fields limits
    (map_eq_of_forall₂ (hout.imp fun _ _ hq => h.pieceText limits hq))

end Ir.ClassUnit.Asked

/-! ## The counter -/

/-- Started `k` later, the stage has the same result and stops `k` later. -/
abbrev Stage.Shifted {ω : Type} (k : UInt32) (O : List ω → List ω → Prop)
    (x : Stage UInt32 ω EmitError Unit) : Prop :=
  Stage.Lockstep (fun n n' => n' = n + k) O Eq Eq x x

/-- What code is written does not matter. -/
abbrev AnyCode (_ _ : List Asm) : Prop := True

/-- As many methods are begun. -/
abbrev SameOpened (out out' : List Piece) : Prop := out'.countP Piece.opens = out.countP Piece.opens

theorem joins_sameOpened : Joins SameOpened where
  nil := rfl
  append := by
    intro a a' b b' ha hb
    rw [SameOpened, List.countP_append, List.countP_append, ha, hb]

namespace Assembly

variable {k : UInt32}

theorem write_shifted (code : Except EmitError (List Asm)) :
    Stage.Shifted k AnyCode (write code) := by
  cases code with
  | ok code => exact .emitAll trivial
  | error e => exact .fail joins_true rfl

theorem emit_shifted (a : Asm) : Stage.Shifted k AnyCode (Stage.emit a) :=
  .emitAll trivial

/-- Only a comparison looks at the counter, and it goes on whatever the number is. -/
theorem operator_shifted (op : BinOp) : Stage.Shifted k AnyCode (operator op) := by
  cases op with
  | lt =>
    rintro n _ rfl
    exact ⟨.ok rfl, Counting.next_add n k, trivial⟩
  | add | sub | mul | div | and => exact emit_shifted _

theorem andThen_shifted {x y : EmitIn UInt32 Unit} (hx : Stage.Shifted k AnyCode x)
    (hy : Stage.Shifted k AnyCode y) : Stage.Shifted k AnyCode (x >>= fun _ => y) :=
  .bind joins_true hx fun _ _ _ => hy

/-- A register is looked up without the counter. -/
theorem withRegister_shifted {r : Except EmitError UInt16} {y : UInt16 → EmitIn UInt32 Unit}
    (hy : ∀ a, Stage.Shifted k AnyCode (y a)) :
    Stage.Shifted k AnyCode (Stage.ofExcept r >>= y) := by
  cases r with
  | ok a => exact hy a
  | error e => exact .fail joins_true rfl

namespace Frame

variable (f : Frame)

theorem value_shifted (i : Instr) : Stage.Shifted k AnyCode (f.value i) := by
  cases i with
  | value o => exact write_shifted _
  | not o t => exact andThen_shifted (write_shifted _) (.emitAll trivial)
  | binary op l r t =>
    exact andThen_shifted (write_shifted _)
      (andThen_shifted (write_shifted _) (operator_shifted op))
  | call kind target method args params ty =>
    rw [value]
    split
    · exact .fail joins_true rfl
    · exact write_shifted _
  | newObject c => exact emit_shifted _
  | newArray size ty => exact andThen_shifted (write_shifted _) (emit_shifted _)
  | length a => exact andThen_shifted (write_shifted _) (emit_shifted _)
  | getField field ty => exact .emitAll trivial
  | assign | putField | goto | branch | label | ret => exact .fail joins_true rfl

theorem assign_shifted (dest : Operand) (ty : Ty) (rhs : Instr) :
    Stage.Shifted k AnyCode (f.assign dest ty rhs) := by
  cases dest with
  | var x t p =>
    exact andThen_shifted (f.value_shifted rhs) (withRegister_shifted fun r => emit_shifted _)
  | item x index t p =>
    exact withRegister_shifted fun r => andThen_shifted (emit_shifted _)
      (andThen_shifted (write_shifted _) (andThen_shifted (f.value_shifted rhs) (emit_shifted _)))
  | literal | cls => exact .fail joins_true rfl

theorem instr_shifted (i : Instr) : Stage.Shifted k AnyCode (f.instr i) := by
  cases i with
  | assign dest ty rhs => exact f.assign_shifted dest ty rhs
  | call kind target method args params ty =>
    refine andThen_shifted (write_shifted _) ?_
    split
    · exact emit_shifted _
    · exact .pure joins_true rfl
  | putField field v =>
    cases field with
    | var x t p =>
      exact andThen_shifted (emit_shifted _) (andThen_shifted (write_shifted _) (emit_shifted _))
    | literal | item | cls => exact .fail joins_true rfl
  | goto | label => exact emit_shifted _
  | branch c l => exact andThen_shifted (write_shifted _) (emit_shifted _)
  | ret ty o =>
    cases ty with
    | void => exact emit_shifted _
    | int | bool | str | cls | array => cases o with
      | none => exact .fail joins_true rfl
      | some o => exact andThen_shifted (write_shifted _) (emit_shifted _)
  | value | not | binary | newObject | newArray | length | getField =>
    exact andThen_shifted (f.value_shifted _) (emit_shifted _)

/-- Whatever their code is, blocks begin no method. -/
theorem emit_block_lockstep (i : Instr) (code code' : List Asm) :
    Stage.Lockstep (fun n n' => n' = n + k) SameOpened (Eq : EmitError → EmitError → Prop) Eq
      (Stage.emit (.block i code)) (Stage.emit (.block i code')) :=
  fun _ _ hn => ⟨.ok rfl, hn, rfl⟩

theorem blocks_shifted (is : List Instr) : Stage.Shifted k SameOpened (f.blocks is) := by
  induction is with
  | nil => exact .pure joins_sameOpened rfl
  | cons i is ih =>
    rw [blocks]
    refine .bind joins_sameOpened ((f.instr_shifted i).collect fun _ _ _ => rfl)
      fun code code' _ => ?_
    exact .bind joins_sameOpened (emit_block_lockstep i code code') fun _ _ _ => ih

end Frame

theorem methodPieces_shifted (u : ClassUnit) (m : Method) :
    Stage.Shifted k SameOpened (methodPieces u m) :=
  .bind joins_sameOpened (.emitAll rfl) fun _ _ _ =>
    .bind joins_sameOpened ((Frame.of u m).blocks_shifted m.code) fun _ _ _ => .emitAll rfl

theorem methodsPieces_shifted (u : ClassUnit) (ms : List Method) :
    Stage.Shifted k SameOpened (methodsPieces u ms) := by
  induction ms with
  | nil => exact .pure joins_sameOpened rfl
  | cons m ms ih => exact .bind joins_sameOpened (methodPieces_shifted u m) fun _ _ _ => ih

/-- **The counter does not matter.** Started `k` later, a class ends with the same fault or none,
after as many methods, and with a counter that is `k` later. -/
theorem pieces_shifted (u : ClassUnit) : Stage.Shifted k SameOpened u.pieces :=
  methodsPieces_shifted u u.emissionOrder

/-! ## Emitters -/

namespace Emitter

variable {κ : Type} [Counting κ] {e : Emitter κ}

theorem build_of_text {text : String} (h : e.text = some text) : e.build = ⟨.ok text, e, []⟩ := by
  rw [build, h]

theorem result_build (h : e.text = none) : e.build.result =
    (e.unit.pieces.run e.comparisons).result.map fun _ =>
      classText e.unit e.limits (e.unit.pieces.run e.comparisons).output := by
  rw [build, h]
  cases hrun : (e.unit.pieces.run e.comparisons).result <;> simp only [hrun] <;> rfl

theorem unit_build (h : e.text = none) : e.build.emitter.unit =
    freezeEmitted e.unit ((e.unit.pieces.run e.comparisons).output.countP Piece.opens) := by
  rw [build, h]
  cases hrun : (e.unit.pieces.run e.comparisons).result <;> simp only [hrun]

theorem text_build {text : String} (hresult : e.build.result = .ok text) :
    e.build.emitter.text = some text := by
  cases h : e.text with
  | some kept =>
    rw [build_of_text h] at hresult ⊢
    rw [h, Except.ok.inj hresult]
  | none =>
    rw [build, h] at hresult ⊢
    cases hrun : (e.unit.pieces.run e.comparisons).result with
    | error fault =>
      simp only [hrun] at hresult
      cases hresult
    | ok _ =>
      simp only [hrun] at hresult ⊢
      rw [Except.ok.inj hresult]

/-- A failed call has moved the counter on and frozen tables, and nothing else. -/
theorem emitter_build_of_error (h : e.text = none) {fault : EmitError}
    (hresult : e.build.result = .error fault) :
    e.build.emitter = { e with
      unit := freezeEmitted e.unit ((e.unit.pieces.run e.comparisons).output.countP Piece.opens)
      comparisons := (e.unit.pieces.run e.comparisons).state } := by
  rw [build, h] at hresult ⊢
  cases hrun : (e.unit.pieces.run e.comparisons).result with
  | ok _ =>
    simp only [hrun] at hresult
    cases hresult
  | error _ => simp only [hrun]

/-- A call fails exactly if the pieces cannot be made. -/
theorem build_error_iff (h : e.text = none) {fault : EmitError} :
    e.build.result = .error fault ↔ (e.unit.pieces.run e.comparisons).result = .error fault := by
  rw [result_build h]
  cases (e.unit.pieces.run e.comparisons).result with
  | ok _ => simp [Except.map]
  | error _ => simp [Except.map]

end Emitter

end Assembly

/-- Tables that were asked for before do not change the text, or the fault. -/
theorem Ir.ClassUnit.Asked.result_build {κ : Type} [Counting κ] {u u' : ClassUnit} (h : u.Asked u')
    {e : Emitter κ} (hunit : e.unit = u) (htext : e.text = none) :
    { e with unit := u' }.build.result = e.build.result := by
  subst hunit
  have hpieces := h.pieces e.comparisons
  have hagain := Emitter.result_build (e := { e with unit := u' }) htext
  rw [hagain, Emitter.result_build htext, h.classText e.limits hpieces.output, hpieces.result.eq]

namespace Assembly

namespace Emitter

/-- The emitter after so many calls of `build`. -/
def afterBuilds {κ : Type} [Counting κ] (e : Emitter κ) : Nat → Emitter κ
  | 0 => e
  | n + 1 => (e.afterBuilds n).build.emitter

/-- After the first call that succeeds nothing changes. -/
theorem afterBuilds_of_ok {κ : Type} [Counting κ] {e : Emitter κ} {text : String}
    (hfirst : e.build.result = .ok text) (n : Nat) : e.afterBuilds (n + 1) = e.build.emitter := by
  induction n with
  | zero => rfl
  | succ n ih => rw [afterBuilds, ih, build_of_text (text_build hfirst)]

variable {e : Emitter UInt32} {fault : EmitError}

/-- What a failed call leaves, with the counter at any place: the next call fails in the same way,
moves the counter as far as the first call did from zero, and freezes nothing more. -/
theorem build_after_error (hnew : e.text = none) (hzero : e.comparisons = 0)
    (hfirst : e.build.result = .error fault) (k : UInt32) :
    { e.build.emitter with comparisons := k }.build.result = .error fault ∧
      { e.build.emitter with comparisons := k }.build.emitter =
        { e.build.emitter with comparisons := e.build.emitter.comparisons + k } := by
  rw [emitter_build_of_error hnew hfirst]
  rw [build_error_iff hnew] at hfirst
  dsimp only at hfirst ⊢
  rw [hzero] at hfirst ⊢
  -- A failed call has frozen the tables of the methods it came to, and has moved the counter.
  -- Frozen tables give the same code, and a moved counter only moves the numbers in labels.
  generalize hcount : (e.unit.pieces.run (0 : UInt32)).output.countP Piece.opens = count
  have hasked := (freezeEmitted_asked e.unit count).pieces k
  have hshifted := pieces_shifted e.unit 0 k (UInt32.zero_add k).symm
  have hresult : ((freezeEmitted e.unit count).pieces.run k).result = .error fault := by
    rw [← hasked.result.eq, ← hshifted.result.eq, hfirst]
  have hstate : ((freezeEmitted e.unit count).pieces.run k).state =
      (e.unit.pieces.run (0 : UInt32)).state + k := by
    rw [hasked.state, hshifted.state]
  have hopened : ((freezeEmitted e.unit count).pieces.run k).output.countP Piece.opens = count :=
    calc ((freezeEmitted e.unit count).pieces.run k).output.countP Piece.opens
      _ = (e.unit.pieces.run k).output.countP Piece.opens := Piece.Asked.countP_opens hasked.output
      _ = (e.unit.pieces.run (0 : UInt32)).output.countP Piece.opens := hshifted.output
      _ = count := hcount
  generalize hagain : { e with unit := freezeEmitted e.unit count, comparisons := k } = again
  have hkept : again.text = none := hagain ▸ hnew
  have hfault : again.build.result = .error fault := (build_error_iff hkept).2 (hagain ▸ hresult)
  refine ⟨hfault, ?_⟩
  rw [emitter_build_of_error hkept hfault, ← hagain]
  dsimp only
  rw [hopened, hstate, freezeEmitted_freezeEmitted]

/-- Each call that fails moves the counter by the same amount. -/
theorem afterBuilds_of_error (hnew : e.text = none) (hzero : e.comparisons = 0)
    (hfirst : e.build.result = .error fault) (n : Nat) :
    e.afterBuilds (n + 1) = { e.build.emitter with
      comparisons := UInt32.ofNat (n + 1) * e.build.emitter.comparisons } := by
  induction n with
  | zero => rw [show UInt32.ofNat (0 + 1) = 1 from rfl, UInt32.one_mul, afterBuilds, afterBuilds]
  | succ n ih =>
    rw [afterBuilds, ih, (build_after_error hnew hzero hfirst _).2, UInt32.ofNat_add (n + 1) 1,
      UInt32.add_mul, show UInt32.ofNat 1 = 1 from rfl, UInt32.one_mul, UInt32.add_comm]

end Emitter

/-- **Building is repeatable.** Whatever a class is made of, all calls of one emitter have the
result of a new emitter, the same text or the same fault, and so has a new emitter of the class with
its tables as those calls have left them. After `n` failed calls the emitter is the one after the
first, with a counter that is `n` times as far. It counts in words, which come back to zero behind
the last one. -/
theorem building_repeatable (u : ClassUnit) (limits : Limits) :
    let e : Emitter UInt32 := { unit := u, limits }
    (∀ n, (e.afterBuilds n).build.result = e.build.result) ∧
    (∀ n, { e with unit := (e.afterBuilds n).unit }.build.result = e.build.result) ∧
    ∀ fault, e.build.result = .error fault → ∀ n, e.afterBuilds (n + 1) =
      { e.build.emitter with
        comparisons := UInt32.ofNat (n + 1) * e.build.emitter.comparisons } := by
  intro e
  have hasked : u.Asked e.build.emitter.unit := by
    rw [Emitter.unit_build rfl]
    exact freezeEmitted_asked u _
  cases hfirst : e.build.result with
  | ok text =>
    -- After a call that succeeds the text is kept, and later calls only give it back.
    have hafter := Emitter.afterBuilds_of_ok (e := e) hfirst
    refine ⟨fun n => ?_, fun n => ?_, fun fault hfault => ?_⟩
    · cases n with
      | zero => exact hfirst
      | succ n => rw [hafter, Emitter.build_of_text (Emitter.text_build hfirst)]
    · cases n with
      | zero => exact hfirst
      | succ n => rw [hafter, hasked.result_build rfl rfl, hfirst]
    · cases hfault
  | error fault =>
    have hafter := Emitter.afterBuilds_of_error (e := e) rfl rfl hfirst
    refine ⟨fun n => ?_, fun n => ?_, fun _ _ => hafter⟩
    · cases n with
      | zero => exact hfirst
      | succ n =>
        rw [hafter]
        exact (Emitter.build_after_error rfl rfl hfirst _).1
    · cases n with
      | zero => exact hfirst
      | succ n =>
        rw [hafter]
        exact (hasked.result_build rfl rfl).trans hfirst

/-! A method that compares two numbers and then returns no `int`. Two calls have numbered two
comparisons, and the table of the method is frozen. -/

namespace Dial

def turn : Method where
  name := "turn"
  className := "Dial"
  isStatic := true
  returnTy := .int
  code := [.binary .lt (.literal 1 .int) (.literal 2 .int) .bool, .ret .int none]

def twice : Emitter UInt32 :=
  Emitter.afterBuilds { unit := { name := "Dial", methods := [turn] } } 2

example : twice.comparisons = 2 ∧ (twice.unit.methods.map fun m => m.frozen.isSome) = [true] ∧
    twice.build.result = .error (.missingReturnValue "int" "turn") :=
  ⟨rfl, rfl, rfl⟩

end Dial

end Assembly

end MiniJava
