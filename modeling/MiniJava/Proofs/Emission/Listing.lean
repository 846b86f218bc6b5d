import MiniJava.Proofs.Emission.Total

/-!
# The text of a class

What stands in the text of an emitted class: its methods, constructors first, each with its heading,
one block of code for each of its instructions, and its end (`Emitter.build_listed`). The numbers of
comparisons run on from block to block and from method to method (`EmittedAll`).
-/

namespace MiniJava.Assembly

open Ir

/-- The pieces of a method whose instructions have the blocks given. -/
def listing (m : Method) (code : List (List Asm)) : List Piece :=
  .heading m :: (List.zipWith Piece.block m.code code ++ [.ending])

/-- The pieces of several methods in a row. -/
def listings (ms : List Method) (codes : List (List (List Asm))) : List Piece :=
  (List.zipWith listing ms codes).flatten

/-- The code of each of the methods, with comparisons numbered from `n` up to `n'`. -/
inductive EmittedAll (u : ClassUnit) : List Method → Nat → List (List (List Asm)) → Nat → Prop
  | nil {n : Nat} : EmittedAll u [] n [] n
  | cons {m : Method} {ms : List Method} {n n₁ n' : Nat} {code : List (List Asm)}
      {codes : List (List (List Asm))} :
      Emitted (.of u m) m.code n code n₁ → EmittedAll u ms n₁ codes n' →
      EmittedAll u (m :: ms) n (code :: codes) n'

theorem Emitted.of_block_mem {f : Frame} {is : List Instr} {n n' : Nat} {code : List (List Asm)}
    (h : Emitted f is n code n') {i : Instr} {k : List Asm}
    (hmem : Piece.block i k ∈ List.zipWith Piece.block is code) :
    i ∈ is ∧ ∃ n₁ n₂, (f.instr i).run n₁ = ⟨.ok (), n₂, k⟩ := by
  induction h with
  | nil => cases hmem
  | @cons i' is n n₁ n' k' ks hinstr _ ih =>
    rcases List.mem_cons.1 hmem with heq | hmem
    · injection heq with hi hk
      subst hi hk
      exact ⟨List.mem_cons_self .., n, n₁, hinstr⟩
    · obtain ⟨hi, hblock⟩ := ih hmem
      exact ⟨List.mem_cons_of_mem _ hi, hblock⟩

variable {u : ClassUnit} {ms : List Method} {n n' : Nat}

/-- Methods that are emitted one after the other. -/
theorem methodsPieces_listed {out : List Piece}
    (h : (methodsPieces u ms).run n = ⟨.ok (), n', out⟩) :
    ∃ codes, EmittedAll u ms n codes n' ∧ out = listings ms codes := by
  induction ms generalizing n out with
  | nil =>
    obtain ⟨-, rfl, rfl⟩ := Stage.pure_ok_iff.1 h
    exact ⟨[], .nil, rfl⟩
  | cons m ms ih =>
    obtain ⟨_, n₁, o₁, o₂, hfirst, hrest, rfl⟩ := Stage.bind_ok_iff.1 h
    obtain ⟨code, hemitted, rfl⟩ := methodPieces_ok hfirst
    obtain ⟨codes, hall, rfl⟩ := ih hrest
    exact ⟨code :: codes, .cons hemitted hall, rfl⟩

/-- The text that an emitter makes is the listing of its class. -/
theorem Emitter.build_listed {e : Emitter} {text : String} (hnew : e.text = none)
    (h : e.build.result = .ok text) :
    ∃ codes n, EmittedAll e.unit e.unit.emissionOrder e.comparisons codes n ∧
      text = classText e.unit e.limits (listings e.unit.emissionOrder codes) := by
  obtain ⟨n, out, hpieces, rfl⟩ := build_ok hnew h
  obtain ⟨codes, hall, rfl⟩ := methodsPieces_listed hpieces
  exact ⟨codes, n, hall, rfl⟩

theorem perm_emissionOrder (u : ClassUnit) : u.emissionOrder.Perm u.methods :=
  List.filter_append_perm ..

namespace EmittedAll

variable {codes : List (List (List Asm))}

/-- Every method has its heading in the text. -/
theorem heading_mem (h : EmittedAll u ms n codes n') {m : Method} (hm : m ∈ ms) :
    Piece.heading m ∈ listings ms codes := by
  induction h with
  | nil => cases hm
  | @cons m' ms n n₁ n' code codes _ _ ih =>
    show Piece.heading m ∈ listing m' code ++ listings ms codes
    rcases List.mem_cons.1 hm with rfl | hm
    · exact List.mem_append_left _ (List.mem_cons_self ..)
    · exact List.mem_append_right _ (ih hm)

/-- Every block in the text is the code of an instruction of one of the methods. -/
theorem of_block_mem (h : EmittedAll u ms n codes n') {i : Instr} {k : List Asm}
    (hmem : Piece.block i k ∈ listings ms codes) :
    ∃ m ∈ ms, i ∈ m.code ∧ ∃ n₁ n₂, ((Frame.of u m).instr i).run n₁ = ⟨.ok (), n₂, k⟩ := by
  induction h with
  | nil => cases hmem
  | @cons m ms n n₁ n' code codes hemitted _ ih =>
    rcases List.mem_append.1 (show Piece.block i k ∈ listing m code ++ listings ms codes from hmem)
      with hfirst | hrest
    · refine ⟨m, List.mem_cons_self .., hemitted.of_block_mem ?_⟩
      simpa [listing] using hfirst
    · obtain ⟨m', hm', hblock⟩ := ih hrest
      exact ⟨m', List.mem_cons_of_mem _ hm', hblock⟩

theorem lengths (h : EmittedAll u ms n codes n') :
    List.Forall₂ (fun m code => code.length = m.code.length) ms codes := by
  induction h with
  | nil => exact .nil
  | cons hemitted _ ih => exact .cons hemitted.length_eq ih

/-- The labels of all methods are those of their instructions and those of the comparisons. -/
theorem labels_perm (h : EmittedAll u ms n codes n') :
    n ≤ n' ∧ (labels codes.flatten.flatten).Perm
      (Ir.labels (ms.flatMap Method.code) ++ comparisonLabels n n') := by
  induction h with
  | nil => exact ⟨Nat.le_refl _, by simp⟩
  | @cons m ms n n₁ n' code codes hemitted _ ih =>
    obtain ⟨hle₁, hperm₁⟩ := hemitted.labels_perm
    obtain ⟨hle, hperm⟩ := ih
    refine ⟨Nat.le_trans hle₁ hle, ?_⟩
    rw [List.flatten_cons, List.flatten_append, labels_append, List.flatMap_cons, Ir.labels_append,
      ← comparisonLabels_append hle₁ hle]
    exact (hperm₁.append hperm).trans (perm_append_append_comm ..)

end EmittedAll

/-- With as many blocks as instructions, every instruction has its block in the text. -/
theorem exists_block {codes : List (List (List Asm))}
    (h : List.Forall₂ (fun m code => code.length = m.code.length) ms codes)
    {m : Method} (hm : m ∈ ms) {i : Instr} (hi : i ∈ m.code) :
    ∃ k, Piece.block i k ∈ listings ms codes := by
  induction h with
  | nil => cases hm
  | @cons m' code ms codes hlen _ ih =>
    have hlistings : listings (m' :: ms) (code :: codes) = listing m' code ++ listings ms codes :=
      rfl
    rw [hlistings]
    rcases List.mem_cons.1 hm with rfl | hm
    · obtain ⟨j, hj, rfl⟩ := List.getElem_of_mem hi
      have hblock : Piece.block m.code[j] code[j] ∈ List.zipWith Piece.block m.code code :=
        List.mem_iff_getElem.2 ⟨j, by simpa [hlen] using hj, by simp⟩
      exact ⟨code[j],
        List.mem_append_left _ (List.mem_cons_of_mem _ (List.mem_append_left _ hblock))⟩
    · obtain ⟨k, hk⟩ := ih hm
      exact ⟨k, List.mem_append_right _ hk⟩

/-- Every new emitter of a class of an accepted program lists it. -/
theorem Emitter.build_of_lower {p : Program} {table : SymbolTable} {a : Annotation} {c : Counters}
    {units : List ClassUnit} (h : p.checked table = .ok a)
    (hlow : ((p.lower table a.types).run c).result = .ok units) {e : Emitter}
    (he : e.unit ∈ units) (hnew : e.text = none) :
    ∃ codes n, EmittedAll e.unit e.unit.emissionOrder e.comparisons codes n ∧
      e.build.result = .ok (classText e.unit e.limits (listings e.unit.emissionOrder codes)) := by
  have hmethods : ∀ m ∈ e.unit.methods, m.frozen = none ∧ ∃ sc, m.WellTyped sc := by
    intro m hm
    obtain ⟨sc, -, htyped⟩ := Program.wellTyped_of_lower h hlow _ he m hm
    exact ⟨frozen_of_lower hlow _ he m hm, sc, htyped⟩
  obtain ⟨text, htext⟩ := build_of_wellTyped hmethods
  obtain ⟨codes, n, hemitted, rfl⟩ := build_listed hnew htext
  exact ⟨codes, n, hemitted, htext⟩

end MiniJava.Assembly
