import MiniJava.Proofs.Semantics.StackMachine

/-!
# The height of the operand stack

Every instruction takes a fixed number of values from the stack and puts a fixed number on it. So
the height of the stack can be followed along the ways that control may take (`Path`), whatever the
values are: both ways of a conditional jump are taken. The height of a path is an integer, and
nothing says that it does not fall below zero. Every run of the machine follows a path
(`Path.of_reaches`).

**Levels.** To find the heights of all paths, we write a height before every line so that each line
leads to lines with the height that it leaves (`Steady`). If no label is set twice, then all paths
have these heights (`Steady.level_of_path`). Levels of pieces of code are put in a row
(`Steady.append`); a piece jumps to its own labels, or to labels of the outer code, where the stack
is empty.
-/

namespace MiniJava.Assembly

open Ir

/-! ## Single instructions -/

namespace Asm

/-- How many values the instruction takes from the stack. -/
def pops : Asm → Nat
  | ldc _ | iconst0 | iconst1 | iload _ | aload _ | aload0 | newObject _ | goto _
      | label _ | ret => 0
  | istore _ | astore _ | pop | newIntArray | newRefArray _ | arraylength | getfield .. | ifne _
  | ireturn | areturn => 1
  | iaload | aaload | iadd | isub | imul | idiv | iand | ixor | putfield .. | ifIcmplt _ => 2
  | iastore | aastore => 3
  | invoke kind _ _ params _ => (if kind = .static then 0 else 1) + params.length

/-- How many values the instruction puts on the stack. -/
def pushes : Asm → Nat
  | ldc _ | iconst0 | iconst1 | iload _ | aload _ | aload0 | iaload | aaload | iadd | isub | imul
  | idiv | iand | ixor | newObject _ | newIntArray | newRefArray _ | arraylength | getfield .. => 1
  | invoke _ _ _ _ result => if result = .void then 0 else 1
  | istore _ | astore _ | iastore | aastore | pop | putfield .. | goto _ | ifne _ | ifIcmplt _
  | label _ | ireturn | areturn | ret => 0

/-- Control may go on to the next line. -/
def goesOn : Asm → Bool
  | goto _ | ireturn | areturn | ret => false
  | _ => true

/-- The height that the instruction leaves. -/
def after (a : Asm) (h : Nat) : Nat := h - a.pops + a.pushes

end Asm

/-- Control may come to the line `pc` with a stack of the height given. A label that is jumped to
may be set in several lines. -/
inductive Path (code : List Asm) : Nat → Int → Prop
  | start : Path code 0 0
  | next {pc : Nat} {h : Int} {a : Asm} : Path code pc h → code[pc]? = some a → a.goesOn = true →
      Path code (pc + 1) (h - a.pops + a.pushes)
  | jump {pc target : Nat} {h : Int} {a : Asm} {l : String} : Path code pc h → code[pc]? = some a →
      a.jump? = some l → code[target]? = some (.label l) → Path code target (h - a.pops + a.pushes)

/-! ## Runs of the machine -/

section

variable {O : Type} {view : Op → O} {W : World O} {d : Memory W} {heap heap' : W.Heap}
  {t : List (Request O W.Ref)} {flow : Flow W (Memory W)}

/-- The flow is one of the instruction, and leaves the height that the instruction leaves. -/
def Asm.Moves (a : Asm) (n : Nat) : Flow W (Memory W) → Prop
  | .next d => a.goesOn = true ∧ a.pops ≤ n ∧ d.stack.length = a.after n
  | .jump l d => a.jump? = some l ∧ a.pops ≤ n ∧ d.stack.length = a.after n
  | .done _ => True

theorem Memory.load_ok {r : UInt16} (h : (d.load r).run heap = ⟨.ok flow, heap', t⟩) :
    ∃ d', flow = .next d' ∧ d'.stack.length = d.stack.length + 1 := by
  unfold load at h
  split at h
  · obtain ⟨rfl, -, -⟩ := Stage.pure_ok_iff.1 h
    exact ⟨_, rfl, rfl⟩
  · exact absurd h Stage.fail_ne_ok

theorem Memory.store_ok {r : UInt16} (h : (d.store r).run heap = ⟨.ok flow, heap', t⟩) :
    ∃ d', flow = .next d' ∧ d.stack.length = d'.stack.length + 1 := by
  unfold store at h
  split at h
  · next hstack =>
    obtain ⟨rfl, -, -⟩ := Stage.pure_ok_iff.1 h
    exact ⟨_, rfl, by rw [hstack, List.length_cons]⟩
  · exact absurd h Stage.fail_ne_ok

theorem Memory.arith_ok {f : Int32 → Int32 → Run W (Value W.Ref)}
    (h : (d.arith f).run heap = ⟨.ok flow, heap', t⟩) :
    ∃ d', flow = .next d' ∧ d.stack.length = d'.stack.length + 1 ∧ 1 ≤ d'.stack.length := by
  unfold arith at h
  split at h
  · next hstack =>
    obtain ⟨v, _, _, _, -, hnext, -⟩ := Stage.bind_ok_iff.1 h
    obtain ⟨rfl, -, -⟩ := Stage.pure_ok_iff.1 hnext
    exact ⟨_, rfl, by simp [hstack], by simp⟩
  · exact absurd h Stage.fail_ne_ok

theorem Memory.ask_ok {op : O} {n : Nat} {leaves : Bool}
    (h : (d.ask op n leaves).run heap = ⟨.ok flow, heap', t⟩) :
    ∃ d', flow = .next d' ∧ n ≤ d.stack.length ∧
      d'.stack.length = d.stack.length - n + if leaves then 1 else 0 := by
  unfold ask at h
  split at h
  · next hn =>
    obtain ⟨v, _, _, _, -, hnext, -⟩ := Stage.bind_ok_iff.1 h
    obtain ⟨rfl, -, -⟩ := Stage.pure_ok_iff.1 hnext
    refine ⟨_, rfl, hn, ?_⟩
    cases leaves <;> simp
  · exact absurd h Stage.fail_ne_ok

/-- What an instruction does to the stack is what its numbers say. -/
theorem Asm.exec_moves {a : Asm} (h : (a.exec view W d).run heap = ⟨.ok flow, heap', t⟩) :
    a.Moves d.stack.length flow := by
  -- Where the stack is too small, an instruction is stuck; so one that succeeds found enough on it.
  cases a with
  | ldc | iconst0 | iconst1 =>
    obtain ⟨rfl, -, -⟩ := Stage.pure_ok_iff.1 h
    exact ⟨rfl, Nat.zero_le _, rfl⟩
  | iload | aload | aload0 =>
    obtain ⟨d', rfl, hd⟩ := Memory.load_ok h
    exact ⟨rfl, Nat.zero_le _, hd⟩
  | istore | astore =>
    obtain ⟨d', rfl, hd⟩ := Memory.store_ok h
    exact ⟨rfl, by simp [pops, hd], by simp [after, pops, pushes, hd]⟩
  | iadd | isub | imul | idiv | iand | ixor =>
    obtain ⟨d', rfl, hd, hpos⟩ := Memory.arith_ok h
    refine ⟨rfl, ?_, ?_⟩
    · simp only [pops]
      omega
    · simp only [after, pops, pushes]
      omega
  | newObject | newIntArray | newRefArray | arraylength | getfield | putfield | iaload | aaload
  | iastore | aastore =>
    obtain ⟨d', rfl, hn, hd⟩ := Memory.ask_ok h
    exact ⟨rfl, hn, hd⟩
  | invoke kind owner method params result =>
    obtain ⟨d', rfl, hn, hd⟩ := Memory.ask_ok h
    refine ⟨rfl, hn, ?_⟩
    rw [hd, after, pops, pushes]
    by_cases hvoid : result = .void <;> simp [hvoid]
  | pop =>
    simp only [exec] at h
    split at h
    · next hstack =>
      obtain ⟨rfl, -, -⟩ := Stage.pure_ok_iff.1 h
      exact ⟨rfl, by simp [pops, hstack], by simp [after, pops, pushes, hstack]⟩
    · exact absurd h Stage.fail_ne_ok
  | goto l =>
    obtain ⟨rfl, -, -⟩ := Stage.pure_ok_iff.1 h
    exact ⟨rfl, Nat.zero_le _, rfl⟩
  | ifne l | ifIcmplt l =>
    simp only [exec] at h
    split at h
    · next hstack =>
      obtain ⟨rfl, -, -⟩ := Stage.pure_ok_iff.1 h
      split
      · exact ⟨rfl, by simp [pops, hstack], by simp [after, pops, pushes, hstack]⟩
      · exact ⟨rfl, by simp [pops, hstack], by simp [after, pops, pushes, hstack]⟩
    · exact absurd h Stage.fail_ne_ok
  | label l =>
    obtain ⟨rfl, -, -⟩ := Stage.pure_ok_iff.1 h
    exact ⟨rfl, Nat.zero_le _, rfl⟩
  | ireturn | areturn =>
    simp only [exec] at h
    split at h
    · obtain ⟨rfl, -, -⟩ := Stage.pure_ok_iff.1 h
      trivial
    · exact absurd h Stage.fail_ne_ok
  | ret =>
    obtain ⟨rfl, -, -⟩ := Stage.pure_ok_iff.1 h
    trivial

theorem Asm.Moves.height {a : Asm} {n n' : Nat} (hpops : a.pops ≤ n) (h : n' = a.after n) :
    (n' : Int) = n - a.pops + a.pushes := by
  rw [h, after]
  omega

variable {code : List Asm}

/-- The place of a label is a line that sets it. -/
theorem getElem?_of_labelAt {l : String} {k : Nat} (h : (machine view W).labelAt code l = some k) :
    code[k]? = some (.label l) := by
  obtain ⟨hk, hset, -⟩ := List.findIdx?_eq_some_iff_getElem.1 h
  have hlabel : code[k].label? = some l := by simpa [machine] using hset
  rw [List.getElem?_eq_getElem hk]
  cases hline : code[k] <;> simp_all [Asm.label?]

/-- A step of the machine is one of a path. -/
theorem Path.of_step {s s₁ : Control (Memory W)} (hpath : Path code s.pc s.data.stack.length)
    (h : ((machine view W).step code s).run heap = ⟨.ok (.go s₁), heap', t⟩) :
    Path code s₁.pc s₁.data.stack.length := by
  unfold Machine.step at h
  split at h
  · next a ha =>
    obtain ⟨flow, _, _, _, hexec, hfollow, -⟩ := Stage.bind_ok_iff.1 h
    -- What the instruction does to the height is what it says in its `pops` and `pushes`.
    have hmoves := Asm.exec_moves hexec
    cases flow with
    | next d =>
      obtain ⟨hgo, -, -⟩ := Stage.pure_ok_iff.1 hfollow
      cases hgo
      obtain ⟨hgoes, hpops, hheight⟩ := hmoves
      rw [Asm.Moves.height hpops hheight]
      exact hpath.next ha hgoes
    | jump l d =>
      simp only [Machine.follow] at hfollow
      split at hfollow
      · next k hk =>
        obtain ⟨hgo, -, -⟩ := Stage.pure_ok_iff.1 hfollow
        cases hgo
        obtain ⟨hjump, hpops, hheight⟩ := hmoves
        rw [Asm.Moves.height hpops hheight]
        exact hpath.jump ha hjump (getElem?_of_labelAt hk)
      · exact absurd hfollow Stage.fail_ne_ok
    | done v =>
      obtain ⟨hgo, -, -⟩ := Stage.pure_ok_iff.1 hfollow
      cases hgo
  · exact absurd h Stage.fail_ne_ok

/-- **Runs follow paths.** Started with an empty stack, the machine has a stack of the height of a
path whenever it comes to a line. -/
theorem Path.of_reaches {s s' : Control (Memory W)}
    (h : (machine view W).Reaches code s heap t s' heap')
    (hs : Path code s.pc s.data.stack.length) :
    Path code s'.pc s'.data.stack.length := by
  induction h with
  | refl => exact hs
  | step hstep _ ih => exact ih (hs.of_step hstep)

end

/-! ## Levels -/

/-- The heights before all lines, and the one behind the last line. -/
def levels (lines : List (Nat × Asm)) (h' : Nat) : List Nat := lines.map Prod.fst ++ [h']

/-- Every line has enough values on the stack, and leads to lines with the height that it leaves. It
may jump to a label of these lines, or else to an outer label, with an empty stack. -/
structure Steady (outer : String → Prop) (bound : Nat) (lines : List (Nat × Asm)) (h' : Nat) :
    Prop where
  pops : ∀ {h a}, (h, a) ∈ lines → a.pops ≤ h
  le : ∀ {h a}, (h, a) ∈ lines → h ≤ bound
  next : ∀ {k h a}, lines[k]? = some (h, a) → a.goesOn = true →
    (levels lines h')[k + 1]? = some (a.after h)
  jump : ∀ {h a l}, (h, a) ∈ lines → a.jump? = some l →
    outer l ∧ a.after h = 0 ∨ (a.after h, .label l) ∈ lines
  label : ∀ {h l}, (h, .label l) ∈ lines → outer l → h = 0

section

variable {outer : String → Prop} {bound : Nat} {first second lines : List (Nat × Asm)} {h h' : Nat}

theorem getElem?_levels {k : Nat} {a : Asm} (hk : lines[k]? = some (h, a)) :
    (levels lines h')[k]? = some h := by
  have hlt := (List.getElem?_eq_some_iff.1 hk).1
  rw [levels, List.getElem?_append_left (by simpa using hlt), List.getElem?_map, hk]
  rfl

/-- The line of the code at a place, with its height. -/
theorem getElem?_of_levels {code : List Asm} (hcode : lines.map Prod.snd = code) {k : Nat} {a : Asm}
    (ha : code[k]? = some a) (hk : (levels lines h')[k]? = some h) : lines[k]? = some (h, a) := by
  rw [← hcode, List.getElem?_map, Option.map_eq_some_iff] at ha
  obtain ⟨⟨h₁, a'⟩, hline, rfl⟩ := ha
  rw [hline, Option.some.inj ((getElem?_levels hline).symm.trans hk)]

theorem levels_append (first second : List (Nat × Asm)) (h' : Nat) :
    levels (first ++ second) h' = first.map Prod.fst ++ levels second h' := by
  rw [levels, List.map_append, List.append_assoc, ← levels]

/-- Behind the first lines the height is the one before the second. -/
theorem getElem?_levels_left {k : Nat} (hmid : (levels second h')[0]? = some h)
    (hk : k ≤ first.length) : (levels (first ++ second) h')[k]? = (levels first h)[k]? := by
  rw [levels_append]
  rcases Nat.lt_or_eq_of_le hk with hlt | rfl
  · rw [List.getElem?_append_left (by simpa using hlt), levels,
      List.getElem?_append_left (by simpa using hlt)]
  · have hend : (levels first h)[first.length]? = some h := by simp [levels]
    rw [hend, List.getElem?_append_right (by simp), List.length_map, Nat.sub_self, hmid]

theorem getElem?_levels_right (first second : List (Nat × Asm)) (h' k : Nat) :
    (levels (first ++ second) h')[first.length + k]? = (levels second h')[k]? := by
  rw [levels_append, List.getElem?_append_right (by simp), List.length_map, Nat.add_sub_cancel_left]

/-- A label that is set once stands in one line. -/
theorem eq_of_label {code : List Asm} (hlabels : (labels code).Nodup) {j k : Nat} {l : String}
    (hj : code[j]? = some (.label l)) (hk : code[k]? = some (.label l)) : j = k := by
  have hpair := List.pairwise_iff_getElem.1 (List.pairwise_filterMap.1 hlabels)
  obtain ⟨hj, hjl⟩ := List.getElem?_eq_some_iff.1 hj
  obtain ⟨hk, hkl⟩ := List.getElem?_eq_some_iff.1 hk
  rcases Nat.lt_trichotomy j k with hlt | heq | hlt
  · exact absurd rfl (hpair j k hj hk hlt l (by rw [hjl]; rfl) l (by rw [hkl]; rfl))
  · exact heq
  · exact absurd rfl (hpair k j hk hj hlt l (by rw [hkl]; rfl) l (by rw [hjl]; rfl))

namespace Steady

theorem nil (h : Nat) : Steady outer bound [] h where
  pops := by simp
  le := by simp
  next := by simp
  jump := by simp
  label := by simp

/-- Lines in a row. -/
theorem append (hfirst : Steady outer bound first h) (hsecond : Steady outer bound second h')
    (hmid : (levels second h')[0]? = some h) : Steady outer bound (first ++ second) h' where
  pops hmem := (List.mem_append.1 hmem).elim hfirst.pops hsecond.pops
  le hmem := (List.mem_append.1 hmem).elim hfirst.le hsecond.le
  next := by
    intro k x a hk hgoes
    by_cases hlt : k < first.length
    · rw [List.getElem?_append_left hlt] at hk
      rw [getElem?_levels_left hmid hlt]
      exact hfirst.next hk hgoes
    · obtain ⟨j, rfl⟩ := Nat.exists_eq_add_of_le (Nat.le_of_not_lt hlt)
      rw [List.getElem?_append_right (Nat.le_add_right ..), Nat.add_sub_cancel_left] at hk
      rw [Nat.add_assoc, getElem?_levels_right]
      exact hsecond.next hk hgoes
  jump := by
    intro x a l hmem hjump
    rcases List.mem_append.1 hmem with hmem | hmem
    · exact (hfirst.jump hmem hjump).imp_right (List.mem_append_left _)
    · exact (hsecond.jump hmem hjump).imp_right (List.mem_append_right _)
  label hmem := (List.mem_append.1 hmem).elim hfirst.label hsecond.label

/-- A goto to an outer label is taken with an empty stack. -/
theorem goto {l : String} (hs : Steady outer bound lines h') (hmem : (h, Asm.goto l) ∈ lines)
    (hl : outer l) : h = 0 := by
  have hafter : (Asm.goto l).after h = h := rfl
  rcases hs.jump hmem rfl with ⟨-, hzero⟩ | hinner
  · exact hafter ▸ hzero
  · exact hs.label (hafter ▸ hinner) hl

variable {code : List Asm} {pc : Nat} {x : Int}

/-- **Paths keep to the levels.** -/
theorem level_of_path (hs : Steady outer bound lines h') (hcode : lines.map Prod.snd = code)
    (hentry : (levels lines h')[0]? = some 0) (hlabels : (labels code).Nodup)
    (hpath : Path code pc x) : ∃ n : Nat, x = n ∧ (levels lines h')[pc]? = some n := by
  induction hpath with
  | start => exact ⟨0, rfl, hentry⟩
  | @next pc x a _ ha hgoes ih =>
    obtain ⟨n, rfl, hn⟩ := ih
    have hl := getElem?_of_levels hcode ha hn
    exact ⟨a.after n, (Asm.Moves.height (hs.pops (List.mem_of_getElem? hl)) rfl).symm,
      hs.next hl hgoes⟩
  | @jump pc target x a l _ ha hjump htarget ih =>
    obtain ⟨n, rfl, hn⟩ := ih
    have hmem := List.mem_of_getElem? (getElem?_of_levels hcode ha hn)
    refine ⟨a.after n, (Asm.Moves.height (hs.pops hmem) rfl).symm, ?_⟩
    obtain ⟨m, hm⟩ : ∃ m, lines[target]? = some (m, .label l) := by
      rw [← hcode, List.getElem?_map, Option.map_eq_some_iff] at htarget
      obtain ⟨⟨m, a'⟩, hm, rfl⟩ := htarget
      exact ⟨m, hm⟩
    rw [getElem?_levels hm]
    -- A jump of the method meets its label at height zero. One inside a comparison meets a label
    -- that was given this height when the lines were levelled.
    rcases hs.jump hmem hjump with ⟨houter, hzero⟩ | hinner
    · rw [hzero, hs.label (List.mem_of_getElem? hm) houter]
    · -- The label is set in one line only.
      obtain ⟨k, hk⟩ := List.mem_iff_getElem?.1 hinner
      have hset : code[k]? = some (.label l) := by rw [← hcode, List.getElem?_map, hk]; rfl
      obtain rfl := eq_of_label hlabels hset htarget
      exact congrArg (some ∘ Prod.fst) (Option.some.inj (hm.symm.trans hk))

theorem line_of_path (hs : Steady outer bound lines h') (hcode : lines.map Prod.snd = code)
    (hentry : (levels lines h')[0]? = some 0) (hlabels : (labels code).Nodup) {a : Asm}
    (hpath : Path code pc x) (ha : code[pc]? = some a) : ∃ n : Nat, x = n ∧ (n, a) ∈ lines := by
  obtain ⟨n, rfl, hn⟩ := hs.level_of_path hcode hentry hlabels hpath
  exact ⟨n, rfl, List.mem_of_getElem? (getElem?_of_levels hcode ha hn)⟩

theorem le_of_path (hs : Steady outer bound lines h') (hcode : lines.map Prod.snd = code)
    (hentry : (levels lines h')[0]? = some 0) (hlabels : (labels code).Nodup) (hend : h' ≤ bound)
    (hpath : Path code pc x) : x ≤ bound := by
  obtain ⟨n, rfl, hn⟩ := hs.level_of_path hcode hentry hlabels hpath
  rcases List.mem_append.1 (List.mem_of_getElem? hn) with hmem | hlast
  · obtain ⟨⟨n, a⟩, hline, rfl⟩ := List.mem_map.1 hmem
    exact Int.ofNat_le.2 (hs.le hline)
  · rw [List.mem_singleton.1 hlast]
    exact Int.ofNat_le.2 hend

end Steady

end

end MiniJava.Assembly
