import MiniJava.Proofs.Lowering.Labels
import MiniJava.Proofs.Semantics.Source
import MiniJava.Proofs.Symbols

/-!
# Lowered expressions compute their value

Run from its first instruction, the code of an expression makes the requests that the expression
makes, and ends behind its last instruction with the value in the operand that lowering gave
(`Expr.Lowers.realizes`).

**Temporaries.** Code for an expression stores in temporaries only, and those it takes are new. So
what was computed before keeps its value: an operand holds its value in all environments that differ
only in later temporaries (`Operand.Holds`). For the variables of the program this needs that none
of them is named as a temporary (`Scope.Apart`).
-/

namespace MiniJava

open Ir Lower

/-- What a program asks for when an instruction asks for the operation. Types are left out. -/
def Ir.Op.plain : Ir.Op → Source.Op
  | .call .static (.cls c) m _ _ => .callStatic c m
  | .call .special _ _ _ _ => .construct
  | .call _ _ m _ _ => .call m
  | .newObject c => .newObject c
  | .newArray _ => .newArray
  | .length => .length
  | .getField x _ => .getField x
  | .putField x _ => .putField x
  | .readItem _ => .readItem
  | .writeItem _ => .writeItem

/-- The machine for lowered code in the world of a program. -/
abbrev lowMachine (W : World Source.Op) : Machine W Instr (Env W) := Ir.machine Ir.Op.plain W

/-- No local or parameter is named as a temporary. -/
def Scope.Apart (sc : Scope) : Prop :=
  ∀ x b, sc.resolve x = some b → b.isField = false → ∀ k, x ≠ tempName k

theorem Scope.apart_of_names {sc : Scope}
    (h : ∀ v ∈ sc.method.params ++ sc.method.locals, ∀ k, v.name ≠ tempName k) : sc.Apart :=
  fun _ _ hb hfield => h _ (mem_of_resolve hb hfield)

/-! ## Environments -/

section

variable {W : World Source.Op} {ρ ρ₁ ρ₂ : Env W} {n m : Nat}

/-- The environments differ at most in the temporaries from `n` on. -/
def Env.SameBelow (n : Nat) (ρ ρ' : Env W) : Prop :=
  ∀ x, (∀ k, n ≤ k → x ≠ tempName k) → ρ' x = ρ x

namespace Env.SameBelow

theorem refl (n : Nat) (ρ : Env W) : SameBelow n ρ ρ := fun _ _ => rfl

theorem trans (h₁ : SameBelow n ρ ρ₁) (h₂ : SameBelow n ρ₁ ρ₂) : SameBelow n ρ ρ₂ :=
  fun x hx => (h₂ x hx).trans (h₁ x hx)

theorem mono (h : SameBelow m ρ ρ₁) (hle : n ≤ m) : SameBelow n ρ ρ₁ :=
  fun x hx => h x fun k hk => hx k (Nat.le_trans hle hk)

theorem set_temp (ρ : Env W) (v : Value W.Ref) (hle : n ≤ m) :
    SameBelow n ρ (ρ.set (tempName m) v) :=
  fun _ hx => ρ.set_of_ne v (hx m hle)

theorem read {x : String} (h : SameBelow n ρ ρ₁) (hx : ∀ k, x ≠ tempName k) :
    ρ₁.read x = ρ.read x := by
  rw [Env.read, Env.read, h x fun k _ => hx k]

end Env.SameBelow

/-! ## Operands -/

/-- The operand has the value, whatever the temporaries from `n` on are. -/
def Ir.Operand.Holds (o : Operand) (n : Nat) (ρ : Env W) (v : Value W.Ref) : Prop :=
  ∀ ρ', Env.SameBelow n ρ ρ' → o.read Ir.Op.plain W ρ' = pure v

/-- The operands have the values, whatever the temporaries from `n` on are. -/
def Ir.Operand.HoldsAll (os : List Operand) (n : Nat) (ρ : Env W) (vs : List (Value W.Ref)) :
    Prop :=
  ∀ ρ', Env.SameBelow n ρ ρ' → Operand.readAll Ir.Op.plain W ρ' os = pure vs

namespace Ir.Operand

theorem holds_literal {a : Int32} {ty : Ty} : Holds (.literal a ty) n ρ (.int a) :=
  fun _ _ => rfl

theorem holds_var {x : String} {ty : Ty} {p : Option Nat} {v : Value W.Ref} (hv : ρ x = some v)
    (hx : ∀ k, n ≤ k → x ≠ tempName k) : Holds (.var x ty p) n ρ v := by
  intro ρ' h
  exact Env.read_of_some ((h x hx).trans hv)

theorem Holds.later {o : Operand} {v : Value W.Ref} (h : o.Holds n ρ v) (hle : n ≤ m)
    (hsame : Env.SameBelow n ρ ρ₁) : o.Holds m ρ₁ v :=
  fun ρ' h' => h ρ' (hsame.trans (h'.mono hle))

theorem HoldsAll.later {os : List Operand} {vs : List (Value W.Ref)} (h : HoldsAll os n ρ vs)
    (hle : n ≤ m) (hsame : Env.SameBelow n ρ ρ₁) : HoldsAll os m ρ₁ vs :=
  fun ρ' h' => h ρ' (hsame.trans (h'.mono hle))

theorem Holds.read {o : Operand} {v : Value W.Ref} (h : o.Holds n ρ v) :
    o.read Ir.Op.plain W ρ = pure v :=
  h ρ (.refl n ρ)

theorem HoldsAll.readAll {os : List Operand} {vs : List (Value W.Ref)} (h : HoldsAll os n ρ vs) :
    Operand.readAll Ir.Op.plain W ρ os = pure vs :=
  h ρ (.refl n ρ)

theorem holdsAll_nil : HoldsAll [] n ρ [] := fun _ _ => rfl

theorem Holds.cons {o : Operand} {os : List Operand} {v : Value W.Ref} {vs : List (Value W.Ref)}
    (h : o.Holds n ρ v) (hs : HoldsAll os n ρ vs) : HoldsAll (o :: os) n ρ (v :: vs) := by
  intro ρ' h'
  simp [Operand.readAll, h ρ' h', hs ρ' h']

end Ir.Operand

/-- The state behind the code of an expression: the value is in its operand, and of what was there
before only temporaries from `n` on have changed. -/
structure Computed (o : Operand) (n n' : Nat) (ρ : Env W) (pc : Nat) (v : Value W.Ref)
    (s : Control (Env W)) : Prop where
  pc : s.pc = pc
  same : Env.SameBelow n ρ s.data
  holds : o.Holds n' s.data v

/-- The state behind the code of several expressions. -/
structure ComputedAll (os : List Operand) (n n' : Nat) (ρ : Env W) (pc : Nat)
    (vs : List (Value W.Ref)) (s : Control (Env W)) : Prop where
  pc : s.pc = pc
  same : Env.SameBelow n ρ s.data
  holds : Operand.HoldsAll os n' s.data vs

variable {code : List Instr} {pc : Nat}

/-- What an instruction gives is kept in a temporary, after code that started with `ρ`. -/
theorem Lower.Kept.realizes {ty : Ty} {rhs : Instr} {c c' : Counters} {o : Operand}
    {piece : List Instr} {x : Run W (Value W.Ref)} {p : Nat} (hk : Kept ty rhs c o c' piece)
    (hcode : CodeAt code pc piece) (hrhs : rhs.compute Ir.Op.plain W ρ₁ = x)
    (hsame : Env.SameBelow n ρ ρ₁) (hle : n ≤ c.temps) (hp : pc + piece.length = p) :
    (lowMachine W).Realizes code ⟨pc, ρ₁⟩ x (Computed o n c'.temps ρ p) := by
  obtain ⟨rfl, rfl, rfl⟩ := hk
  have hnext : (lowMachine W).Realizes code ⟨pc, ρ₁⟩ x
      fun v s' => s' = ⟨pc + 1, ρ₁.set (tempName c.temps) v⟩ := by
    refine .next hcode.head ?_
    simp [Ir.machine, Instr.exec, store, Operand.plain, hrhs]
  refine hnext.mono ?_
  rintro v _ rfl
  refine ⟨hp, hsame.trans (.set_temp ρ₁ v hle), Operand.holds_var (Env.set_self ..) ?_⟩
  intro k hk heq
  have hk' : c.temps + 1 ≤ k := hk
  have := tempName_inj heq
  omega

/-! ## Kinds of operands -/

namespace Expr

variable {sc : Scope} {types : TypeMap} {mk : Bool} {c c' : Counters} {o : Operand}
  {piece : List Instr}

/-- A number or a truth value, parenthesised or not. -/
def isLiteral (e : Expr) : Bool :=
  match e.strip with
  | int .. | bool .. => true
  | _ => false

/-- The operand is a variable, unless the expression is a literal or names a class. -/
theorem Lowers.operand {e : Expr} (h : Lowers sc types mk e c o c' piece) :
    (∃ x ty p, o = .var x ty p) ∨ (∃ v ty, o = .literal v ty ∧ e.isLiteral = true) ∨
      ∃ cl, e.className? sc = some cl ∧ o = .cls cl := by
  induction e using Expr.induction with
  | int n v => exact .inr (.inl ⟨v, .int, (lowers_int.1 h).1, rfl⟩)
  | bool n v => exact .inr (.inl ⟨_, .bool, (lowers_bool.1 h).1, rfl⟩)
  | this n => exact .inl ⟨_, _, _, (lowers_this.1 h).1⟩
  | var n x =>
    rcases lowers_var.1 h with ⟨s, -, hk⟩ | ⟨b, -, -, rfl, -⟩ | ⟨hres, hname, rfl, -⟩
    · exact .inl ⟨_, _, _, hk.operand⟩
    · cases b <;> exact .inl ⟨_, _, _, rfl⟩
    · exact .inr (.inr ⟨x, by simp [className?, strip, hres, hname], rfl⟩)
  | not n e =>
    obtain ⟨a, c₁, k₁, k₂, -, hk, -⟩ := lowers_not.1 h
    exact .inl ⟨_, _, _, hk.operand⟩
  | binary n op l r =>
    obtain ⟨ty, a, c₁, k₁, b, c₂, k₂, k₃, -, -, -, hk, -⟩ := lowers_binary.1 h
    exact .inl ⟨_, _, _, hk.operand⟩
  | call n r m args =>
    obtain ⟨ty, as, c₁, k₁, t, c₂, k₂, k₃, -, -, -, -, hk, -⟩ := lowers_call.1 h
    exact .inl ⟨_, _, _, hk.operand⟩
  | newObject n cl =>
    obtain ⟨k, hk, -⟩ := lowers_newObject.1 h
    exact .inl ⟨_, _, _, hk.operand⟩
  | newArray n e =>
    obtain ⟨ty, a, c₁, k₁, k₂, -, -, hk, -⟩ := lowers_newArray.1 h
    exact .inl ⟨_, _, _, hk.operand⟩
  | length n a =>
    obtain ⟨b, c₁, k₁, k₂, -, hk, -⟩ := lowers_length.1 h
    exact .inl ⟨_, _, _, hk.operand⟩
  | index n a i =>
    obtain ⟨ty, x, t, p, c₁, k₁, j, c₂, k₂, k₃, -, -, -, hk, -⟩ := lowers_index.1 h
    exact .inl ⟨_, _, _, hk.operand⟩
  | paren n e ih => exact ih (lowers_paren.1 h)

/-- A receiver that names a class is the class, and no code is written for it. -/
theorem Lowers.of_className {e : Expr} {cl : String} (h : Lowers sc types mk e c o c' piece)
    (hcl : e.className? sc = some cl) : o = .cls cl ∧ c' = c ∧ piece = [] := by
  induction e using Expr.induction with
  | paren n e ih => exact ih (lowers_paren.1 h) hcl
  | var n x =>
    simp only [className?, strip, Bool.and_eq_true, Option.isNone_iff_eq_none,
      Option.ite_none_right_eq_some, Option.some.injEq] at hcl
    obtain ⟨⟨hres, -⟩, rfl⟩ := hcl
    rcases lowers_var.1 h with ⟨s, hs, -⟩ | ⟨b, hb, -⟩ | ⟨-, -, ho⟩
    · simp [hres] at hs
    · simp [hres] at hb
    · exact ho
  | _ => simp [className?, strip] at hcl

theorem Lowers.ne_cls {e : Expr} (h : Lowers sc types mk e c o c' piece)
    (hcl : e.className? sc = none) (cl : String) : o ≠ .cls cl := by
  rcases h.operand with ⟨x, ty, p, rfl⟩ | ⟨v, ty, rfl, -⟩ | ⟨cl', hcl', -⟩
  · nofun
  · nofun
  · simp [hcl] at hcl'

/-! ## The simulation -/

variable {env : Env W}

/-- The code of the expression realizes its value, wherever it stands in a program. -/
def Realized (sc : Scope) (W : World Source.Op) (types : TypeMap) (mk : Bool) (e : Expr) : Prop :=
  ∀ {code : List Instr} {pc : Nat} {env ρ : Env W} {c c' : Counters} {o : Operand}
    {piece : List Instr}, Lowers sc types mk e c o c' piece → CodeAt code pc piece →
    Env.SameBelow 0 env ρ → (lowMachine W).Realizes code ⟨pc, ρ⟩ (e.eval sc W env)
      (Computed o c.temps c'.temps ρ (pc + piece.length))

/-- A variable needs no code. -/
theorem realizes_read {x : String} {ty : Ty} {p : Option Nat} (hx : ∀ k, n ≤ k → x ≠ tempName k) :
    (lowMachine W).Realizes code ⟨pc, ρ⟩ (ρ.read x) (Computed (.var x ty p) n n ρ pc) := by
  rcases hv : ρ x with _ | v
  · rw [Env.read, hv]
    exact .stuck
  · rw [Env.read_of_some hv]
    exact .pure ⟨rfl, .refl _ _, Operand.holds_var hv hx⟩

theorem realizes_all {es : List Expr} {os : List Operand}
    (hes : ∀ e ∈ es, Realized sc W types mk e) (h : LowersAll sc types mk es c os c' piece)
    (hcode : CodeAt code pc piece) (hρ : Env.SameBelow 0 env ρ) :
    (lowMachine W).Realizes code ⟨pc, ρ⟩ (evalAll sc W env es)
      (ComputedAll os c.temps c'.temps ρ (pc + piece.length)) := by
  induction es generalizing c os piece pc ρ with
  | nil =>
    obtain ⟨rfl, rfl, rfl⟩ := lowersAll_nil.1 h
    exact .pure ⟨rfl, .refl _ _, Operand.holdsAll_nil⟩
  | cons e es ih =>
    obtain ⟨a, c₁, k₁, as, k₂, he, hrest, rfl, rfl⟩ := lowersAll_cons.1 h
    have hle := he.straight.temps
    refine (hes e (List.mem_cons_self ..) he hcode.left hρ).bind ?_
    rintro v ⟨_, ρ₁⟩ ⟨rfl, hsame, hv⟩
    refine (ih (fun e' he' => hes e' (List.mem_cons_of_mem _ he')) hrest hcode.right
      (hρ.trans (hsame.mono (Nat.zero_le _)))).bind ?_
    rintro vs ⟨_, ρ₂⟩ ⟨rfl, hsame', hvs⟩
    refine .pure ⟨?_, hsame.trans (hsame'.mono hle),
      (hv.later hrest.straight.temps hsame').cons hvs⟩
    simp [Nat.add_assoc]

/-- A call up to its instruction: the arguments and the receiver have been computed, and the
instruction asks for what the program asks for. What is done with the value is left open. -/
theorem realizes_call (ty : Ty) {n : Node} {r : Expr} {m : Located String} {args : List Expr}
    {as : List Operand} {t : Operand} {c₁ c₂ : Counters} {k₁ k₂ : List Instr}
    {post : Value W.Ref → Control (Env W) → Prop} (hr : Realized sc W types mk r)
    (hargs : ∀ a ∈ args, Realized sc W types mk a) (has : LowersAll sc types mk args c as c₁ k₁)
    (ht : Lowers sc types mk r c₁ t c₂ k₂) (hcode : CodeAt code pc (k₁ ++ k₂))
    (hρ : Env.SameBelow 0 env ρ)
    (hlast : ∀ ρ' x, Env.SameBelow c.temps ρ ρ' →
      (∀ kind ps, callInstr sc t m.node as ty = .call kind t m.node as ps ty →
        invoke Ir.Op.plain W ρ' kind t m.node as ps ty = x) →
      (lowMachine W).Realizes code ⟨pc + (k₁ ++ k₂).length, ρ'⟩ x post) :
    (lowMachine W).Realizes code ⟨pc, ρ⟩ ((call n r m args).eval sc W env) post := by
  rw [eval]
  refine (realizes_all hargs has hcode.left hρ).bind ?_
  rintro vs ⟨_, ρ₁⟩ ⟨rfl, hsame₁, hvs⟩
  -- A receiver that names a class has no code and no value.
  cases hcl : r.className? sc with
  | some cl =>
    obtain ⟨rfl, rfl, rfl⟩ := ht.of_className hcl
    have hcall := hlast ρ₁ (W.request (.callStatic cl m.node) vs) hsame₁ ?_
    · simpa using hcall
    · intro kind ps heq
      injection heq with hkind
      subst hkind
      simp [invoke, receiver, hvs.readAll, Ir.Op.plain]
  | none =>
    refine (hr ht hcode.right (hρ.trans (hsame₁.mono (Nat.zero_le _)))).bind ?_
    rintro v ⟨_, ρ₂⟩ ⟨rfl, hsame₂, hv⟩
    have hcall := hlast ρ₂ (W.request (.call m.node) (v :: vs))
      (hsame₁.trans (hsame₂.mono has.straight.temps)) ?_
    · simpa [Nat.add_assoc] using hcall
    · intro kind ps heq
      have hkind : kind = .virtual := by
        cases t with
        | cls cl => exact absurd rfl (ht.ne_cls hcl cl)
        | literal | var | item =>
          injection heq with hkind
          exact hkind.symm
      subst hkind
      -- The receiver is computed behind the arguments, and has left them as they were.
      have hvs' := (hvs.later ht.straight.temps hsame₂).readAll
      simp [invoke, receiver, hv.read, hvs', Ir.Op.plain]

theorem realized_var (hsc : sc.Apart) {n : Node} {x : String} :
    Realized sc W types mk (var n x) := by
  intro code pc env ρ c c' o piece h hcode hρ
  rw [eval, evalVar]
  rcases lowers_var.1 h with ⟨s, hs, hk⟩ | ⟨b, hb, hfield, rfl, rfl, rfl⟩ | ⟨hres, -⟩
  · simp only [hs]
    refine hk.realizes hcode ?_ (.refl _ _) (Nat.le_refl _) rfl
    simp [Instr.compute, Operand.plain, Operand.name?, evalField, hρ.read this_ne_tempName,
      Ir.Op.plain]
  -- A local or a parameter is its own operand, and no temporary has its name.
  · have hx := hsc x b hb hfield
    simp only [hb]
    cases b with
    | field s => cases hfield
    | loc s =>
      rw [← hρ.read hx]
      exact realizes_read fun k _ => hx k
    | param ordinal s =>
      rw [← hρ.read hx]
      exact realizes_read fun k _ => hx k
  · simp only [hres]
    exact .stuck

/-- One operand is computed, and an instruction on it gives the value. -/
theorem Realized.unary {e : Expr} {ty : Ty} {rhs : Instr} {a : Operand} {c₁ : Counters}
    {k₁ k₂ : List Instr} {f : Value W.Ref → Run W (Value W.Ref)} (he : Realized sc W types mk e)
    (hlow : Lowers sc types mk e c a c₁ k₁) (hk : Kept ty rhs c₁ o c' k₂)
    (hcode : CodeAt code pc (k₁ ++ k₂)) (hρ : Env.SameBelow 0 env ρ)
    (hrhs : ∀ {ρ' v}, a.read Ir.Op.plain W ρ' = pure v → rhs.compute Ir.Op.plain W ρ' = f v) :
    (lowMachine W).Realizes code ⟨pc, ρ⟩ (e.eval sc W env >>= f)
      (Computed o c.temps c'.temps ρ (pc + (k₁ ++ k₂).length)) := by
  refine (he hlow hcode.left hρ).bind ?_
  rintro v ⟨_, ρ₁⟩ ⟨rfl, hsame, hv⟩
  exact hk.realizes hcode.right (hrhs hv.read) hsame hlow.straight.temps (by simp [Nat.add_assoc])

/-- Two operands are computed, and an instruction on both gives the value. -/
theorem Realized.binary {l r : Expr} {ty : Ty} {rhs : Instr} {a b : Operand} {c₁ c₂ : Counters}
    {k₁ k₂ k₃ : List Instr} {f : Value W.Ref → Value W.Ref → Run W (Value W.Ref)}
    (hl : Realized sc W types mk l) (hr : Realized sc W types mk r)
    (hlow₁ : Lowers sc types mk l c a c₁ k₁) (hlow₂ : Lowers sc types mk r c₁ b c₂ k₂)
    (hk : Kept ty rhs c₂ o c' k₃) (hcode : CodeAt code pc (k₁ ++ (k₂ ++ k₃)))
    (hρ : Env.SameBelow 0 env ρ)
    (hrhs : ∀ {ρ' v w}, a.read Ir.Op.plain W ρ' = pure v → b.read Ir.Op.plain W ρ' = pure w →
      rhs.compute Ir.Op.plain W ρ' = f v w) :
    (lowMachine W).Realizes code ⟨pc, ρ⟩
      (l.eval sc W env >>= fun v => r.eval sc W env >>= fun w => f v w)
      (Computed o c.temps c'.temps ρ (pc + (k₁ ++ (k₂ ++ k₃)).length)) := by
  have hle₁ := hlow₁.straight.temps
  have hle₂ := hlow₂.straight.temps
  refine (hl hlow₁ hcode.left hρ).bind ?_
  rintro v ⟨_, ρ₁⟩ ⟨rfl, hsame₁, hv⟩
  refine (hr hlow₂ hcode.right.left (hρ.trans (hsame₁.mono (Nat.zero_le _)))).bind ?_
  rintro w ⟨_, ρ₂⟩ ⟨rfl, hsame₂, hw⟩
  -- The left operand was read before the right one was computed, and has kept its value.
  have hv₂ := (hv.later hle₂ hsame₂).read
  exact hk.realizes hcode.right.right (hrhs hv₂ hw.read) (hsame₁.trans (hsame₂.mono hle₁))
    (Nat.le_trans hle₁ hle₂) (by simp [Nat.add_assoc])

theorem realized_call {n : Node} {r : Expr} {m : Located String} {args : List Expr}
    (hr : Realized sc W types mk r) (hargs : ∀ a ∈ args, Realized sc W types mk a) :
    Realized sc W types mk (call n r m args) := by
  intro code pc env ρ c c' o piece h hcode hρ
  obtain ⟨ty, as, c₁, k₁, t, c₂, k₂, k₃, -, hty, has, ht, hk, rfl⟩ := lowers_call.1 h
  rw [← List.append_assoc] at hcode
  refine realizes_call ty hr hargs has ht hcode.left hρ fun ρ' x hsame hcall => ?_
  refine hk.realizes hcode.right ?_ hsame (Nat.le_trans has.straight.temps ht.straight.temps)
    (by simp [Nat.add_assoc])
  simp only [callInstr, Instr.compute, hty, if_false]
  exact hcall _ _ rfl

/-- An object is made and kept, and then constructed: two requests, in this order. -/
theorem realized_newObject {n : Node} {cl : Located String} :
    Realized sc W types mk (newObject n cl) := by
  intro code pc env ρ c c' o piece h hcode hρ
  obtain ⟨k, hk, rfl⟩ := lowers_newObject.1 h
  rw [eval]
  refine (hk.realizes (x := W.request (.newObject cl.node) []) hcode.left rfl (.refl _ _)
    (Nat.le_refl _) rfl).bind ?_
  rintro v ⟨_, ρ₁⟩ ⟨rfl, hsame, hv⟩
  have hinit : (lowMachine W).Realizes code ⟨pc + k.length, ρ₁⟩
      (W.request Source.Op.construct [v]) fun _ s' => s' = ⟨pc + k.length + 1, ρ₁⟩ := by
    refine .next hcode.right.head ?_
    simp [Ir.machine, Instr.exec, invoke, receiver, hv.read, Operand.readAll, Ir.Op.plain]
  refine hinit.bind ?_
  rintro _ _ rfl
  exact .pure ⟨by simp [Nat.add_assoc], hsame, hv⟩

/-- **Theorem.** Lowered expressions compute their value. -/
theorem realized (hsc : sc.Apart) (e : Expr) : Realized sc W types mk e := by
  induction e using Expr.induction with
  | int n v =>
    intro code pc env ρ c c' o piece h _ _
    obtain ⟨rfl, rfl, rfl⟩ := lowers_int.1 h
    rw [eval]
    exact .pure ⟨rfl, .refl _ _, Operand.holds_literal⟩
  | bool n v =>
    intro code pc env ρ c c' o piece h _ _
    obtain ⟨rfl, rfl, rfl⟩ := lowers_bool.1 h
    rw [eval]
    exact .pure ⟨rfl, .refl _ _, Operand.holds_literal⟩
  | this n =>
    intro code pc env ρ c c' o piece h _ hρ
    obtain ⟨rfl, rfl, rfl⟩ := lowers_this.1 h
    rw [eval, ← hρ.read this_ne_tempName]
    exact realizes_read fun k _ => this_ne_tempName k
  | var n x => exact realized_var hsc
  | not n e ih =>
    intro code pc env ρ c c' o piece h hcode hρ
    obtain ⟨a, c₁, k₁, k₂, he, hk, rfl⟩ := lowers_not.1 h
    rw [eval]
    exact ih.unary he hk hcode hρ fun ha => by simp [Instr.compute, ha]
  | binary n op l r ihl ihr =>
    intro code pc env ρ c c' o piece h hcode hρ
    obtain ⟨ty, a, c₁, k₁, b, c₂, k₂, k₃, -, hl, hr, hk, rfl⟩ := lowers_binary.1 h
    rw [eval]
    exact ihl.binary ihr hl hr hk hcode hρ fun ha hb => by simp [Instr.compute, ha, hb]
  | call n r m args ihr ihargs => exact realized_call ihr ihargs
  | newObject n cl => exact realized_newObject
  | newArray n e ih =>
    intro code pc env ρ c c' o piece h hcode hρ
    obtain ⟨ty, a, c₁, k₁, k₂, -, he, hk, rfl⟩ := lowers_newArray.1 h
    rw [eval]
    exact ih.unary he hk hcode hρ fun ha => by simp [Instr.compute, ha, Ir.Op.plain]
  | length n a ih =>
    intro code pc env ρ c c' o piece h hcode hρ
    obtain ⟨b, c₁, k₁, k₂, ha, hk, rfl⟩ := lowers_length.1 h
    rw [eval]
    exact ih.unary ha hk hcode hρ fun hb => by simp [Instr.compute, hb, Ir.Op.plain]
  | index n a i iha ihi =>
    intro code pc env ρ c c' o piece h hcode hρ
    obtain ⟨ty, x, t, p, c₁, k₁, j, c₂, k₂, k₃, -, ha, hi, hk, rfl⟩ := lowers_index.1 h
    rw [eval]
    refine iha.binary ihi ha hi hk hcode hρ fun {ρ' v w} hx hj => ?_
    have hbase : ρ'.read x = pure v := hx
    simp [Instr.compute, Operand.read, hbase, hj, Ir.Op.plain]
  | paren n e ih =>
    intro code pc env ρ c c' o piece h hcode hρ
    rw [eval]
    exact ih (lowers_paren.1 h) hcode hρ

/-- An expression for its effects. -/
theorem LowersEffect.realizes {e : Expr} (hsc : sc.Apart)
    (h : LowersEffect sc types e c c' piece) (hcode : CodeAt code pc piece)
    (hρ : Env.SameBelow 0 env ρ) :
    (lowMachine W).Realizes code ⟨pc, ρ⟩ (e.eval sc W env)
      fun _ s => s.pc = pc + piece.length ∧ Env.SameBelow 0 env s.data := by
  have hvalue : ∀ {e : Expr}, e.IsPlain → LowersEffect sc types e c c' piece →
      (lowMachine W).Realizes code ⟨pc, ρ⟩ (e.eval sc W env)
        fun _ s => s.pc = pc + piece.length ∧ Env.SameBelow 0 env s.data := by
    intro e he h
    obtain ⟨o, ho⟩ := (lowersEffect_plain he).1 h
    refine (realized hsc e ho hcode hρ).mono ?_
    rintro v s ⟨hpc, hsame, -⟩
    exact ⟨hpc, hρ.trans (hsame.mono (Nat.zero_le _))⟩
  induction e using Expr.induction with
  | paren n e ih =>
    rw [eval]
    exact ih (lowersEffect_paren.1 h)
  | call n r m args =>
    obtain ⟨as, c₁, k₁, t, k₂, has, ht, rfl⟩ := lowersEffect_call.1 h
    rw [← List.append_assoc] at hcode
    refine realizes_call ((types.get? n.id).getD .void) (realized hsc r)
      (fun a _ => realized hsc a) has ht hcode.left hρ fun ρ' x hsame hcall => ?_
    have hnext : (lowMachine W).Realizes code ⟨pc + (k₁ ++ k₂).length, ρ'⟩ x
        fun _ s' => s' = ⟨pc + (k₁ ++ k₂).length + 1, ρ'⟩ := by
      refine .next hcode.right.head ?_
      simp only [Ir.machine, callInstr, Instr.exec]
      rw [hcall _ _ rfl]
    refine hnext.mono ?_
    rintro v _ rfl
    exact ⟨by simp [Nat.add_assoc], hρ.trans (hsame.mono (Nat.zero_le _))⟩
  | _ => exact hvalue (by simp [IsPlain]) h

end Expr

end

end MiniJava
