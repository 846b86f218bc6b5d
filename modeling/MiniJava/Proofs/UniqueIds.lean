import MiniJava.Proofs.Annotation.Recorded

/-!
# The check for unique ids is exact

**Theorem** (`uniqueIds_exact`). The search for an id that occurs twice ends after at most one round
for each expression of the program. Its answer is yes exactly if no two places of the program hold
expressions with the same id.

**Places.** An expression stands at the end of a path: the class, the method, the statement, and the
way from part to part. What the parts of a statement and of an expression are is said once for each
kind (`Stmt.Holds`, `Stmt.Nests`, `Expr.Part`), without the lists that the search goes through.

**From paths to lists.** `Standing.Lists` says that a list has the expression of each place once. It
goes through all levels of the tree in the same way, since the parts of a tree stand behind
different first steps (`Standing.lists_within`).
-/

namespace MiniJava

/-! ## Places -/

namespace Expr

/-- The second expression is the `k`th part of the first, counted from zero. -/
inductive Part : Expr → Nat → Expr → Prop
  | operand {n : Node} {e : Expr} : Part (.not n e) 0 e
  | left {n : Node} {op : BinOp} {l r : Expr} : Part (.binary n op l r) 0 l
  | right {n : Node} {op : BinOp} {l r : Expr} : Part (.binary n op l r) 1 r
  | receiver {n : Node} {r : Expr} {m : Located String} {args : List Expr} :
      Part (.call n r m args) 0 r
  | arg {n : Node} {r a : Expr} {m : Located String} {args : List Expr} {k : Nat} :
      args[k]? = some a → Part (.call n r m args) (k + 1) a
  | size {n : Node} {e : Expr} : Part (.newArray n e) 0 e
  | measured {n : Node} {a : Expr} : Part (.length n a) 0 a
  | array {n : Node} {a i : Expr} : Part (.index n a i) 0 a
  | index {n : Node} {a i : Expr} : Part (.index n a i) 1 i
  | inner {n : Node} {e : Expr} : Part (.paren n e) 0 e

/-- The second expression stands in the first, at the end of the path from part to part. -/
inductive At : Expr → List Nat → Expr → Prop
  | self {e : Expr} : At e [] e
  | part {e c d : Expr} {k : Nat} {path : List Nat} : e.Part k c → c.At path d → e.At (k :: path) d

end Expr

namespace Stmt

/-- The expression is the `k`th part of the statement, counted from zero. -/
inductive Holds : Stmt → Nat → Expr → Prop
  | thenCond {s : Span} {c : Expr} {t : Stmt} : Holds (.ifThen s c t) 0 c
  | elseCond {s : Span} {c : Expr} {t e : Stmt} : Holds (.ifElse s c t e) 0 c
  | loopCond {s : Span} {c : Expr} {b : Stmt} : Holds (.whileLoop s c b) 0 c
  | effect {s : Span} {e : Expr} : Holds (.expr s e) 0 e
  | assigned {s : Span} {x : Located String} {v : Expr} : Holds (.assign s x v) 0 v
  | index {s : Span} {x : Located String} {i v : Expr} : Holds (.arrayAssign s x i v) 0 i
  | item {s : Span} {x : Located String} {i v : Expr} : Holds (.arrayAssign s x i v) 1 v
  | returned {s : Span} {v : Expr} : Holds (.ret s (some v)) 0 v

/-- The second statement is the `k`th part of the first. -/
inductive Nests : Stmt → Nat → Stmt → Prop
  | block {s : Span} {body : List Stmt} {k : Nat} {t : Stmt} :
    body[k]? = some t → Nests (.block s body) k t
  | onlyBranch {s : Span} {c : Expr} {t : Stmt} : Nests (.ifThen s c t) 1 t
  | thenBranch {s : Span} {c : Expr} {t e : Stmt} : Nests (.ifElse s c t e) 1 t
  | elseBranch {s : Span} {c : Expr} {t e : Stmt} : Nests (.ifElse s c t e) 2 e
  | loopBody {s : Span} {c : Expr} {b : Stmt} : Nests (.whileLoop s c b) 1 b

/-- The expression stands in the statement, at the end of the path. -/
inductive At : Stmt → List Nat → Expr → Prop
  | expr {s : Stmt} {e d : Expr} {k : Nat} {path : List Nat} :
      s.Holds k e → e.At path d → s.At (k :: path) d
  | stmt {s t : Stmt} {d : Expr} {k : Nat} {path : List Nat} :
      s.Nests k t → t.At path d → s.At (k :: path) d

end Stmt

/-- The expression stands in a method body, at the end of the path from the class to the method, the
statement and on. -/
inductive Program.At (p : Program) : List Nat → Expr → Prop
  | intro {i j k : Nat} {c : ClassDecl} {m : MethodDecl} {s : Stmt} {path : List Nat} {d : Expr} :
      p.classes[i]? = some c → c.methods[j]? = some m → m.body[k]? = some s → s.At path d →
      p.At (i :: j :: k :: path) d

/-! ## Places and lists -/

/-- Which expressions stand at the end of which paths. -/
abbrev Standing := List Nat → Expr → Prop

namespace Standing

/-- The list has the expression of each place once. -/
def Lists (A : Standing) (es : List Expr) : Prop :=
  ∃ spots : List (List Nat × Expr), (spots.map Prod.fst).Nodup ∧ spots.map Prod.snd = es ∧
    ∀ path d, A path d ↔ (path, d) ∈ spots

/-- What stands in one of the parts, which are numbered from `n` on. -/
def within : Nat → List Standing → Standing
  | _, [] => fun _ _ => False
  | n, A :: parts => fun path d => (∃ rest, path = n :: rest ∧ A rest d) ∨
      within (n + 1) parts path d

variable {A B : Standing} {es : List Expr} {n : Nat} {parts : List Standing}
  {path : List Nat} {d : Expr}

theorem within_iff : within n parts path d ↔
    ∃ k A rest, parts[k]? = some A ∧ path = (n + k) :: rest ∧ A rest d := by
  induction parts generalizing n with
  | nil => simp [within]
  | cons A parts ih =>
    show (∃ rest, path = n :: rest ∧ A rest d) ∨ within (n + 1) parts path d ↔ _
    rw [ih]
    constructor
    · rintro (⟨rest, rfl, h⟩ | ⟨k, B, rest, hk, rfl, h⟩)
      · exact ⟨0, A, rest, rfl, rfl, h⟩
      · exact ⟨k + 1, B, rest, hk, by rw [Nat.add_right_comm, Nat.add_assoc], h⟩
    · rintro ⟨k | k, B, rest, hk, rfl, h⟩
      · cases hk
        exact .inl ⟨rest, rfl, h⟩
      · exact .inr ⟨k, B, rest, hk, by rw [Nat.add_right_comm, Nat.add_assoc], h⟩

theorem within_map_iff {α : Type} {xs : List α} {A : α → Standing} : within 0 (xs.map A) path d ↔
    ∃ k x rest, xs[k]? = some x ∧ path = k :: rest ∧ A x rest d := by
  simp only [within_iff, List.getElem?_map, Option.map_eq_some_iff, Nat.zero_add]
  constructor
  · rintro ⟨k, _, rest, ⟨x, hx, rfl⟩, hpath, h⟩
    exact ⟨k, x, rest, hx, hpath, h⟩
  · rintro ⟨k, x, rest, hx, hpath, h⟩
    exact ⟨k, A x, rest, ⟨x, hx, rfl⟩, hpath, h⟩

theorem Lists.congr (h : B.Lists es) (hiff : ∀ path d, A path d ↔ B path d) : A.Lists es := by
  obtain ⟨spots, hnodup, hes, hmem⟩ := h
  exact ⟨spots, hnodup, hes, fun path d => (hiff path d).trans (hmem path d)⟩

/-- What stands behind a first step has the same list. -/
theorem Lists.behind (h : A.Lists es) (n : Nat) :
    Lists (fun path d => ∃ rest, path = n :: rest ∧ A rest d) es := by
  obtain ⟨spots, hnodup, rfl, hmem⟩ := h
  refine ⟨spots.map fun q => (n :: q.1, q.2), ?_, ?_, fun path d => ?_⟩
  · have hfst : (spots.map fun q => (n :: q.1, q.2)).map Prod.fst =
        (spots.map Prod.fst).map (n :: ·) := by
      rw [List.map_map, List.map_map]
      rfl
    rw [hfst]
    exact hnodup.map (List.cons_injective)
  · rw [List.map_map]
    rfl
  · simp only [List.mem_map, Prod.mk.injEq, Prod.exists, hmem]
    constructor
    · rintro ⟨rest, rfl, h⟩
      exact ⟨rest, d, h, rfl, rfl⟩
    · rintro ⟨rest, _, h, rfl, rfl⟩
      exact ⟨rest, rfl, h⟩

/-- Where no path belongs to both, the lists are put together. -/
theorem Lists.or {fs : List Expr} (hA : A.Lists es) (hB : B.Lists fs)
    (hapart : ∀ path d d', A path d → ¬B path d') :
    Lists (fun path d => A path d ∨ B path d) (es ++ fs) := by
  obtain ⟨spots, hnodup, rfl, hmem⟩ := hA
  obtain ⟨spots', hnodup', rfl, hmem'⟩ := hB
  refine ⟨spots ++ spots', ?_, List.map_append, fun path d => ?_⟩
  · rw [List.map_append, List.nodup_append]
    refine ⟨hnodup, hnodup', fun path hpath path' hpath' heq => ?_⟩
    obtain ⟨⟨_, d⟩, hd, rfl⟩ := List.mem_map.1 hpath
    obtain ⟨⟨_, d'⟩, hd', rfl⟩ := List.mem_map.1 hpath'
    cases heq
    exact hapart _ d d' ((hmem _ _).2 hd) ((hmem' _ _).2 hd')
  · rw [List.mem_append, ← hmem, ← hmem']

/-- The list of the whole is made of the lists of its parts. -/
theorem lists_within {ess : List (List Expr)} (h : List.Forall₂ Lists parts ess) (n : Nat) :
    (within n parts).Lists ess.flatten := by
  induction h generalizing n with
  | nil => exact ⟨[], .nil, rfl, fun _ _ => by simp [within]⟩
  | cons hA _ ih =>
    refine (hA.behind n).or (ih (n + 1)) ?_
    rintro _ d d' ⟨rest, rfl, -⟩ hrest
    obtain ⟨k, B, rest', -, heq, -⟩ := within_iff.1 hrest
    have hn : n = n + 1 + k := (List.cons.inj heq).1
    omega

theorem lists_within_map {α : Type} {xs : List α} {A : α → Standing} {f : α → List Expr}
    (h : ∀ x ∈ xs, (A x).Lists (f x)) : (within 0 (xs.map A)).Lists (xs.flatMap f) := by
  rw [List.flatMap_def]
  refine lists_within ?_ 0
  rw [List.forall₂_map_left_iff, List.forall₂_map_right_iff, List.forall₂_same]
  exact h

/-- The ids in the list are different exactly if those at different places are. -/
theorem Lists.nodup_iff (h : A.Lists es) : (es.map Expr.id).Nodup ↔
    ∀ path path' d d', A path d → A path' d' → path ≠ path' → d.id ≠ d'.id := by
  obtain ⟨spots, hnodup, rfl, hmem⟩ := h
  have hspots : spots.Nodup := .of_map Prod.fst hnodup
  simp only [List.map_map, List.nodup_map_iff_inj_on hspots, hmem]
  constructor
  · intro hinj path path' d d' hd hd' hne hid
    exact hne (congrArg Prod.fst (hinj _ hd _ hd' hid))
  · rintro hids ⟨path, d⟩ hd ⟨path', d'⟩ hd' hid
    by_contra hne
    refine hids path path' d d' hd hd' (fun heq => hne ?_) hid
    exact List.inj_on_of_nodup_map hnodup hd hd' heq

end Standing

open Standing (within lists_within lists_within_map)

namespace Expr

theorem part_iff {e c : Expr} {k : Nat} : e.Part k c ↔ e.children[k]? = some c := by
  constructor
  · intro h
    cases h with
    | arg ha => exact ha
    | operand | left | right | receiver | size | measured | array | index | inner => rfl
  · intro h
    -- The receiver of a call comes before its arguments, at place 0.
    cases e with
    | int | bool | var | this | newObject => cases h
    | not | newArray | length | paren =>
      obtain _ | k := k
      · cases h
        constructor
      · cases h
    | binary | index =>
      obtain _ | _ | k := k
      · cases h
        constructor
      · cases h
        constructor
      · cases h
    | call n r m args =>
      obtain _ | k := k
      · cases h
        exact .receiver
      · exact .arg h

/-- An expression stands in itself, and what stands in its parts stands in it. -/
theorem at_iff {e d : Expr} {path : List Nat} :
    e.At path d ↔ (path = [] ∧ d = e) ∨ within 0 (e.children.map At) path d := by
  simp only [Standing.within_map_iff, ← part_iff]
  constructor
  · rintro (_ | ⟨hpart, h⟩)
    · exact .inl ⟨rfl, rfl⟩
    · exact .inr ⟨_, _, _, hpart, rfl, h⟩
  · rintro (⟨rfl, rfl⟩ | ⟨k, c, rest, hpart, rfl, h⟩)
    · exact .self
    · exact .part hpart h

theorem lists_at (e : Expr) : Standing.Lists e.At e.subtree := by
  induction e using Expr.induction_children with
  | step e ih =>
    have hself : Standing.Lists (fun path d => path = [] ∧ d = e) [e] :=
      ⟨[([], e)], List.nodup_singleton _, rfl, fun _ _ => by simp⟩
    rw [subtree_eq_cons]
    refine (hself.or (lists_within_map ih) ?_).congr fun _ _ => at_iff
    rintro _ d d' ⟨rfl, -⟩ hpart
    obtain ⟨k, c, rest, -, hpath, -⟩ := Standing.within_map_iff.1 hpart
    cases hpath

end Expr

namespace Stmt

/-- What stands in the parts of the statement, in order. -/
def parts : Stmt → List Standing
  | varDecl .. => []
  | block _ body => body.map At
  | ifThen _ c t => [c.At, t.At]
  | ifElse _ c t e => [c.At, t.At, e.At]
  | whileLoop _ c b => [c.At, b.At]
  | expr _ e => [e.At]
  | assign _ _ v => [v.At]
  | arrayAssign _ _ i v => [i.At, v.At]
  | ret _ v => v.toList.map Expr.At

theorem at_iff {s : Stmt} {path : List Nat} {d : Expr} : s.At path d ↔ within 0 s.parts path d := by
  rw [Standing.within_iff]
  constructor
  · intro h
    cases h with
    | expr hk h => cases hk <;> exact ⟨_, _, _, rfl, by rw [Nat.zero_add], h⟩
    | stmt hk h =>
      cases hk with
      | block hk =>
        exact ⟨_, At _, _, by rw [parts, List.getElem?_map, hk]; rfl, by rw [Nat.zero_add], h⟩
      | onlyBranch | thenBranch | elseBranch | loopBody =>
        exact ⟨_, _, _, rfl, by rw [Nat.zero_add], h⟩
  -- Backwards by the statement: each has a fixed number of parts, but for blocks.
  · rintro ⟨k, A, rest, hk, rfl, h⟩
    rw [Nat.zero_add]
    cases s with
    | varDecl => cases hk
    | block s body =>
      rw [parts, List.getElem?_map, Option.map_eq_some_iff] at hk
      obtain ⟨t, ht, rfl⟩ := hk
      exact .stmt (.block ht) h
    | ifThen s c t =>
      obtain _ | _ | k := k <;> cases hk
      · exact .expr .thenCond h
      · exact .stmt .onlyBranch h
    | ifElse s c t e =>
      obtain _ | _ | _ | k := k <;> cases hk
      · exact .expr .elseCond h
      · exact .stmt .thenBranch h
      · exact .stmt .elseBranch h
    | whileLoop s c b =>
      obtain _ | _ | k := k <;> cases hk
      · exact .expr .loopCond h
      · exact .stmt .loopBody h
    | expr s e =>
      obtain _ | k := k <;> cases hk
      exact .expr .effect h
    | assign s x v =>
      obtain _ | k := k <;> cases hk
      exact .expr .assigned h
    | arrayAssign s x i v =>
      obtain _ | _ | k := k <;> cases hk
      · exact .expr .index h
      · exact .expr .item h
    | ret s v =>
      obtain _ | v := v
      · cases hk
      · obtain _ | k := k <;> cases hk
        exact .expr .returned h

theorem lists_at_of_parts (s : Stmt) {ess : List (List Expr)}
    (h : List.Forall₂ Standing.Lists s.parts ess) :
    Standing.Lists s.At ess.flatten :=
  (lists_within h 0).congr fun _ _ => at_iff

theorem lists_at (s : Stmt) : Standing.Lists s.At (s.roots.flatMap Expr.subtree) := by
  induction s using Stmt.induction with
  | varDecl s x => exact (Stmt.varDecl s x).lists_at_of_parts .nil
  | block s body ih =>
    rw [roots, rootsAll_eq_flatMap, List.flatMap_assoc]
    exact (lists_within_map ih).congr fun _ _ => at_iff
  | ifThen s c t ih =>
    have hparts := (Stmt.ifThen s c t).lists_at_of_parts (.cons c.lists_at (.cons ih .nil))
    simpa [roots] using hparts
  | ifElse s c t e iht ihe =>
    have hparts :=
      (Stmt.ifElse s c t e).lists_at_of_parts (.cons c.lists_at (.cons iht (.cons ihe .nil)))
    simpa [roots] using hparts
  | whileLoop s c b ih =>
    have hparts := (Stmt.whileLoop s c b).lists_at_of_parts (.cons c.lists_at (.cons ih .nil))
    simpa [roots] using hparts
  | expr s e =>
    have hparts := (Stmt.expr s e).lists_at_of_parts (.cons e.lists_at .nil)
    simpa [roots] using hparts
  | assign s x v =>
    have hparts := (Stmt.assign s x v).lists_at_of_parts (.cons v.lists_at .nil)
    simpa [roots] using hparts
  | arrayAssign s x i v =>
    have hparts :=
      (Stmt.arrayAssign s x i v).lists_at_of_parts (.cons i.lists_at (.cons v.lists_at .nil))
    simpa [roots] using hparts
  | ret s v => exact (lists_within_map fun e _ => e.lists_at).congr fun _ _ => at_iff

end Stmt

namespace Program

variable {p : Program}

theorem at_iff {path : List Nat} {d : Expr} : p.At path d ↔
    within 0 (p.classes.map fun c =>
      within 0 (c.methods.map fun m => within 0 (m.body.map Stmt.At)))
      path d := by
  simp only [Standing.within_map_iff]
  constructor
  · rintro ⟨hc, hm, hs, h⟩
    exact ⟨_, _, _, hc, rfl, _, _, _, hm, rfl, _, _, _, hs, rfl, h⟩
  · rintro ⟨i, c, _, hc, rfl, j, m, _, hm, rfl, k, s, rest, hs, rfl, h⟩
    exact .intro hc hm hs h

/-- The expressions of a program are those at its places. -/
theorem lists_at (p : Program) : Standing.Lists p.At p.exprs := by
  simp only [exprs, statements, List.flatMap_assoc]
  refine Standing.Lists.congr ?_ fun _ _ => at_iff
  exact lists_within_map fun c _ => lists_within_map fun m _ =>
    lists_within_map fun s _ => s.lists_at

end Program

/-! ## The search -/

namespace Expr

/-- The search with these expressions on its stack and these ids seen ends after so many rounds with
the answer. Each round takes the expression on top. -/
inductive SearchEnds : List Expr → List Nat → Nat → Bool → Prop
  | nothingLeft {seen : List Nat} : SearchEnds [] seen 0 true
  | seenBefore {e : Expr} {rest : List Expr} {seen : List Nat} : e.id ∈ seen →
      SearchEnds (e :: rest) seen 1 false
  | goesOn {e : Expr} {rest : List Expr} {seen : List Nat} {n : Nat} {answer : Bool} : e.id ∉ seen →
      SearchEnds (e.children.reverse ++ rest) (e.id :: seen) n answer →
      SearchEnds (e :: rest) seen (n + 1) answer

theorem length_ids_cons (e : Expr) (rest : List Expr) :
    (ids (e :: rest)).length = (ids (e.children.reverse ++ rest)).length + 1 := by
  rw [ids_cons, List.length_cons, (ids_perm ((List.reverse_perm _).append_right rest)).length_eq]

/-- The search ends in one way, with a round for each expression at most. -/
theorem searchEnds_iff (pending : List Expr) (seen : List Nat) :
    ∃ rounds ≤ (ids pending).length, ∀ n answer, SearchEnds pending seen n answer ↔
      n = rounds ∧ answer = uniqueIds pending seen := by
  -- Along the search itself: nothing is left, an id was seen before, or the parts of the expression
  -- are put before the rest.
  fun_induction uniqueIds pending seen with
  | case1 seen =>
    refine ⟨0, Nat.zero_le _, fun n answer => ⟨?_, ?_⟩⟩
    · rintro ⟨⟩
      exact ⟨rfl, rfl⟩
    · rintro ⟨rfl, rfl⟩
      exact .nothingLeft
  | case2 seen e rest hseen =>
    rw [List.contains_iff_mem] at hseen
    refine ⟨1, by rw [length_ids_cons]; omega, fun n answer => ⟨?_, ?_⟩⟩
    · rintro (_ | _ | ⟨hnew, -⟩)
      · exact ⟨rfl, rfl⟩
      · exact absurd hseen hnew
    · rintro ⟨rfl, rfl⟩
      exact .seenBefore hseen
  | case3 seen e rest hseen ih =>
    rw [List.contains_iff_mem] at hseen
    obtain ⟨rounds, hle, hends⟩ := ih
    refine ⟨rounds + 1, by rw [length_ids_cons]; omega, fun n answer => ⟨?_, ?_⟩⟩
    · rintro (_ | hold | ⟨-, h⟩)
      · exact absurd hold hseen
      · obtain ⟨rfl, rfl⟩ := (hends _ _).1 h
        exact ⟨rfl, rfl⟩
    · rintro ⟨rfl, rfl⟩
      exact .goesOn hseen ((hends _ _).2 ⟨rfl, rfl⟩)

end Expr

/-- **The check for unique ids is exact.** The search of a program ends, in one way only, after at
most as many rounds as the program has expressions, and its answer is the one of the check. It is
yes exactly if expressions at different places of the program have different ids. -/
theorem uniqueIds_exact (p : Program) :
    (∃ rounds ≤ p.exprs.length, ∀ n answer,
      Expr.SearchEnds (p.statements.flatMap Stmt.roots).reverse [] n answer ↔
        n = rounds ∧ answer = p.uniqueIds) ∧
    (p.uniqueIds = true ↔
      ∀ path path' d d', p.At path d → p.At path' d' → path ≠ path' → d.id ≠ d'.id) := by
  refine ⟨?_, ?_⟩
  · obtain ⟨rounds, hle, hends⟩ := Expr.searchEnds_iff (p.statements.flatMap Stmt.roots).reverse []
    rw [(Expr.ids_perm (List.reverse_perm _)).length_eq, Expr.ids, List.length_map] at hle
    exact ⟨rounds, hle, hends⟩
  · rw [Program.uniqueIds_iff_nodup, ← p.lists_at.nodup_iff]
    rfl

end MiniJava
