import MiniJava.Proofs.Modular.Lowering

/-!
# Classes are compiled on their own

One pair of counters runs through all classes of a program, so the code of a class depends on what
was lowered before it. But only the names of temporaries and labels come from the counters.
Temporaries end up as registers, which are given out anew in each method, so what is left of the
counters in the assembly are the numbers of labels.

**Theorem** (`classes_modular`). Let no parameter or local of a class be named as a temporary.
Lowered from any two pairs of counters, the class stops at the same fault, or its assembly is the
same but for the numbers of the labels of branches and loops, which are counted from another start.
So a class has the same assembly in a program and alone, up to the labels that the classes before it
have taken.
-/

namespace MiniJava

open Ir Assembly

/-- The text of a class, made by a new emitter that counts in words. -/
def Ir.ClassUnit.assembly (u : ClassUnit) (limits : Limits) : Except EmitError String :=
  (Emitter.build (κ := UInt32) { unit := u, limits }).result

/-- Both classes have the same text but for the numbers of labels, which are counted from `l'`
instead of `l`, or none has a text, for faults of the same kind. -/
def Ir.ClassUnit.SameUpToLabels (l l' : UInt32) (u u' : ClassUnit) : Prop :=
  ∀ limits, ResultsAlike SameKind
    (fun text text' => text = (u.relabelledText UInt32 limits fun label => label) ∧
      text' = u.relabelledText UInt32 limits (shiftLabel l l'))
    (u.assembly limits) (u'.assembly limits)

/-- Two classes that are the same code from a common start have the same text up to their labels. -/
theorem Ir.ClassUnit.Named.sameUpToLabels {u₀ u u' : ClassUnit} {l l' : UInt32}
    (hu : u₀.Named (shiftLabel 0 l) u) (hu' : u₀.Named (shiftLabel 0 l') u')
    (hfresh : ∀ m ∈ u₀.methods, m.frozen = none) : u.SameUpToLabels l l' u' := by
  intro limits
  have hlabels := fixesComparisons_shiftLabel 0
  have htext : (u.relabelledText UInt32 limits fun label => label) =
      u₀.relabelledText UInt32 limits fun label => shiftLabel 0 l label :=
    hu.relabelledText (hlabels l) hfresh limits fun label => label
  -- Both units are compared with the one whose labels start at zero: from there to `l`, and on to
  -- `l'`.
  have hmoved : (fun label => shiftLabel l l' (shiftLabel 0 l label)) = shiftLabel 0 l' :=
    funext (shiftLabel_shiftLabel l l')
  have htext' : u.relabelledText UInt32 limits (shiftLabel l l') =
      u₀.relabelledText UInt32 limits (shiftLabel 0 l') := by
    rw [hu.relabelledText (hlabels l) hfresh limits, hmoved]
  have hbuild : ResultsAlike SameKind _ (u₀.assembly limits) (u.assembly limits) :=
    hu.build (hlabels l) hfresh limits
  have hbuild' : ResultsAlike SameKind _ (u₀.assembly limits) (u'.assembly limits) :=
    hu'.build (hlabels l') hfresh limits
  generalize u₀.assembly limits = r₀, u.assembly limits = r,
    u'.assembly limits = r' at hbuild hbuild' ⊢
  cases hbuild with
  | ok hold => cases hbuild' with
    | ok hnew => exact .ok ⟨hold.2.trans htext.symm, hnew.2.trans htext'.symm⟩
  | error he => cases hbuild' with
    | error he' => exact .error (he'.trans he.symm)

section

variable {table : SymbolTable} {types : TypeMap} {d : ClassDecl}

/-- A class lowered from two pairs of counters. -/
theorem ClassDecl.lower_sameUpToLabels
    (hd : ∀ cls, table.class? d.name.node = some cls → cls.Apart) (imports : List String)
    (c c' : Counters UInt32) :
    ResultsAlike Eq (ClassUnit.SameUpToLabels c.labels c'.labels)
      ((d.lower table types imports).run c).result
      ((d.lower table types imports).run c').result := by
  -- Both runs are compared with the one that starts at zero.
  have hstart : ∀ k : Counters UInt32, Counters.shift {} k = k := by
    intro k
    show Counters.mk (0 + k.temps) (0 + k.labels) = k
    rw [UInt32.zero_add, UInt32.zero_add]
  have hrun := ClassDecl.lower_shifted types hd imports {} c
  have hrun' := ClassDecl.lower_shifted types hd imports {} c'
  rw [hstart] at hrun hrun'
  generalize ((d.lower table types imports).run ({} : Counters UInt32)).result = r₀,
    ((d.lower table types imports).run c).result = r,
    ((d.lower table types imports).run c').result = r' at hrun hrun' ⊢
  cases hrun with
  | ok hu => cases hrun' with
    | ok hu' => exact .ok (hu.1.sameUpToLabels hu'.1 hu.2)
  | error he => cases hrun' with
    | error he' => exact .error (he.symm.trans he')

/-- A class in a program starts from the counters that the classes before it have led to. -/
theorem Program.lower_class {κ : Type} [Counting κ] {c : Counters κ} {p : Program}
    {before after : List ClassDecl} (hp : p.classes = before ++ d :: after) {units : List ClassUnit}
    (hunits : ((p.lower table types).run c).result = .ok units) :
    ∃ u, units[before.length]? = some u ∧
      ((d.lower table types (p.imports.map (·.node))).run
        ((({ p with classes := before } : Program).lower table types).run c).state).result =
          .ok u := by
  obtain ⟨c', events, hrun⟩ := Stage.run_of_result hunits
  unfold Program.lower at hrun ⊢
  rw [ClassDecl.lowerAll_eq_mapM'] at hrun ⊢
  rw [hp] at hrun
  obtain ⟨first, u, rest, c₁, out₁, c₂, out₂, hfirst, hu, rfl, hlength⟩ :=
    Stage.mapM'_append_cons_ok hrun
  refine ⟨u, ?_, ?_⟩
  · rw [← hlength, List.getElem?_append_right (Nat.le_refl _), Nat.sub_self]
    rfl
  · rw [hfirst, hu]

/-- A program of one class is lowered like its class. -/
theorem Program.lower_single {κ : Type} [Counting κ] {c : Counters κ} {p : Program} {u : ClassUnit}
    (hu : ((d.lower table types (p.imports.map (·.node))).run c).result = .ok u) :
    ((({ p with classes := [d] } : Program).lower table types).run c).result = .ok [u] := by
  obtain ⟨c', events, hrun⟩ := Stage.run_of_result hu
  unfold Program.lower
  rw [ClassDecl.lowerAll, ClassDecl.lowerAll, Stage.bind_run_ok hrun]
  rfl

end

/-- The class is lowered alike from all counters, and its assembly is the same up to a shift of the
numbers of its labels. In a program it has the assembly that it has alone, shifted by the number of
labels in the classes before it. All counters are words, and so are the shifts: behind the last word
they come to zero again. -/
theorem classes_modular (table : SymbolTable) (types : TypeMap) (d : ClassDecl)
    (hd : ∀ cls, table.class? d.name.node = some cls → cls.Apart) :
    (∀ (imports : List String) (c c' : Counters UInt32),
      ResultsAlike Eq (ClassUnit.SameUpToLabels c.labels c'.labels)
        ((d.lower table types imports).run c).result
        ((d.lower table types imports).run c').result) ∧
    ∀ (p : Program) (before after : List ClassDecl), p.classes = before ++ d :: after →
      ∀ (c : Counters UInt32) units, ((p.lower table types).run c).result = .ok units →
        ∃ u alone, units[before.length]? = some u ∧
          ((({ p with classes := [d] } : Program).lower table types).run c).result = .ok [alone] ∧
          alone.SameUpToLabels c.labels
            ((({ p with classes := before } : Program).lower table types).run c).state.labels
            u := by
  refine ⟨ClassDecl.lower_sameUpToLabels hd, ?_⟩
  intro p before after hp c units hunits
  obtain ⟨u, hu, hresult⟩ := Program.lower_class hp hunits
  -- In the program the class starts from the counters that the classes before it left behind.
  have hboth : ResultsAlike Eq (ClassUnit.SameUpToLabels c.labels _)
      ((d.lower table types (p.imports.map (·.node))).run c).result
      ((d.lower table types (p.imports.map (·.node))).run
        ((({ p with classes := before } : Program).lower table types).run c).state).result :=
    ClassDecl.lower_sameUpToLabels hd _ c _
  rw [hresult] at hboth
  generalize hr : ((d.lower table types (p.imports.map (·.node))).run c).result = r at hboth
  cases hboth with
  | ok hsame => exact ⟨u, _, hu, Program.lower_single hr, hsame⟩

namespace Mill

/-- `int lift(int n) { if (n < 1) n = 1; return n; }` in a class `Gate`. -/
def gate : ClassDecl where
  name := { node := "Gate" }
  methods := [{
    name := { node := "lift" }
    returnTy := { node := .int }
    params := [{ name := { node := "n" }, ty := { node := .int } }]
    body := [
      .ifThen .unknown (.binary { id := 1 } .lt (.var { id := 2 } "n") (.int { id := 3 } 1))
        (.assign .unknown { node := "n" } (.int { id := 4 } 1)),
      .ret .unknown (some (.var { id := 5 } "n"))] }]

/-- `int turn(int n) { while (n < 5) n = n + 1; return n; }` in a class `Mill`. -/
def decl : ClassDecl where
  name := { node := "Mill" }
  methods := [{
    name := { node := "turn" }
    returnTy := { node := .int }
    params := [{ name := { node := "n" }, ty := { node := .int } }]
    body := [
      .whileLoop .unknown (.binary { id := 6 } .lt (.var { id := 7 } "n") (.int { id := 8 } 5))
        (.assign .unknown { node := "n" }
          (.binary { id := 9 } .add (.var { id := 10 } "n") (.int { id := 11 } 1))),
      .ret .unknown (some (.var { id := 12 } "n"))] }]

def program : Program where
  classes := [gate, decl]

def table : SymbolTable := .ofProgram program

def types : TypeMap := (program.annotate table).types

theorem apart : ∀ cls, table.class? decl.name.node = some cls → cls.Apart := by
  intro cls hcls
  have hfound : table.class? decl.name.node = some decl.symbols := by rfl
  rw [hfound] at hcls
  cases hcls
  intro m hm v hv
  have hname : v.name = "n" := by
    obtain rfl := List.mem_singleton.1 hm
    obtain rfl := List.mem_singleton.1 hv
    rfl
  rw [hname]
  exact Lower.ne_tempName (by decide)

/-- The loop of the second class stands behind the one branch of the first, and the counter starts
at the last word. -/
theorem mill_modular : (∀ cls, table.class? decl.name.node = some cls → cls.Apart) ∧
    ∃ units u alone,
      ((program.lower table types).run { temps := 0, labels := (4294967295 : UInt32) }).result =
        .ok units ∧ units[1]? = some u ∧
      ((({ classes := [decl] } : Program).lower table types).run
        { temps := 0, labels := (4294967295 : UInt32) }).result = .ok [alone] ∧
      alone.SameUpToLabels 4294967295 0 u := by
  generalize hc : ({ temps := 0, labels := 4294967295 } : Counters UInt32) = c
  have hlow : ∃ units, ((program.lower table types).run c).result = .ok units := by
    subst hc
    exact ⟨_, rfl⟩
  obtain ⟨units, hunits⟩ := hlow
  obtain ⟨u, alone, hu, halone, hsame⟩ :=
    (classes_modular table types decl apart).2 program [gate] [] rfl c units hunits
  have hlabels :
      ((({ classes := [gate] } : Program).lower table types).run c).state.labels = 0 := by
    subst hc
    rfl
  have hstart : c.labels = 4294967295 := hc ▸ rfl
  exact ⟨apart, units, u, alone, hunits, hu, halone, hstart ▸ hlabels ▸ hsame⟩

end Mill

end MiniJava
