import MiniJava.Proofs.Annotation.Places
import MiniJava.Symbols.Derived
import Mathlib.Data.List.Pairwise

/-!
# Methods are annotated on their own

One annotator goes through all classes and methods of a program, and all types end up in one map.
Still no method has to do with another. `ClassDecl.only` is the program that has a single method and
no imports.

**Theorem** (`annotation_local`). With unique ids, the types found for a program are those found for
its methods one by one, each map with the ids of its method only. The diagnostics are those of the
methods, class by class, with one error for each class that the table does not have, and after them
the warnings about imports. So what is found for a method is the same in every program that it
stands in.

The types of a program are those of its places (`Program.get?_types_iff`), and the places of a
program are the places of its methods in a row (`Program.places_eq_flatMap`).
-/

namespace MiniJava

/-! ## Single methods -/

/-- The program that has only this method of the class. -/
def ClassDecl.only (d : ClassDecl) (md : MethodDecl) : Program where
  classes := [{ d with methods := [md] }]

/-- The methods of a program in order, each with its class. -/
def Program.methods (p : Program) : List (ClassDecl × MethodDecl) :=
  p.classes.flatMap fun d => d.methods.map fun md => (d, md)

theorem Program.mem_methods {p : Program} {d : ClassDecl} {md : MethodDecl} :
    (d, md) ∈ p.methods ↔ d ∈ p.classes ∧ md ∈ d.methods := by
  simp only [methods, List.mem_flatMap, List.mem_map, Prod.mk.injEq]
  constructor
  · rintro ⟨d', hd, md', hmd, rfl, rfl⟩
    exact ⟨hd, hmd⟩
  · rintro ⟨hd, hmd⟩
    exact ⟨d, hd, md, hmd, rfl, rfl⟩

namespace ClassDecl

variable {table : SymbolTable} {d : ClassDecl} {md : MethodDecl}

theorem ids_only : Expr.ids ((d.only md).statements.flatMap Stmt.roots) = md.ids := by
  simp [Program.ids_eq_flatMap, only]

theorem uniqueIds_only {p : Program} (hids : p.uniqueIds = true) {q : ClassDecl × MethodDecl}
    (hq : q ∈ p.methods) : (q.1.only q.2).uniqueIds = true := by
  obtain ⟨hd, hmd⟩ := Program.mem_methods.1 hq
  rw [Program.uniqueIds_iff_nodup, Program.ids_eq_flatMap, List.nodup_flatMap] at hids
  rw [Program.uniqueIds_iff_nodup, ids_only]
  exact (List.nodup_flatMap.1 (hids.1 q.1 hd)).1 q.2 hmd

/-- The class is looked up by its name, and nothing else of it matters for a method. -/
theorem annotate_only_eq {d' : ClassDecl} (hname : d'.name = d.name) :
    (d'.only md).annotate table = (d.only md).annotate table := by
  have hnotes : (d'.only md).notes table = (d.only md).notes table := by
    simp [Program.notes, only, annotate, Program.unusedImports, hname]
  rw [Program.annotate, Program.annotate, hnotes]

end ClassDecl

/-! ## Types -/

/-- The map has what the parts have, and no two parts have a type for the same expression. -/
structure TypeMap.DisjointUnion (types : TypeMap) (parts : List TypeMap) : Prop where
  get? : ∀ id ty, types.get? id = some ty ↔ ∃ part ∈ parts, part.get? id = some ty
  disjoint : parts.Pairwise fun a b => ∀ id, a.get? id = none ∨ b.get? id = none

namespace Program

variable {p : Program} {table : SymbolTable}

/-- With unique ids, an expression has the type that its place gets. -/
theorem get?_types_iff (hids : p.uniqueIds = true) (id : Nat) (ty : Ty) :
    (p.annotate table).types.get? id = some ty ↔ (id, some ty) ∈ p.places table := by
  constructor
  · intro hget
    apply mem_typings_places.1
    apply (TypeMap.mem_typings_of_get?_foldl hget).resolve_left
    intro hempty
    cases hempty
  · intro hplace
    exact TypeMap.follows_ofNotes (fun _ _ => mem_typings_places)
      (map_fst_places_sublist.nodup (uniqueIds_iff_nodup.1 hids)) _ hplace

theorem mem_ids_of_get? (hids : p.uniqueIds = true) {id : Nat} {ty : Ty}
    (hget : (p.annotate table).types.get? id = some ty) :
    id ∈ Expr.ids (p.statements.flatMap Stmt.roots) :=
  map_fst_places_sublist.subset (List.mem_map_of_mem ((get?_types_iff hids id ty).1 hget))

/-- The places of a program are those of its methods. -/
theorem places_eq_flatMap :
    p.places table = p.methods.flatMap fun q => (q.1.only q.2).places table := by
  have hclass : ∀ d : ClassDecl, d.places table =
      (d.methods.map fun md => (d, md)).flatMap fun q => (q.1.only q.2).places table := by
    intro d
    rw [List.flatMap_map]
    simp only [places, ClassDecl.only, List.flatMap_cons, List.flatMap_nil, List.append_nil]
    unfold ClassDecl.places
    dsimp only
    cases table.class? d.name.node with
    | none => simp
    | some cls => simp
  rw [places, methods, List.flatMap_assoc]
  exact List.flatMap_congr fun d _ => hclass d

/-- The types of a program are those of its methods, put together. -/
theorem disjointUnion_types (hids : p.uniqueIds = true) (table : SymbolTable) :
    (p.annotate table).types.DisjointUnion
      (p.methods.map fun q => ((q.1.only q.2).annotate table).types) := by
  have honly : ∀ q ∈ p.methods, (q.1.only q.2).uniqueIds = true :=
    fun q hq => ClassDecl.uniqueIds_only hids hq
  constructor
  · intro id ty
    rw [get?_types_iff hids, places_eq_flatMap, List.mem_flatMap]
    simp only [List.mem_map, exists_exists_and_eq_and]
    apply exists_congr
    intro q
    apply and_congr_right
    intro hq
    exact (get?_types_iff (honly q hq) id ty).symm
  · -- An expression with types from two methods would have two places in the program.
    have hplaces : ((p.places table).map Prod.fst).Nodup :=
      map_fst_places_sublist.nodup (uniqueIds_iff_nodup.1 hids)
    rw [places_eq_flatMap, List.map_flatMap, List.nodup_flatMap] at hplaces
    rw [List.pairwise_map]
    refine hplaces.2.imp_of_mem ?_
    intro q r hq hr hdisjoint id
    by_contra hboth
    rw [not_or, ← ne_eq, ← ne_eq, Option.ne_none_iff_exists', Option.ne_none_iff_exists'] at hboth
    obtain ⟨⟨ty, hty⟩, ty', hty'⟩ := hboth
    have hidq : id ∈ ((q.1.only q.2).places table).map Prod.fst :=
      List.mem_map_of_mem ((get?_types_iff (honly q hq) id ty).1 hty)
    have hidr : id ∈ ((r.1.only r.2).places table).map Prod.fst :=
      List.mem_map_of_mem ((get?_types_iff (honly r hr) id ty').1 hty')
    exact hdisjoint hidq hidr

/-- No expression belongs to two methods. -/
theorem eq_of_mem_ids (hids : p.uniqueIds = true) {q r : ClassDecl × MethodDecl}
    (hq : q ∈ p.methods) (hr : r ∈ p.methods) {id : Nat} (hidq : id ∈ q.2.ids)
    (hidr : id ∈ r.2.ids) : q = r := by
  have hmethods : p.methods.flatMap (fun q => q.2.ids) =
      p.classes.flatMap fun d => d.methods.flatMap fun md => md.ids := by
    simp only [methods, List.flatMap_assoc, List.flatMap_map]
  rw [uniqueIds_iff_nodup, ids_eq_flatMap, ← hmethods, List.nodup_flatMap] at hids
  have : Std.Symm (Function.onFun List.Disjoint fun q : ClassDecl × MethodDecl => q.2.ids) :=
    ⟨fun _ _ hdisjoint => List.disjoint_symm hdisjoint⟩
  by_contra hne
  exact hids.2.forall hq hr hne hidq hidr

/-- The type of an expression is found in its own method. -/
theorem get?_types_of_mem_ids (hids : p.uniqueIds = true) {d : ClassDecl} {md : MethodDecl}
    (hmethod : (d, md) ∈ p.methods) {id : Nat} (hid : id ∈ md.ids) :
    (p.annotate table).types.get? id = ((d.only md).annotate table).types.get? id := by
  apply Option.ext
  intro ty
  rw [(disjointUnion_types hids table).get?]
  simp only [List.mem_map, exists_exists_and_eq_and]
  constructor
  · rintro ⟨q, hq, hget⟩
    have hidq : id ∈ q.2.ids := by
      rw [← ClassDecl.ids_only (d := q.1)]
      exact mem_ids_of_get? (ClassDecl.uniqueIds_only hids hq) hget
    rw [eq_of_mem_ids hids hq hmethod hidq hid] at hget
    exact hget
  · intro hget
    exact ⟨(d, md), hmethod, hget⟩

end Program

/-! ## Diagnostics -/

/-- The errors of a class: those of its methods, unless the table does not have the class. -/
def ClassDecl.errors (table : SymbolTable) (d : ClassDecl) : List Diagnostic :=
  if (table.class? d.name.node).isNone then
    [(Problem.missingClass d.name.node).diagnostic d.name.span]
  else d.methods.flatMap fun md => ((d.only md).annotate table).diagnostics

/-- A warning for each import whose name does not occur. -/
def Program.importWarnings (p : Program) : List Diagnostic :=
  (p.imports.filter fun i => !p.names.contains (lastSegment i.node)).map fun i =>
    (Problem.unusedImport i.node).diagnostic i.span

theorem ClassDecl.diagnostics_only (table : SymbolTable) (d : ClassDecl) (md : MethodDecl) :
    ((d.only md).annotate table).diagnostics =
      (({ d with methods := [md] } : ClassDecl).annotate table).filterMap Note.diagnostic? := by
  simp [Program.annotate, Annotation.ofNotes, Program.notes, only, Program.unusedImports]

theorem ClassDecl.filterMap_annotate (table : SymbolTable) (d : ClassDecl) :
    (d.annotate table).filterMap Note.diagnostic? = d.errors table := by
  simp only [errors, diagnostics_only]
  unfold annotate
  dsimp only
  cases table.class? d.name.node with
  | none => rfl
  | some cls => simp [List.filterMap_flatMap]

theorem Program.filterMap_unusedImports (p : Program) :
    p.unusedImports.filterMap Note.diagnostic? = p.importWarnings := by
  unfold unusedImports importWarnings
  dsimp only
  induction p.imports with
  | nil => rfl
  | cons i imports ih =>
    rw [List.filterMap_cons, List.filter_cons]
    cases p.names.contains (lastSegment i.node) with
    | true => exact ih
    | false => exact congrArg (_ :: ·) ih

theorem Program.diagnostics_annotate (p : Program) (table : SymbolTable) :
    (p.annotate table).diagnostics =
      p.classes.flatMap (ClassDecl.errors table) ++ p.importWarnings := by
  have hclasses : (p.classes.flatMap (ClassDecl.annotate table)).filterMap Note.diagnostic? =
      p.classes.flatMap (ClassDecl.errors table) := by
    rw [List.filterMap_flatMap]
    exact List.flatMap_congr fun d _ => d.filterMap_annotate table
  show (p.notes table).filterMap Note.diagnostic? = _
  rw [notes, List.filterMap_append, hclasses, p.filterMap_unusedImports]

/-! ## Whole programs -/

/-- With unique ids and any table, the types found for a program are those found for its methods one
by one, and so are its errors; the import warnings come last. A method has the same types and errors
in every program that has it in a class of the same name. -/
theorem annotation_local (p : Program) (hids : p.uniqueIds = true) (table : SymbolTable) :
    (p.annotate table).types.DisjointUnion
        (p.methods.map fun q => ((q.1.only q.2).annotate table).types) ∧
      (∀ q ∈ p.methods, ∀ id ty, ((q.1.only q.2).annotate table).types.get? id = some ty →
        id ∈ q.2.ids) ∧
      (p.annotate table).diagnostics =
        p.classes.flatMap (ClassDecl.errors table) ++ p.importWarnings ∧
      ∀ p' : Program, p'.uniqueIds = true → ∀ d d' md, (d, md) ∈ p.methods → (d', md) ∈ p'.methods →
        d'.name = d.name →
          (d'.only md).annotate table = (d.only md).annotate table ∧
          ∀ id ∈ md.ids,
            (p'.annotate table).types.get? id = (p.annotate table).types.get? id := by
  refine ⟨Program.disjointUnion_types hids table, ?_, p.diagnostics_annotate table, ?_⟩
  · intro q hq id ty hget
    rw [← ClassDecl.ids_only (d := q.1)]
    exact Program.mem_ids_of_get? (ClassDecl.uniqueIds_only hids hq) hget
  · intro p' hids' d d' md hmethod hmethod' hname
    have honly : (d'.only md).annotate table = (d.only md).annotate table :=
      ClassDecl.annotate_only_eq hname
    refine ⟨honly, ?_⟩
    intro id hid
    rw [Program.get?_types_of_mem_ids hids hmethod hid,
      Program.get?_types_of_mem_ids hids' hmethod' hid, honly]

namespace Tray

/-- `int fill(int a) { return a + 1; }` -/
def fill : MethodDecl where
  name := { node := "fill" }
  returnTy := { node := .int }
  params := [{ name := { node := "a" }, ty := { node := .int } }]
  body := [.ret .unknown
    (some (.binary { id := 1 } .add (.var { id := 2 } "a") (.int { id := 3 } 1)))]

/-- `int drop() { return b; }`, where nothing is called `b`. -/
def drop : MethodDecl where
  name := { node := "drop" }
  returnTy := { node := .int }
  params := []
  body := [.ret .unknown (some (.var { id := 4 } "b"))]

def decl : ClassDecl where
  name := { node := "Tray" }
  methods := [fill, drop]

/-- A class that the table does not have. -/
def lid : ClassDecl where
  name := { node := "Lid" }
  methods := [{ drop with body := [.ret .unknown (some (.int { id := 5 } 0))] }]

def program : Program where
  imports := [{ node := "java.util.List" }]
  classes := [lid, decl]

/-- The methods in another order, and no other class. -/
def alone : Program where
  classes := [{ decl with methods := [drop, fill] }]

theorem fill_local : program.uniqueIds = true ∧ alone.uniqueIds = true ∧
    (program.annotate (.ofProgram alone)).types.DisjointUnion
      (program.methods.map fun q => ((q.1.only q.2).annotate (.ofProgram alone)).types) ∧
    ∀ id ∈ fill.ids, (alone.annotate (.ofProgram alone)).types.get? id =
      (program.annotate (.ofProgram alone)).types.get? id := by
  have hprogram : program.uniqueIds = true := Program.uniqueIds_iff_nodup.2 (by decide)
  have halone : alone.uniqueIds = true := Program.uniqueIds_iff_nodup.2 (by decide)
  obtain ⟨hunion, -, -, hsame⟩ := annotation_local program hprogram (.ofProgram alone)
  have hfill := hsame alone halone decl { decl with methods := [drop, fill] } fill
    (Program.mem_methods.2 ⟨.tail _ (.head _), .head _⟩)
    (Program.mem_methods.2 ⟨.head _, .tail _ (.head _)⟩) rfl
  exact ⟨hprogram, halone, hunion, hfill.2⟩

end Tray

end MiniJava
