import MiniJava.Proofs.Annotation.Severity
import MiniJava.Proofs.Imports.Emission

/-!
# Unused imports can be deleted

The names that a program mentions are collected in one walk over its tree. Imports are looked up in
many other places: where a bare name may be a class, where classes are compared, where assembly
names a class. None of these looks for a name that the walk has not found, except for the names of
the classes of the program themselves.

**Theorem** (`unused_import_removable`). Let the annotator warn about an import that is not called
like a class of the program. Then without that import the types are the same, the diagnostics are
the same up to that warning, and lowering does the same: it stops at the same fault or gives the
same classes up to their lists of imports, and these have the same assembly.
-/

namespace MiniJava

open Ir Assembly

/-- The program with other imports. -/
def Program.withImports (p : Program) (imports : List (Located String)) : Program :=
  { p with imports }

/-! ## Tables -/

theorem findImport_erase {before after : List String} {path c : String}
    (hc : c ≠ lastSegment path) :
    findImport (before ++ after) c = findImport (before ++ path :: after) c := by
  have hpath : (lastSegment path == c) = false := beq_eq_false_iff_ne.2 hc.symm
  rw [findImport, findImport, List.find?_append, List.find?_append, List.find?_cons_of_neg]
  rw [hpath]
  exact Bool.false_ne_true

namespace Stmt

variable {s : String}

theorem lacks_declaredAll_of {ss : List Stmt} (h : ∀ t ∈ ss, ∀ q ∈ t.declared, q.ty.Lacks s) :
    ∀ q ∈ declaredAll ss, q.ty.Lacks s := by
  induction ss with
  | nil => exact List.forall_mem_nil _
  | cons t ss ih =>
    rw [List.forall_mem_cons] at h
    exact List.forall_mem_append.2 ⟨h.1, ih h.2⟩

/-- The walk over a statement meets the types of the variables that are declared in it. -/
theorem lacks_declared {t : Stmt} (hnames : s ∉ t.names) : ∀ q ∈ t.declared, q.ty.Lacks s := by
  induction t using Stmt.induction with
  | varDecl sp d => exact List.forall_mem_singleton.2 hnames
  | block sp body ih =>
    rw [names, namesAll_eq_flatMap] at hnames
    refine lacks_declaredAll_of fun t ht => ih t ht ?_
    exact fun hs => hnames (List.mem_flatMap.2 ⟨t, ht, hs⟩)
  | ifThen sp c t ih | whileLoop sp c t ih =>
    rw [names, List.mem_append, not_or] at hnames
    exact ih hnames.2
  | ifElse sp c t e iht ihe =>
    rw [names, List.mem_append, List.mem_append, not_or, not_or] at hnames
    exact List.forall_mem_append.2 ⟨iht hnames.1.2, ihe hnames.2⟩
  | expr | assign | arrayAssign | ret => exact List.forall_mem_nil _

theorem lacks_declaredAll {ss : List Stmt} (hnames : s ∉ namesAll ss) :
    ∀ q ∈ declaredAll ss, q.ty.Lacks s := by
  rw [namesAll_eq_flatMap] at hnames
  refine lacks_declaredAll_of fun t ht => lacks_declared ?_
  exact fun hs => hnames (List.mem_flatMap.2 ⟨t, ht, hs⟩)

end Stmt

section

variable {s : String}

theorem MethodDecl.lacks_symbols {d : MethodDecl} (hd : s ∉ d.names) : d.symbols.Lacks s where
  returnTy := fun hs => hd (List.mem_append_left _ (List.mem_append_left _ hs))
  params := by
    refine List.forall_mem_map.2 fun q hq hs => ?_
    exact hd (List.mem_append_left _ (List.mem_append_right _ (List.mem_flatMap.2 ⟨q, hq, hs⟩)))
  locals := Stmt.lacks_declaredAll (not_mem_namesAll hd)

theorem ClassDecl.lacks_symbols {d : ClassDecl} (hd : s ∉ d.names) (hname : d.name.node ≠ s) :
    d.symbols.Lacks s where
  name := hname
  fields := by
    refine List.forall_mem_map.2 fun f hf hs => ?_
    exact hd (List.mem_append_left _ (List.mem_append_right _ (List.mem_flatMap.2 ⟨f, hf, hs⟩)))
  methods := List.forall_mem_map.2 fun _ hmd =>
    MethodDecl.lacks_symbols (not_mem_names_method hd hmd)

namespace Program

variable {p : Program}

/-- The name is not mentioned in the program, and no class of it is called so. -/
structure Lacks (s : String) (p : Program) : Prop where
  names : s ∉ p.names
  classes : ∀ d ∈ p.classes, d.name.node ≠ s

theorem Lacks.not_mem_names_class (h : p.Lacks s) {d : ClassDecl} (hd : d ∈ p.classes) :
    s ∉ d.names :=
  fun hs => h.names (List.mem_flatMap.2 ⟨d, hd, hs⟩)

theorem Lacks.symbols (h : p.Lacks s) : ∀ c ∈ (SymbolTable.ofProgram p).classes, c.Lacks s :=
  List.forall_mem_map.2 fun d hd => ClassDecl.lacks_symbols (h.not_mem_names_class hd)
    (h.classes d hd)

/-! ## Annotation -/

/-- No type that is found in the program has the name. -/
theorem Lacks.types (h : p.Lacks s) : (p.annotate (.ofProgram p)).types.Lacks s := by
  intro i ty hget
  -- A recorded type belongs to a place in some method body, so it is enough to look at bodies.
  have hplace : (i, some ty) ∈ p.places (.ofProgram p) := by
    apply mem_typings_places.1
    apply (TypeMap.mem_typings_of_get?_foldl hget).resolve_left
    intro hempty
    cases hempty
  obtain ⟨d, hd, hplace⟩ := List.mem_flatMap.1 hplace
  unfold ClassDecl.places at hplace
  cases hcls : (SymbolTable.ofProgram p).class? d.name.node with
  | none =>
    rw [hcls] at hplace
    cases hplace
  | some cls =>
    rw [hcls] at hplace
    have hlacks : cls.Lacks s := h.symbols cls (List.mem_of_find?_eq_some hcls)
    obtain ⟨md, hmd, hplace⟩ := List.mem_flatMap.1 hplace
    unfold MethodDecl.places at hplace
    cases hmethod : cls.method? md.name.node with
    | none =>
      rw [hmethod] at hplace
      cases hplace
    | some method =>
      rw [hmethod] at hplace
      have hnames : s ∉ md.names := ClassDecl.not_mem_names_method (h.not_mem_names_class hd) hmd
      exact Stmt.lacks_placesAll (md.lacks_scope hlacks (hlacks.method? hmethod))
        (MethodDecl.not_mem_namesAll hnames) hplace

/-- Warnings about imports do not give types. -/
theorem types_annotate (p : Program) (table : SymbolTable) :
    (p.annotate table).types = TypeMap.ofNotes (p.classes.flatMap (ClassDecl.annotate table)) := by
  have hreports : ∀ (is : List (Located String)) (m : TypeMap),
      (is.filterMap fun i => if p.names.contains (lastSegment i.node) then none
        else some (Note.report (.unusedImport i.node) i.span)).foldl TypeMap.record m = m := by
    intro is
    induction is with
    | nil => exact fun _ => rfl
    | cons i is ih =>
      intro m
      rw [List.filterMap_cons]
      cases p.names.contains (lastSegment i.node) with
      | true => exact ih m
      | false => exact ih m
  show (p.classes.flatMap (ClassDecl.annotate table) ++ p.unusedImports).foldl TypeMap.record _ = _
  rw [List.foldl_append]
  exact hreports p.imports _

/-- What a class of the program imports, without one import of that name. -/
theorem findImport_withImports {before after : List (Located String)} {i : Located String}
    (himports : p.imports = before ++ i :: after) {c : String} (hc : c ≠ lastSegment i.node) :
    findImport ((before ++ after).map (·.node)) c = findImport (p.imports.map (·.node)) c := by
  rw [himports, List.map_append, List.map_append, List.map_cons]
  exact findImport_erase hc

/-- The list of warnings without one import that is not mentioned. -/
theorem importWarnings_withImports {before after : List (Located String)} {i : Located String}
    (himports : p.imports = before ++ i :: after) (hunused : lastSegment i.node ∉ p.names) :
    ∃ first rest,
      p.importWarnings = first ++ (Problem.unusedImport i.node).diagnostic i.span :: rest ∧
        (p.withImports (before ++ after)).importWarnings = first ++ rest := by
  have hnames : (p.withImports (before ++ after)).names = p.names := rfl
  have hi : (i :: after).filter (fun j => !p.names.contains (lastSegment j.node)) =
      i :: after.filter fun j => !p.names.contains (lastSegment j.node) :=
    List.filter_cons_of_pos (by simpa using hunused)
  refine ⟨(before.filter fun j => !p.names.contains (lastSegment j.node)).map fun j =>
      (Problem.unusedImport j.node).diagnostic j.span,
    (after.filter fun j => !p.names.contains (lastSegment j.node)).map fun j =>
      (Problem.unusedImport j.node).diagnostic j.span, ?_, ?_⟩
  · rw [importWarnings, himports, List.filter_append, hi, List.map_append, List.map_cons]
  · rw [importWarnings, hnames]
    show ((before ++ after).filter _).map _ = _
    rw [List.filter_append, List.map_append]

end Program

end

/-- An import that the annotator warns about can be deleted, unless a class of the program is called
like it. Types and code stay as they are, the other diagnostics stay in their order, and each class
has the same assembly. -/
theorem unused_import_removable (p : Program) (before after : List (Located String))
    (i : Located String) (himports : p.imports = before ++ i :: after)
    (hwarning : (Problem.unusedImport i.node).diagnostic i.span ∈
      (p.annotate (.ofProgram p)).diagnostics)
    (hforeign : ∀ d ∈ p.classes, d.name.node ≠ lastSegment i.node) :
    ((p.withImports (before ++ after)).annotate
      (.ofProgram (p.withImports (before ++ after)))).types =
        (p.annotate (.ofProgram p)).types ∧
      (∃ first rest,
        (p.annotate (.ofProgram p)).diagnostics =
          first ++ (Problem.unusedImport i.node).diagnostic i.span :: rest ∧
        ((p.withImports (before ++ after)).annotate
          (.ofProgram (p.withImports (before ++ after)))).diagnostics = first ++ rest) ∧
      Stage.Alike Eq Eq
        (List.Forall₂ fun u u' => u' = u.withImports ((before ++ after).map (·.node)) ∧
          ∀ limits, emit u' limits = emit u limits)
        (p.lower (.ofProgram p) (p.annotate (.ofProgram p)).types)
        ((p.withImports (before ++ after)).lower (.ofProgram (p.withImports (before ++ after)))
          ((p.withImports (before ++ after)).annotate
            (.ofProgram (p.withImports (before ++ after)))).types) := by
  -- The warning is the only source of what follows: the last segment of the path is mentioned
  -- nowhere, and no class is called so.
  have hunused : lastSegment i.node ∉ p.names := Program.not_mem_names_of_warning hwarning
  have hlacks : p.Lacks (lastSegment i.node) := ⟨hunused, hforeign⟩
  have hfind : ∀ c, c ≠ lastSegment i.node → findImport ((before ++ after).map (·.node)) c =
      findImport (p.imports.map (·.node)) c :=
        fun c hc => Program.findImport_withImports himports hc
  -- Without the import, the table differs in this one name.
  have ht : (SymbolTable.ofProgram p).SameApart (lastSegment i.node)
      (.ofProgram (p.withImports (before ++ after))) :=
    ⟨rfl, fun c hc => congrArg Option.isSome (hfind c hc)⟩
  have hclasses : ∀ d ∈ p.classes, d.annotate (.ofProgram (p.withImports (before ++ after))) =
      d.annotate (.ofProgram p) :=
    fun d hd => ClassDecl.annotate_sameApart ht hlacks.symbols (hlacks.not_mem_names_class hd)
  have htypes : ((p.withImports (before ++ after)).annotate
      (.ofProgram (p.withImports (before ++ after)))).types =
        (p.annotate (.ofProgram p)).types := by
    rw [Program.types_annotate, Program.types_annotate]
    exact congrArg TypeMap.ofNotes (List.flatMap_congr hclasses)
  refine ⟨htypes, ?_, ?_⟩
  · obtain ⟨first, rest, hold, hnew⟩ := Program.importWarnings_withImports himports hunused
    -- The errors stay, and one warning goes.
    have herrors : p.classes.flatMap
        (ClassDecl.errors (.ofProgram (p.withImports (before ++ after)))) =
        p.classes.flatMap (ClassDecl.errors (.ofProgram p)) := by
      refine List.flatMap_congr fun d hd => ?_
      rw [← ClassDecl.filterMap_annotate, ← ClassDecl.filterMap_annotate, hclasses d hd]
    refine ⟨p.classes.flatMap (ClassDecl.errors (.ofProgram p)) ++ first, rest, ?_, ?_⟩
    · rw [Program.diagnostics_annotate, hold, List.append_assoc]
    · rw [Program.diagnostics_annotate, hnew, List.append_assoc]
      exact congrArg (· ++ _) herrors
  · rw [htypes]
    unfold Program.lower
    rw [ClassDecl.lowerAll_eq_mapM', ClassDecl.lowerAll_eq_mapM']
    refine .mapM' joins_eq (List.forall₂_same.2 fun d hd => ?_)
    refine (ClassDecl.lower_sameApart ht hlacks.symbols hlacks.types (p.imports.map (·.node))
      ((before ++ after).map (·.node)) (hlacks.not_mem_names_class hd) (hforeign d hd)).mono
        (fun _ _ h => h) (fun _ _ h => h) ?_
    rintro u u' ⟨rfl, hu, hunit⟩
    -- The emitter looks up the paths of imports again, but not for the one that is gone.
    have hagrees : u.AgreesApart (lastSegment i.node) ((before ++ after).map (·.node)) := by
      intro c hc
      rw [hu]
      exact hfind c hc
    exact ⟨rfl, ClassUnit.emit_withImports hagrees hunit⟩

namespace Cellar

/-- `int room(Box b, int n) { return n; }` -/
def room : MethodDecl where
  name := { node := "room" }
  returnTy := { node := .int }
  params := [{ name := { node := "b" }, ty := { node := .cls "Box" } },
    { name := { node := "n" }, ty := { node := .int } }]
  body := [.ret .unknown (some (.var { id := 1 } "n"))]

def decl : ClassDecl where
  name := { node := "Cellar" }
  methods := [room]

/-- `Box` is needed, `Lid` is not. -/
def program : Program where
  imports := [{ node := "home.Box" }, { node := "home.Lid" }]
  classes := [decl]

def trimmed : Program := program.withImports [{ node := "home.Box" }]

def lid : Diagnostic := (Problem.unusedImport "home.Lid").diagnostic Span.unknown

theorem lid_removable : lid ∈ (program.annotate (.ofProgram program)).diagnostics ∧
    (trimmed.annotate (.ofProgram trimmed)).types = (program.annotate (.ofProgram program)).types ∧
    (∃ first rest, (program.annotate (.ofProgram program)).diagnostics = first ++ lid :: rest ∧
      (trimmed.annotate (.ofProgram trimmed)).diagnostics = first ++ rest) ∧
    Stage.Alike Eq Eq
      (List.Forall₂ fun u u' => u' = u.withImports ["home.Box"] ∧
        ∀ limits, emit u' limits = emit u limits)
      (program.lower (.ofProgram program) (program.annotate (.ofProgram program)).types)
      (trimmed.lower (.ofProgram trimmed) (trimmed.annotate (.ofProgram trimmed)).types) := by
  have hwarning : lid ∈ (program.annotate (.ofProgram program)).diagnostics := by
    rw [Program.diagnostics_annotate]
    apply List.mem_append_right
    decide +kernel
  have hforeign : ∀ d ∈ program.classes, d.name.node ≠ lastSegment "home.Lid" := by
    decide +kernel
  exact ⟨hwarning,
    unused_import_removable program [{ node := "home.Box" }] [] { node := "home.Lid" } rfl
    hwarning hforeign⟩

end Cellar

end MiniJava
