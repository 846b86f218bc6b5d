import MiniJava.Symbols.Derived
import MiniJava.Symbols.Scope
import Mathlib.Data.List.Nodup

/-!
# Lookup in the table of a program

A name is looked up by first match. So in the table that is read off a program, a class with a name
of its own is found under that name, and a method name leads to the first method that is declared
with it.
-/

namespace MiniJava

/-- A search for the key of an element finds it, or one with the same key before it. -/
theorem exists_find?_key {α : Type} (key : α → String) {l : List α} {a : α} (ha : a ∈ l) :
    ∃ first ∈ l, key first = key a ∧ l.find? (fun b => key b == key a) = some first := by
  have hsome : (l.find? fun b => key b == key a).isSome = true :=
    List.find?_isSome.2 ⟨a, ha, beq_self_eq_true (key a)⟩
  obtain ⟨first, hfirst⟩ := Option.isSome_iff_exists.1 hsome
  exact ⟨first, List.mem_of_find?_eq_some hfirst, by simpa using List.find?_some hfirst, hfirst⟩

/-- Where keys are different, a search for the key of an element finds it. -/
theorem find?_key_of_nodup {α : Type} (key : α → String) {l : List α} {a : α}
    (hkeys : (l.map key).Nodup) (ha : a ∈ l) : l.find? (fun b => key b == key a) = some a := by
  obtain ⟨first, hmem, hkey, hfirst⟩ := exists_find?_key key ha
  rw [hfirst, List.inj_on_of_nodup_map hkeys hmem ha hkey]

theorem SymbolTable.class?_ofProgram {p : Program}
    (hclasses : (p.classes.map fun d => d.name.node).Nodup) {d : ClassDecl} (hd : d ∈ p.classes) :
    (ofProgram p).class? d.name.node = some d.symbols := by
  have hlookup : (ofProgram p).class? d.name.node =
      (p.classes.find? fun e => e.name.node == d.name.node).map ClassDecl.symbols :=
    List.find?_map ..
  rw [hlookup, find?_key_of_nodup (fun e : ClassDecl => e.name.node) hclasses hd, Option.map_some]

theorem ClassSymbols.findParam_eq_some {x : String} {ps : List Symbol} {n : Nat} {b : Binding}
    (h : findParam x ps n = some b) : ⟨x, b.ty⟩ ∈ ps := by
  induction ps generalizing n with
  | nil => cases h
  | cons p ps ih =>
    rw [findParam] at h
    split at h
    · next hp =>
      obtain rfl := Option.some.inj h
      obtain rfl : p.name = x := beq_iff_eq.1 hp
      exact List.mem_cons_self ..
    · exact List.mem_cons_of_mem _ (ih h)

/-- A name that stands for a local or a parameter is declared as one. -/
theorem Scope.mem_of_resolve {sc : Scope} {x : String} {b : Binding} (hb : sc.resolve x = some b)
    (hfield : b.isField = false) : ⟨x, b.ty⟩ ∈ sc.method.params ++ sc.method.locals := by
  simp only [resolve, ClassSymbols.resolve, Option.orElse_eq_or, Option.orElse_eq_orElse,
    Option.or_eq_some_iff, Option.map_eq_some_iff] at hb
  rcases hb with ⟨v, hv, rfl⟩ | ⟨-, hb | ⟨-, s, -, rfl⟩⟩
  · obtain rfl : v.name = x := by simpa using List.find?_some hv
    exact List.mem_append_right _ (List.mem_of_find?_eq_some hv)
  · exact List.mem_append_left _ (ClassSymbols.findParam_eq_some hb)
  · cases hfield

namespace ClassDecl

variable {d : ClassDecl} {md : MethodDecl}

/-- A declared method is found, or one of the same name before it. -/
theorem exists_method?_symbols (hmd : md ∈ d.methods) :
    ∃ first ∈ d.methods, first.name.node = md.name.node ∧
      d.symbols.method? md.name.node = some first.symbols := by
  have hlookup : d.symbols.method? md.name.node =
      (d.methods.find? fun other => other.name.node == md.name.node).map MethodDecl.symbols :=
    List.find?_map ..
  obtain ⟨first, hmem, hname, hfirst⟩ :=
    exists_find?_key (fun other : MethodDecl => other.name.node) hmd
  exact ⟨first, hmem, hname, by rw [hlookup, hfirst, Option.map_some]⟩

theorem method?_symbols_of_mem (hmethods : (d.methods.map fun md => md.name.node).Nodup)
    (hmd : md ∈ d.methods) : d.symbols.method? md.name.node = some md.symbols := by
  obtain ⟨first, hmem, hname, hfirst⟩ := exists_method?_symbols hmd
  obtain rfl : first = md := List.inj_on_of_nodup_map hmethods hmem hmd hname
  exact hfirst

end ClassDecl

end MiniJava
