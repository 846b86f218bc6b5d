import MiniJava.Ir.Unit
import Mathlib.Data.Finset.Card
import Std.Data.TreeMap.Lemmas

/-!
# Registers of variables

The variables of a method are numbered in the order in which they are first declared, and the
register of a variable is its number with sixteen bits (`Numbered`). So no two of at most 65536
variables share a register, and the register of `this`, which is declared first, is zero.
-/

namespace MiniJava.Ir

namespace RegisterTable

/-- The table has registers for the names given, each by its place in the list. -/
structure Numbered (t : RegisterTable) (names : List String) : Prop where
  nodup : names.Nodup
  size : t.size = names.length
  mem : ∀ x, x ∈ names ↔ (t.get? x).isSome
  index : ∀ {x r}, t.get? x = some r → ∃ k, names[k]? = some x ∧ r.index = UInt16.ofNat k

theorem numbered_empty : Numbered empty [] where
  nodup := .nil
  size := rfl
  mem := by simp [empty, get?]
  index := by simp [empty, get?]

variable {t : RegisterTable} {names : List String}

theorem get?_declare (v : Symbol) (x : String) :
    (t.declare v).get? x = if v.name = x ∧ (t.get? v.name).isSome = false then
      some ⟨UInt16.ofNat t.size, v.ty⟩ else t.get? x := by
  simp only [declare, get?, Std.TreeMap.get?_eq_getElem?, Std.TreeMap.getElem?_insertIfNew,
    Std.compare_eq_iff_eq, Std.TreeMap.mem_iff_isSome_getElem?, Bool.not_eq_true]
  congr

theorem size_declare (v : Symbol) :
    (t.declare v).size = if (t.get? v.name).isSome then t.size else t.size + 1 := by
  simp only [declare, size, get?, Std.TreeMap.size_insertIfNew, Std.TreeMap.mem_iff_isSome_getElem?,
    Std.TreeMap.get?_eq_getElem?]
  congr

/-- A name that is known keeps its number. -/
theorem Numbered.declare_known (h : Numbered t names) {v : Symbol} (hv : v.name ∈ names) :
    Numbered (t.declare v) names := by
  rw [h.mem] at hv
  have hsame : ∀ x, (t.declare v).get? x = t.get? x := by
    intro x
    rw [get?_declare, if_neg]
    simp [hv]
  refine ⟨h.nodup, ?_, ?_, ?_⟩
  · simpa [size_declare, hv] using h.size
  · intro x
    rw [hsame, h.mem]
  · intro x r hr
    rw [hsame] at hr
    exact h.index hr

/-- A new name gets the next number. -/
theorem Numbered.declare_new (h : Numbered t names) {v : Symbol} (hv : v.name ∉ names) :
    Numbered (t.declare v) (names ++ [v.name]) := by
  have hnone : (t.get? v.name).isSome = false := by simpa [h.mem] using hv
  have hget : ∀ x, (t.declare v).get? x =
      if v.name = x then some ⟨UInt16.ofNat t.size, v.ty⟩ else t.get? x := by
    intro x
    rw [get?_declare]
    simp [hnone]
  -- A new name comes last and gets the old size as its number; the others keep theirs.
  refine ⟨?_, ?_, ?_, ?_⟩
  · refine List.nodup_append.2 ⟨h.nodup, by simp, ?_⟩
    rintro x hx _ hy rfl
    exact hv (List.mem_singleton.1 hy ▸ hx)
  · simp [size_declare, hnone, h.size]
  · intro x
    rw [hget, List.mem_append, h.mem, List.mem_singleton]
    split
    · next hx => simp [hx]
    · next hx => simp [Ne.symm hx]
  · intro x r hr
    rw [hget] at hr
    split at hr
    · next hx =>
      injection hr with hr
      exact ⟨names.length, by simp [hx], by rw [← hr, h.size]⟩
    · obtain ⟨k, hk, hr⟩ := h.index hr
      have hlt : k < names.length := (List.getElem?_eq_some_iff.1 hk).1
      exact ⟨k, by rw [List.getElem?_append_left hlt, hk], hr⟩

theorem ofDeclarations_concat (vs : List Symbol) (v : Symbol) :
    ofDeclarations (vs ++ [v]) = (ofDeclarations vs).declare v := by
  rw [ofDeclarations, List.foldl_append]
  rfl

/-- A table that was made from declarations numbers the names in the order in which they first
occur. -/
theorem numbered_ofDeclarations (vs : List Symbol) :
    Numbered (ofDeclarations vs) (vs.map Symbol.name).eraseDups := by
  induction vs using List.reverseRecOn with
  | nil => exact numbered_empty
  | append_singleton vs v ih =>
    rw [ofDeclarations_concat, List.map_append, List.eraseDups_append]
    by_cases hv : v.name ∈ vs.map Symbol.name
    · have hnothing : (([v].map Symbol.name).removeAll (vs.map Symbol.name)).eraseDups = [] := by
        simp_all [List.removeAll]
      rw [hnothing, List.append_nil]
      exact ih.declare_known (List.mem_eraseDups.2 hv)
    · have hname : (([v].map Symbol.name).removeAll (vs.map Symbol.name)).eraseDups = [v.name] := by
        simp_all [List.removeAll, List.eraseDups_cons]
      rw [hname]
      exact ih.declare_new fun hmem => hv (List.mem_eraseDups.1 hmem)

/-- The variables that have registers are those declared. -/
theorem isSome_get?_ofDeclarations (vs : List Symbol) (x : String) :
    ((ofDeclarations vs).get? x).isSome ↔ x ∈ vs.map Symbol.name := by
  rw [← (numbered_ofDeclarations vs).mem, List.mem_eraseDups]

/-- There are as many numbers as different names. -/
theorem length_eraseDups_names (vs : List Symbol) :
    (vs.map Symbol.name).eraseDups.length = (vs.map Symbol.name).toFinset.card := by
  rw [← List.toFinset_card_of_nodup (numbered_ofDeclarations vs).nodup]
  congr 1
  ext x
  simp

/-- Among at most 65536 names, different variables have different registers. -/
theorem Numbered.index_inj (h : Numbered t names) (hle : names.length ≤ 65536) {x y : String}
    {r s : Register} (hx : t.get? x = some r) (hy : t.get? y = some s)
    (heq : r.index = s.index) : x = y := by
  obtain ⟨j, hj, hr⟩ := h.index hx
  obtain ⟨k, hk, hs⟩ := h.index hy
  have hj' : j < names.length := (List.getElem?_eq_some_iff.1 hj).1
  have hk' : k < names.length := (List.getElem?_eq_some_iff.1 hk).1
  have hjk : j = k := by
    have := congrArg UInt16.toNat (hr.symm.trans (heq.trans hs))
    simp only [UInt16.toNat_ofNat'] at this
    omega
  subst hjk
  exact Option.some.inj (hj.symm.trans hk)

/-- What emitted code relies on: no two variables share a register, and where there is an object
that the method runs on, it is in register zero. -/
structure Sound (t : RegisterTable) (isStatic : Bool) : Prop where
  index_inj : ∀ {x y r s}, t.get? x = some r → t.get? y = some s → r.index = s.index → x = y
  this : isStatic = false → ∃ r, t.get? "this" = some r ∧ r.index = 0

/-- The variable that is declared first has register zero. -/
theorem index_eq_zero_of_first {v : Symbol} {vs : List Symbol} :
    ∃ r, (ofDeclarations (v :: vs)).get? v.name = some r ∧ r.index = 0 := by
  have hall := numbered_ofDeclarations (v :: vs)
  rw [List.map_cons, List.eraseDups_cons] at hall
  have hsome := (hall.mem v.name).1 (List.mem_cons_self ..)
  obtain ⟨r, hr⟩ := Option.isSome_iff_exists.1 hsome
  obtain ⟨k, hk, hindex⟩ := hall.index hr
  have hzero : k = 0 := by
    have hlt := (List.getElem?_eq_some_iff.1 hk).1
    exact (List.getElem?_inj hlt hall.nodup).1 (hk.trans (by simp))
  exact ⟨r, hr, by rw [hindex, hzero]; rfl⟩

end RegisterTable

namespace Method

/-- The register table was made from at most 65536 different names: those that the method declares,
or those that it declared when the table was first asked for. -/
def Registered (m : Method) : Prop :=
  ∃ older : Method, older.isStatic = m.isStatic ∧
    m.registers = .ofDeclarations older.declarations ∧
    (older.declarations.map Symbol.name).toFinset.card ≤ 65536

theorem registered_of_fresh {m : Method} (hfresh : m.frozen = none)
    (hnames : (m.declarations.map Symbol.name).toFinset.card ≤ 65536) : m.Registered :=
  ⟨m, rfl, by rw [registers, hfresh]; rfl, hnames⟩

theorem Registered.sound {m : Method} (h : m.Registered) : m.registers.Sound m.isStatic := by
  obtain ⟨older, hstatic, htable, hcard⟩ := h
  rw [← RegisterTable.length_eraseDups_names] at hcard
  rw [htable]
  constructor
  · intro x y r s hx hy
    exact (RegisterTable.numbered_ofDeclarations older.declarations).index_inj hcard hx hy
  · intro hinstance
    rw [← hstatic] at hinstance
    simp only [declarations, hinstance, Bool.false_eq_true, if_false, List.cons_append]
    exact RegisterTable.index_eq_zero_of_first (v := ⟨"this", .cls older.className⟩)

end Method

end MiniJava.Ir
