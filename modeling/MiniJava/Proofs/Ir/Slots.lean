import MiniJava.Proofs.Ir.Registers

/-!
# The register table in closed form

A table is made from a list of declarations, in which names may repeat: `this`, the parameters, the
locals and the variables that the code assigns to. The table knows the names of the list and no
others. A name has the type of its first declaration, and its register is the number of different
names declared before that, with sixteen bits (`get?_ofDeclarations_first`).

So registers are all different exactly if there are at most 65536 names. Then the slots of the
table, which are sorted by register, list the names in the order of their first declarations
(`Numbered.map_fst_slots`), and the parameters are in the registers in which a call hands them over
(`Method.registers_closed_form`).
-/

namespace MiniJava.Ir

namespace RegisterTable

variable {t : RegisterTable} {names : List String} {x : String} {r : Register}

/-! ## Names, types and numbers -/

/-- Later declarations change nothing for a name that has a register. -/
theorem get?_foldl_declare (h : t.get? x = some r) (vs : List Symbol) :
    (vs.foldl declare t).get? x = some r := by
  induction vs generalizing t with
  | nil => exact h
  | cons v vs ih =>
    refine ih ?_
    rw [get?_declare, if_neg]
    · exact h
    · rintro ⟨rfl, hnone⟩
      simp [h] at hnone

/-- The first declaration of a name decides on its type, and the names before it on its register. -/
theorem get?_ofDeclarations_first {before after : List Symbol} {v : Symbol}
    (hnew : v.name ∉ before.map Symbol.name) :
    (ofDeclarations (before ++ v :: after)).get? v.name =
      some ⟨UInt16.ofNat (before.map Symbol.name).toFinset.card, v.ty⟩ := by
  have hnone : ((ofDeclarations before).get? v.name).isSome = false := by
    simpa [← isSome_get?_ofDeclarations] using hnew
  have hsize : (ofDeclarations before).size = (before.map Symbol.name).toFinset.card := by
    rw [(numbered_ofDeclarations before).size, length_eraseDups_names]
  have hdeclared : ((ofDeclarations before).declare v).get? v.name =
      some ⟨UInt16.ofNat (before.map Symbol.name).toFinset.card, v.ty⟩ := by
    rw [get?_declare, if_pos ⟨rfl, hnone⟩, hsize]
  rw [ofDeclarations, List.foldl_append]
  exact get?_foldl_declare hdeclared after

theorem Numbered.index_eq (h : Numbered t names) {k : Nat} (hk : names[k]? = some x)
    (hr : t.get? x = some r) : r.index = UInt16.ofNat k := by
  obtain ⟨j, hj, hindex⟩ := h.index hr
  have hlt := (List.getElem?_eq_some_iff.1 hj).1
  rw [hindex, (List.getElem?_inj hlt h.nodup).1 (hj.trans hk.symm)]

/-- Different names have different registers as long as the sixteen bits suffice, and no longer: the
names with the numbers 0 and 65536 share the first register. -/
theorem Numbered.index_inj_iff (h : Numbered t names) :
    (∀ x y r s, t.get? x = some r → t.get? y = some s → r.index = s.index → x = y) ↔
      names.length ≤ 65536 := by
  constructor
  · intro hinj
    by_contra hmany
    have hfirst : 0 < names.length := by omega
    have hlast : 65536 < names.length := by omega
    obtain ⟨r, hr⟩ := Option.isSome_iff_exists.1 ((h.mem _).1 (List.getElem_mem hfirst))
    obtain ⟨s, hs⟩ := Option.isSome_iff_exists.1 ((h.mem _).1 (List.getElem_mem hlast))
    have hindex : r.index = s.index := by
      rw [h.index_eq (List.getElem?_eq_getElem hfirst) hr,
        h.index_eq (List.getElem?_eq_getElem hlast) hs]
      rfl
    have hsame := (h.nodup.getElem_inj_iff).1 (hinj _ _ r s hr hs hindex)
    omega
  · intro hle x y r s
    exact h.index_inj hle

/-! ## Slots -/

theorem mem_slots : (x, r) ∈ t.slots ↔ t.get? x = some r := by
  rw [slots, List.mem_mergeSort, Std.TreeMap.mem_toList_iff_getElem?_eq_some]
  rfl

theorem nodup_map_fst_slots (t : RegisterTable) : (t.slots.map Prod.fst).Nodup := by
  have hperm :=
    (List.mergeSort_perm t.registers.toList fun a b => a.2.index ≤ b.2.index).map Prod.fst
  rw [Std.TreeMap.map_fst_toList_eq_keys] at hperm
  exact hperm.nodup_iff.2 Std.TreeMap.nodup_keys

/-- The registers of two names are in order. -/
def InOrder (t : RegisterTable) (x y : String) : Prop :=
  ∀ r s, t.get? x = some r → t.get? y = some s → r.index ≤ s.index

theorem inOrder_slots (t : RegisterTable) : (t.slots.map Prod.fst).Pairwise t.InOrder := by
  have hsorted : t.slots.Pairwise fun a b => decide (a.2.index ≤ b.2.index) = true := by
    refine List.pairwise_mergeSort ?_ ?_ _
    · intro a b c hab hbc
      simp only [decide_eq_true_eq] at hab hbc ⊢
      exact UInt16.le_trans hab hbc
    · intro a b
      simpa using UInt16.le_total a.2.index b.2.index
  refine List.pairwise_map.2 (hsorted.imp_of_mem ?_)
  intro a b ha hb hle r s hr hs
  obtain rfl := Option.some.inj ((mem_slots.1 ha).symm.trans hr)
  obtain rfl := Option.some.inj ((mem_slots.1 hb).symm.trans hs)
  exact of_decide_eq_true hle

namespace Numbered

variable (h : Numbered t names) (hle : names.length ≤ 65536)
include h hle

theorem toNat_index {k : Nat} (hk : names[k]? = some x) (hr : t.get? x = some r) :
    r.index.toNat = k := by
  have hlt := (List.getElem?_eq_some_iff.1 hk).1
  rw [h.index_eq hk hr, UInt16.toNat_ofNat']
  exact Nat.mod_eq_of_lt (by omega)

theorem inOrder : names.Pairwise t.InOrder := by
  refine List.pairwise_iff_getElem.2 fun i j hi hj hij r s hr hs => ?_
  rw [UInt16.le_iff_toNat_le, h.toNat_index hle (List.getElem?_eq_getElem hi) hr,
    h.toNat_index hle (List.getElem?_eq_getElem hj) hs]
  exact Nat.le_of_lt hij

/-- Sorted by their registers, the names are in the order of their numbers. -/
theorem map_fst_slots : t.slots.map Prod.fst = names := by
  have hmem : ∀ x, x ∈ t.slots.map Prod.fst ↔ x ∈ names := by
    intro x
    rw [h.mem, Option.isSome_iff_exists]
    simp [mem_slots]
  -- Both lists are in order, and no two names have the same register.
  refine List.Perm.eq_of_pairwise ?_ (inOrder_slots t) (h.inOrder hle)
    ((List.perm_ext_iff_of_nodup (nodup_map_fst_slots t) h.nodup).2 hmem)
  intro x y hx hy hxy hyx
  obtain ⟨r, hr⟩ := Option.isSome_iff_exists.1 ((h.mem x).1 ((hmem x).1 hx))
  obtain ⟨s, hs⟩ := Option.isSome_iff_exists.1 ((h.mem y).1 hy)
  exact h.index_inj hle hr hs (UInt16.le_antisymm (hxy r s hr hs) (hyx s r hs hr))

/-- The slots are numbered without a gap. -/
theorem map_index_slots : t.slots.map (fun s => s.2.index.toNat) = List.range names.length := by
  have hnames := h.map_fst_slots hle
  refine List.ext_getElem (by simp [← hnames]) fun k hk _ => ?_
  rw [List.length_map] at hk
  have hname : names[k]? = some t.slots[k].1 := by
    rw [← hnames, List.getElem?_map, List.getElem?_eq_getElem hk]
    rfl
  rw [List.getElem_map, List.getElem_range]
  exact h.toNat_index hle hname (mem_slots.1 (List.getElem_mem hk))

end Numbered

end RegisterTable

/-! ## Methods -/

namespace Method

open RegisterTable

theorem registers_of_fresh {m : Method} (hfresh : m.frozen = none) :
    m.registers = ofDeclarations m.declarations := by
  rw [registers, hfresh]
  rfl

/-- The object that the method runs on, as a variable. -/
def receiver (m : Method) : List Symbol :=
  if m.isStatic then [] else [⟨"this", .cls m.className⟩]

theorem declarations_eq (m : Method) : m.declarations =
    m.receiver ++ m.params ++ (m.locals ++ m.code.filterMap Instr.assigned?) := by
  rw [declarations, receiver, List.append_assoc _ m.locals]

theorem length_receiver (m : Method) : m.receiver.length = if m.isStatic then 0 else 1 := by
  rw [receiver]
  split <;> rfl

theorem nodup_receiver_params {m : Method} (hnodup : (m.params.map Symbol.name).Nodup)
    (hthis : "this" ∉ m.params.map Symbol.name) :
    ((m.receiver ++ m.params).map Symbol.name).Nodup := by
  rw [receiver]
  split
  · exact hnodup
  · exact List.nodup_cons.2 ⟨hthis, hnodup⟩

/-- The receiver and the parameters are in the first registers, in order. -/
theorem get?_param {m : Method} (hnodup : (m.params.map Symbol.name).Nodup)
    (hthis : "this" ∉ m.params.map Symbol.name) {k : Nat} {v : Symbol}
    (hv : m.params[k]? = some v) :
    (ofDeclarations m.declarations).get? v.name =
      some ⟨UInt16.ofNat (if m.isStatic then k else k + 1), v.ty⟩ := by
  obtain ⟨hk, rfl⟩ := List.getElem?_eq_some_iff.1 hv
  have hparams : m.receiver ++ m.params =
      (m.receiver ++ m.params.take k) ++ m.params[k] :: m.params.drop (k + 1) := by
    rw [List.append_assoc, ← List.drop_eq_getElem_cons hk, List.take_append_drop]
  have hall := nodup_receiver_params hnodup hthis
  rw [hparams, List.map_append, List.map_cons] at hall
  obtain ⟨hbefore, -, hdisjoint⟩ := List.nodup_append.1 hall
  have hnew : m.params[k].name ∉ (m.receiver ++ m.params.take k).map Symbol.name :=
    fun hmem => hdisjoint _ hmem _ (List.mem_cons_self ..) rfl
  have hcard : ((m.receiver ++ m.params.take k).map Symbol.name).toFinset.card =
      if m.isStatic then k else k + 1 := by
    rw [List.toFinset_card_of_nodup hbefore, List.length_map, List.length_append, length_receiver,
      List.length_take, Nat.min_eq_left (Nat.le_of_lt hk)]
    split <;> omega
  rw [declarations_eq, hparams, List.append_assoc, List.cons_append, get?_ofDeclarations_first hnew,
    hcard]

/-- **The register table of a method.** The table is made when it is first asked for and is kept in
all later versions `n` of the method. Its names are those that the method `m` declared at that
moment. A name has the type of its first declaration and the number of different names before it as
its register, modulo 65536. So registers are all different exactly if there are at most 65536 names;
then the slots are these names in the order of their first declarations, numbered without a gap.
Parameters with different names other than `this` are in the registers in which they are handed
over: from zero on in a static method, and else behind the object. -/
theorem registers_closed_form (m n : Method) (hm : m.frozen = none)
    (hn : n = m ∨ n.frozen = m.freeze.frozen) :
    let names := m.declarations.map Symbol.name
    (∀ x, (n.registers.get? x).isSome ↔ x ∈ names) ∧
      (∀ before v after, m.declarations = before ++ v :: after → v.name ∉ before.map Symbol.name →
        ∃ r, n.registers.get? v.name = some r ∧ r.ty = v.ty ∧
          r.index.toNat = (before.map Symbol.name).toFinset.card % 65536) ∧
      ((∀ x y r s, n.registers.get? x = some r → n.registers.get? y = some s →
        r.index = s.index → x = y) ↔ names.toFinset.card ≤ 65536) ∧
      (names.toFinset.card ≤ 65536 →
        (∀ x r, (x, r) ∈ n.registers.slots ↔ n.registers.get? x = some r) ∧
          n.registers.slots.map Prod.fst = names.eraseDups ∧
          n.registers.slots.map (fun s => s.2.index.toNat) = List.range names.toFinset.card) ∧
      ((m.params.map Symbol.name).Nodup → "this" ∉ m.params.map Symbol.name →
        m.params.length < 65536 → ∀ k v, m.params[k]? = some v →
          ∃ r, n.registers.get? v.name = some r ∧ r.ty = v.ty ∧
            r.index.toNat = if m.isStatic then k else k + 1) := by
  -- Frozen or not, the table is the one made of the declarations.
  have htable : n.registers = ofDeclarations m.declarations := by
    rcases hn with rfl | hn
    · exact registers_of_fresh hm
    · rw [registers, hn]
      exact registers_of_fresh hm
  -- Registers are numbered in the order of first declaration, so all four facts are facts about one
  -- list of names.
  have hnumbered := numbered_ofDeclarations m.declarations
  have hlength := length_eraseDups_names m.declarations
  rw [htable]
  refine ⟨isSome_get?_ofDeclarations _, ?_, ?_, ?_, ?_⟩
  · intro before v after hsplit hnew
    rw [hsplit]
    exact ⟨_, get?_ofDeclarations_first hnew, rfl, UInt16.toNat_ofNat'⟩
  · rw [hnumbered.index_inj_iff, hlength]
  · intro hle
    rw [← hlength] at hle ⊢
    exact ⟨fun _ _ => mem_slots, hnumbered.map_fst_slots hle, hnumbered.map_index_slots hle⟩
  · intro hnodup hthis hfew k v hv
    refine ⟨_, get?_param hnodup hthis hv, rfl, ?_⟩
    have hk : k < m.params.length := (List.getElem?_eq_some_iff.1 hv).1
    rw [UInt16.toNat_ofNat']
    exact Nat.mod_eq_of_lt (by split <;> omega)

end Method

/-! A method with a local that is called like a parameter, asked for its table and then emptied. -/

namespace Tally

def count : Method where
  name := "count"
  className := "Tally"
  returnTy := .int
  params := [⟨"n", .int⟩, ⟨"marks", .array .int⟩]
  locals := [⟨"n", .bool⟩, ⟨"sum", .int⟩]
  code :=
    [.assign (.plain "tmp0" .int) .int (.length (.plain "marks" (.array .int))),
      .assign (.item "marks" (.literal 0 .int) .int none) .int (.value (.plain "tmp0" .int)),
      .ret .int (some (.plain "sum" .int))]

def emptied : Method := { count.freeze with params := [], code := [] }

theorem emptied_registers : count.frozen = none ∧ emptied.frozen = count.freeze.frozen ∧
    emptied.registers.slots.map Prod.fst = ["this", "n", "marks", "sum", "tmp0"] ∧
    (∃ r, emptied.registers.get? "sum" = some r ∧ r.ty = .int ∧ r.index.toNat = 3) ∧
    ∃ r, emptied.registers.get? "marks" = some r ∧ r.ty = .array .int ∧ r.index.toNat = 2 := by
  obtain ⟨-, hfirst, -, hslots, hparams⟩ :=
    Method.registers_closed_form count emptied rfl (.inr rfl)
  refine ⟨rfl, rfl, ?_, ?_, ?_⟩
  · exact (hslots (by decide)).2.1
  · exact hfirst (count.declarations.take 4) ⟨"sum", .int⟩ (count.declarations.drop 5)
      rfl (by decide)
  · exact hparams (by decide) (by decide) (by decide) 1 ⟨"marks", .array .int⟩ rfl

end Tally

end MiniJava.Ir
