import MiniJava.Json.Decoder
import MiniJava.Proofs.Json.Written

/-!
# What decoders accept

A decoder is given a number of lists and objects that may still be opened. `Decoder.Reads` says that
a value is decoded to a result with every allowance that its depth needs, up to a bound: recursive
decoders go down a fixed number of rounds only, and one round more needs the parts for an allowance
of one less.

There is one lemma for each way to make a decoder. A record is read with its fields in the order of
declaration, as it is written (`Fields.Reads.cons`).
-/

namespace MiniJava.Json

mutual

/-- How deep lists and objects are nested. -/
def depth : Json → Nat
  | arr items _ => itemsDepth items + 1
  | obj members _ => membersDepth members + 1
  | _ => 0

def itemsDepth : List Json → Nat
  | [] => 0
  | v :: vs => max v.depth (itemsDepth vs)

def membersDepth : List (Option String × Json) → Nat
  | [] => 0
  | (_, v) :: ms => max v.depth (membersDepth ms)

end

theorem itemsDepth_le_iff {items : List Json} {n : Nat} :
    itemsDepth items ≤ n ↔ ∀ v ∈ items, v.depth ≤ n := by
  induction items with
  | nil => simp [itemsDepth]
  | cons v items ih => rw [itemsDepth, Nat.max_le, List.forall_mem_cons, ih]

theorem membersDepth_le_iff {members : List (Option String × Json)} {n : Nat} :
    membersDepth members ≤ n ↔ ∀ m ∈ members, m.2.depth ≤ n := by
  induction members with
  | nil => simp [membersDepth]
  | cons m members ih => rw [membersDepth, Nat.max_le, List.forall_mem_cons, ih]

theorem depth_list_le_iff {items : List Json} {n : Nat} :
    (list items).depth ≤ n ↔ ∃ k, n = k + 1 ∧ ∀ v ∈ items, v.depth ≤ k := by
  rw [list, depth]
  cases n with
  | zero => simp
  | succ n => simp [itemsDepth_le_iff]

theorem depth_record_le_iff {members : List (String × Json)} {n : Nat} :
    (record members).depth ≤ n ↔ ∃ k, n = k + 1 ∧ ∀ m ∈ members, m.2.depth ≤ k := by
  rw [record, depth]
  cases n with
  | zero => simp
  | succ n =>
    rw [Nat.add_le_add_iff_right, membersDepth_le_iff, List.forall_mem_map]
    simp

namespace Decoder

variable {α β : Type} {k : Nat} {v : Json} {a : α}

/-- The value has a text and is decoded to the result, with every allowance below `k` that its depth
needs. -/
structure Reads (d : Decoder α) (k : Nat) (v : Json) (a : α) : Prop where
  writable : Writable v
  decode : ∀ n, n < k → n ≤ maxDepth → v.depth ≤ n → d n v = .ok a

theorem Reads.down {d : Decoder α} (h : d.Reads (k + 1) v a) : d.Reads k v a :=
  ⟨h.writable, fun n hk => h.decode n (Nat.lt_succ_of_lt hk)⟩

/-- A decoder with no rounds left is never asked. -/
theorem Reads.of_succ {d : Nat → Decoder α} (h : ∀ k, (d (k + 1)).Reads (k + 1) v a) (k : Nat) :
    (d k).Reads k v a := by
  cases k with
  | zero => exact ⟨(h 0).writable, fun n hn => absurd hn (Nat.not_lt_zero n)⟩
  | succ k => exact h k

/-- Enough rounds for any depth. -/
theorem Reads.of_maxDepth {d : Decoder α} (h : d.Reads (maxDepth + 1) v a) : d.Reads k v a :=
  ⟨h.writable, fun n _ hmax hdepth => h.decode n (Nat.lt_succ_of_le hmax) hmax hdepth⟩

theorem Reads.map {d : Decoder α} (h : d.Reads k v a) (f : α → β) : (d.map f).Reads k v (f a) := by
  refine ⟨h.writable, ?_⟩
  intro n hk hmax hdepth
  rw [Decoder.map, h.decode n hk hmax hdepth]
  rfl

theorem reads_string (s : String) : string.Reads k (.text s) s := ⟨.text s, fun _ _ _ _ => rfl⟩

theorem reads_bool (b : Bool) : bool.Reads k (.bool b) b := ⟨.bool b, fun _ _ _ _ => rfl⟩

theorem reads_none (d : Decoder α) : d.option.Reads k .null none := ⟨.null, fun _ _ _ _ => rfl⟩

theorem Reads.some {d : Decoder α} (h : d.Reads k v a) (hnull : v ≠ .null) :
    d.option.Reads k v (some a) := by
  refine ⟨h.writable, ?_⟩
  intro n hk hmax hdepth
  have hoption : d.option n v = (d n v).map Option.some := by
    unfold option
    split
    · exact absurd rfl hnull
    · rfl
  rw [hoption, h.decode n hk hmax hdepth]
  rfl

/-- An optional value that is written as `null` if there is none. -/
theorem reads_option {d : Decoder β} {f : α → Json} {g : α → β} (x : Option α)
    (h : ∀ a, d.Reads k (f a) (g a)) (hnull : ∀ a, f a ≠ .null) :
    d.option.Reads k (Json.option f x) (x.map g) := by
  cases x with
  | none => exact reads_none d
  | some a => exact (h a).some (hnull a)

theorem reads_option_same {d : Decoder α} {f : α → Json} (x : Option α)
    (h : ∀ a, d.Reads k (f a) a) (hnull : ∀ a, f a ≠ .null) :
    d.option.Reads k (Json.option f x) x := by
  have hoption := reads_option x h hnull
  rwa [Option.map_id'] at hoption

/-! ## Integers -/

theorem value?_ofInt {i : Int} (hlow : -(Nat.pow 2 63 : Nat) ≤ i) (hhigh : i ≤ Number.maxWord) :
    (Number.ofInt i).value? = some (.integer i) := by
  have hdigits : Nat.ofDigitChars 10 (Nat.toDigits 10 i.natAbs) 0 = i.natAbs :=
    Nat.ofDigitChars_ten_toDigits
  simp only [Number.value?, Number.ofInt, hdigits]
  by_cases hneg : i < 0
  · have hpos : 0 < i.natAbs := by omega
    have hbound : i.natAbs ≤ Nat.pow 2 63 := by omega
    have habs : -(i.natAbs : Int) = i := by omega
    simp only [hneg, hpos, hbound, habs, decide_true, Bool.not_true, Bool.and_true, Bool.and_false,
      Bool.false_and, Bool.false_eq_true, if_false, List.isEmpty_nil, Option.isNone_none, if_true]
  · have hbound : i.natAbs ≤ Number.maxWord := by omega
    have habs : (i.natAbs : Int) = i := by omega
    simp only [hneg, hbound, habs, decide_true, decide_false, Bool.not_false, Bool.and_true,
      List.isEmpty_nil, Option.isNone_none, if_true]

theorem ofInt_natCast (n : Nat) : Number.ofInt n = Number.ofNat n := by
  simp [Number.ofInt, Number.ofNat]

/-- An integer between the bounds, which fit 64 bits. -/
theorem integer_int {low high i : Int} {wanted : String} (n : Nat)
    (hbounds : -(Nat.pow 2 63 : Nat) ≤ low ∧ high ≤ Number.maxWord) (hlow : low ≤ i)
    (hhigh : i ≤ high) :
    integer low high wanted n (.int i) = .ok i := by
  have hvalue : (Number.ofInt i).value? = some (.integer i) :=
    value?_ofInt (Int.le_trans hbounds.1 hlow) (Int.le_trans hhigh hbounds.2)
  simp only [Json.int, integer, hvalue, if_pos (And.intro hlow hhigh)]

theorem reads_uint32 (x : UInt32) : uint32.Reads k (.nat x.toNat) x := by
  refine ⟨.num (Number.isInteger_ofNat _), ?_⟩
  intro n _ _ _
  have hlt : x.toNat < 2 ^ 32 := x.toNat_lt
  rw [Json.nat, ← ofInt_natCast, ← Json.int, uint32, Decoder.map,
    integer_int n (by decide) (by omega) (by omega)]
  simp [Except.map]

theorem reads_int32 (x : Int32) : int32.Reads k (.int x.toInt) x := by
  refine ⟨.num (Number.isInteger_ofInt _), ?_⟩
  intro n _ _ _
  have hlow : Int32.minValue.toInt ≤ x.toInt := Int32.minValue_le_toInt x
  have hhigh : x.toInt ≤ Int32.maxValue.toInt := Int32.toInt_le x
  rw [int32, Decoder.map, integer_int n (by decide) hlow hhigh]
  simp [Except.map]

/-! ## Lists -/

theorem mapM_ok {d : Json → Except Fault β} {f : α → Json} {g : α → β} {xs : List α}
    (h : ∀ x ∈ xs, d (f x) = .ok (g x)) : (xs.map f).mapM d = .ok (xs.map g) := by
  induction xs with
  | nil => rfl
  | cons x xs ih =>
    rw [List.forall_mem_cons] at h
    rw [List.map_cons, List.mapM_cons, h.1, ih h.2]
    rfl

theorem reads_list {d : Decoder β} {f : α → Json} {g : α → β} {xs : List α}
    (h : ∀ x ∈ xs, d.Reads k (f x) (g x)) :
    d.list.Reads (k + 1) (Json.list (xs.map f)) (xs.map g) := by
  refine ⟨.list (List.forall_mem_map.2 fun x hx => (h x hx).writable), ?_⟩
  intro n hk hmax hdepth
  obtain ⟨n, rfl, hitems⟩ := depth_list_le_iff.1 hdepth
  have hvalues : (xs.map f).mapM (d n) = .ok (xs.map g) := by
    apply mapM_ok
    intro x hx
    exact (h x hx).decode n (by omega) (by omega) (hitems (f x) (List.mem_map_of_mem hx))
  simp only [Json.list, list, enter, bind, Except.bind, hvalues, ensure, if_true]

theorem reads_list_same {d : Decoder α} {f : α → Json} {xs : List α}
    (h : ∀ x ∈ xs, d.Reads k (f x) x) :
    d.list.Reads (k + 1) (Json.list (xs.map f)) xs := by
  have hlist := reads_list h
  rwa [List.map_id'] at hlist

end Decoder

/-! ## Records -/

namespace Fields

open Decoder

variable {σ α β : Type} {k : Nat}

/-- The members are the fields of the record in order, have a text, and are decoded to the
result. -/
structure Reads (fs : Fields σ α) (k : Nat) (members : List (String × Json)) (a : α) : Prop where
  names : members.map Prod.fst = fs.names
  writable : ∀ m ∈ members, Writable m.2
  decode : ∀ n, n < k → n ≤ maxDepth → (∀ m ∈ members, m.2.depth ≤ n) →
    ∃ s, fs.putMembers n fs.start (members.map fun m => (some m.1, m.2)) = .ok s ∧
      ∀ wanted place, fs.finish .object wanted place s = .ok a

theorem reads_last {f : Field β} {v : Json} {b : β} (h : f.decode.Reads k v b) :
    (last f).Reads k [(f.name, v)] b := by
  refine ⟨rfl, List.forall_mem_singleton.2 h.writable, ?_⟩
  intro n hk hmax hdepth
  refine ⟨some b, ?_, fun _ _ => rfl⟩
  have hv : f.decode n v = .ok b := h.decode n hk hmax (hdepth _ (.head _))
  simp [last, putMembers, fill, hv, Except.map, bind, Except.bind]

/-- Fields behind the first do not touch it. -/
theorem putMembers_cons {f : Field β} {fs : Fields σ α}
    (hname : fs.names.contains f.name = false) (n : Nat) (old : Option β)
    {members : List (String × Json)} (hmembers : ∀ m ∈ members, m.1 ∈ fs.names) (s : σ) :
    (cons f fs).putMembers n (old, s) (members.map fun m => (some m.1, m.2)) =
      (fs.putMembers n s (members.map fun m => (some m.1, m.2))).map fun s => (old, s) := by
  induction members generalizing s with
  | nil => rfl
  | cons m members ih =>
    rw [List.forall_mem_cons] at hmembers
    have hcontains : fs.names.contains m.1 = true := List.contains_iff_mem.2 hmembers.1
    -- None of the later members has the name of the first field, which so keeps what it has.
    have hne : (m.1 == f.name) = false := by
      rw [beq_eq_false_iff_ne]
      intro heq
      rw [← heq, hcontains] at hname
      cases hname
    have hcontains' : (cons f fs).names.contains m.1 = true :=
      List.contains_iff_mem.2 (.tail _ hmembers.1)
    have hput : (cons f fs).put (old, s) m.1 n m.2 =
        (fs.put s m.1 n m.2).map fun s => (old, s) := by
      show (if m.1 == f.name then _ else _) = _
      rw [hne]
      rfl
    rw [List.map_cons, putMembers, putMembers, hcontains, hcontains', if_pos rfl, if_pos rfl, hput]
    cases fs.put s m.1 n m.2 with
    | error e => rfl
    | ok s' => exact ih hmembers.2 s'

theorem Reads.cons {f : Field β} {fs : Fields σ α} {v : Json} {b : β} {a : α}
    {members : List (String × Json)} (hname : fs.names.contains f.name = false)
    (hv : f.decode.Reads k v b) (h : fs.Reads k members a) :
    (cons f fs).Reads k ((f.name, v) :: members) (b, a) := by
  obtain ⟨hnames, hwritable, hread⟩ := h
  refine ⟨by rw [List.map_cons, hnames]; rfl, List.forall_mem_cons.2 ⟨hv.writable, hwritable⟩, ?_⟩
  intro n hk hmax hdepth
  rw [List.forall_mem_cons] at hdepth
  obtain ⟨s, hs, hfinish⟩ := hread n hk hmax hdepth.2
  have hmem : ∀ m ∈ members, m.1 ∈ fs.names := fun m hm => hnames ▸ List.mem_map_of_mem hm
  refine ⟨(some b, s), ?_, ?_⟩
  -- The members come in the order of the fields: the first one fills the first field, and the rest
  -- are put beside it.
  · have hfirst : (Fields.cons f fs).put (none, fs.start) f.name n v = .ok (some b, fs.start) := by
      show (if f.name == f.name then _ else _) = _
      rw [beq_self_eq_true, if_pos rfl, fill, hv.decode n hk hmax hdepth.1]
      rfl
    have hcontains : (Fields.cons f fs).names.contains f.name = true :=
      List.contains_iff_mem.2 (.head _)
    rw [List.map_cons, putMembers, hcontains, if_pos rfl]
    show ((Fields.cons f fs).put (none, fs.start) f.name n v >>= _) = _
    rw [hfirst]
    show putMembers _ n (some b, fs.start) _ = _
    rw [putMembers_cons hname n (some b) hmem, hs]
    rfl
  · intro wanted place
    show (do
      let b ← f.finish .object _ (some b)
      let a ← fs.finish .object wanted (place + 1) s
      .ok (b, a)) = _
    rw [hfinish]
    rfl

theorem Reads.record {fs : Fields σ α} {wanted : String} {members : List (String × Json)} {a : α}
    (h : fs.Reads k members a) :
    (Decoder.record wanted fs).Reads (k + 1) (Json.record members) a := by
  refine ⟨.record h.writable, ?_⟩
  intro n hk hmax hdepth
  obtain ⟨n, rfl, hmembers⟩ := depth_record_le_iff.1 hdepth
  obtain ⟨s, hs, hfinish⟩ := h.decode n (by omega) (by omega) hmembers
  show (do
    let s ← fs.putMembers n fs.start (members.map fun m : String × Json => (some m.1, m.2))
    Decoder.ensure true
    fs.finish .object wanted 0 s) = _
  rw [hs]
  exact hfinish wanted 0

end Fields

/-! ## Variants -/

namespace Decoder

variable {α : Type} {k : Nat} {known : List String} {payload : String → Option (Payload α)}
  {name : String}

theorem reads_tagged {p : Payload α} {v : Json} {a : α} (hpayload : payload name = some p)
    (h : p.decode.Reads k v a) : (variant known payload).Reads (k + 1) (tagged name v) a := by
  refine ⟨.record (List.forall_mem_singleton.2 h.writable), ?_⟩
  intro n hk hmax hdepth
  obtain ⟨n, rfl, hmembers⟩ := depth_record_le_iff.1 hdepth
  have hv : p.decode n v = .ok a := h.decode n (by omega) (by omega) (hmembers _ (.head _))
  show variant known payload (n + 1) (.obj [(some name, v)] true) = _
  simp only [variant, enter, bind, Except.bind, hpayload, hv]
  rfl

theorem reads_bare {a : α} (hpayload : payload name = some (.unit a)) :
    (variant known payload).Reads k (.text name) a := by
  refine ⟨.text name, ?_⟩
  intro n _ _ _
  simp only [Json.text, variant, hpayload]
  rfl

/-! ## Texts -/

theorem parse_render {d : Decoder α} {v : Json} {a : α} (h : d.Reads (maxDepth + 1) v a)
    (hdepth : v.depth ≤ maxDepth) : d.parse v.render = .ok a := by
  rw [parse, Document.read_render h.writable]
  show (do let a ← d maxDepth v; ensure true; .ok a) = _
  rw [h.decode maxDepth (Nat.lt_succ_self _) (Nat.le_refl _) hdepth]
  rfl

end Decoder

end MiniJava.Json
