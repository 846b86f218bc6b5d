import MiniJava.Json.Reader
import MiniJava.Json.Writer

/-!
# What is written can be read

`Json.chars` writes a value and `Json.readValue` reads one off the head of a text.

**Theorem** (`Document.read_render`). A written value that is read again is the same value, and
nothing is left of the text.

Values are read one after the other, so the statement behind it (`Writable.readValue`) has any text
after the value, as long as it does not go on with a number.
-/

namespace MiniJava.Json

/-! ## Strings -/

theorem escaped?_of_escapeLetter? {c letter : Char} (h : escapeLetter? c = some letter) :
    escaped? letter = some c ∧ letter ≠ 'u' := by
  unfold escapeLetter? at h
  split at h <;> cases h <;> decide

theorem hexDigit?_hexDigit {n : Nat} (h : n < 16) : hexDigit? (hexDigit n) = some n := by
  have hall : ∀ n : Fin 16, hexDigit? (hexDigit n) = some n.val := by decide
  exact hall ⟨n, h⟩

theorem hexUnit?_escape {n : Nat} (h : n < 32) :
    hexUnit? '0' '0' (hexDigit (n / 16)) (hexDigit (n % 16)) = some n := by
  have hhigh : hexDigit? (hexDigit (n / 16)) = some (n / 16) := hexDigit?_hexDigit (by omega)
  have hlow : hexDigit? (hexDigit (n % 16)) = some (n % 16) := hexDigit?_hexDigit (by omega)
  have hzero : hexDigit? '0' = some 0 := rfl
  simp only [hexUnit?, hhigh, hlow, hzero, bind, Option.bind]
  congr 1
  omega

theorem escapeLetter?_eq_none {c : Char} (h : escapeLetter? c = none) : c ≠ '"' ∧ c ≠ '\\' := by
  constructor
  · rintro rfl
    cases h
  · rintro rfl
    cases h

/-- What is read for a written character. -/
def pieceOf (c : Char) : Piece :=
  if (escapeLetter? c).isNone && c.toNat < 32 then .unit c.toNat else .char c

theorem readPieces_escape (c : Char) (cs : List Char) :
    readPieces (escape c ++ cs) = (readPieces cs).map fun r => (pieceOf c :: r.1, r.2) := by
  unfold escape pieceOf
  cases hletter : escapeLetter? c with
  | some letter =>
    obtain ⟨hescaped, hu⟩ := escaped?_of_escapeLetter? hletter
    rw [List.cons_append, List.cons_append, List.nil_append, readPieces]
    · rw [hescaped]
      cases readPieces cs <;> rfl
    · intro a b c' d cs' heq _
      exact hu heq
  | none =>
    obtain ⟨hquote, hslash⟩ := escapeLetter?_eq_none hletter
    -- Control characters without a letter are written with four digits, all others as they are.
    by_cases hlow : c.toNat < 32
    · simp only [if_pos hlow, List.cons_append, List.nil_append, readPieces, hexUnit?_escape hlow]
      simp only [Option.isNone_none, hlow, decide_true, Bool.and_true, if_true]
      cases readPieces cs <;> rfl
    · simp only [if_neg hlow, List.cons_append, List.nil_append]
      rw [readPieces, if_neg hlow]
      · simp only [hlow, decide_false, Bool.and_false]
        cases readPieces cs <;> rfl
      · exact hquote
      · intro _ _ _ _ _ heq
        exact absurd heq hslash
      · intro _ _ heq
        exact absurd heq hslash

theorem readPieces_quoted (cs rest : List Char) :
    readPieces (cs.flatMap escape ++ '"' :: rest) = some (cs.map pieceOf, rest) := by
  induction cs with
  | nil => rfl
  | cons c cs ih => rw [List.flatMap_cons, List.append_assoc, readPieces_escape, ih]; rfl

theorem assemble_unit {n : Nat} (h : n < 0xD800) (ps : List Piece) :
    assemble (.unit n :: ps) = (assemble ps).map (Char.ofNat n :: ·) := by
  have hhigh : isHighSurrogate n = false := by simp [isHighSurrogate]; omega
  have hlow : isLowSurrogate n = false := by simp [isLowSurrogate]; omega
  cases ps with
  | nil => simp [assemble, hhigh, hlow]
  | cons p ps => cases p <;> simp [assemble, hhigh, hlow]

theorem assemble_pieceOf (c : Char) (ps : List Piece) :
    assemble (pieceOf c :: ps) = (assemble ps).map (c :: ·) := by
  unfold pieceOf
  split
  · rename_i hunit
    rw [Bool.and_eq_true, decide_eq_true_eq] at hunit
    rw [assemble_unit (by omega), Char.ofNat_toNat]
  · rw [assemble]

theorem assemble_map_pieceOf (cs : List Char) : assemble (cs.map pieceOf) = some cs := by
  induction cs with
  | nil => rfl
  | cons c cs ih => rw [List.map_cons, assemble_pieceOf, ih]; rfl

theorem readString_quote (s : String) (rest : List Char) :
    readString (s.toList.flatMap escape ++ '"' :: rest) = some (some s, rest) := by
  simp only [readString, readPieces_quoted, Option.map_some, assemble_map_pieceOf,
    String.ofList_toList]

theorem quote_append (s : String) (rest : List Char) :
    quote s ++ rest = '"' :: (s.toList.flatMap escape ++ '"' :: rest) := by
  simp [quote]

/-! ## Numbers -/

/-- The text does not go on with a number. -/
def EndsNumber (rest : List Char) : Prop :=
  ∀ c ∈ rest.head?, c.isDigit = false ∧ c ≠ '.' ∧ c ≠ 'e' ∧ c ≠ 'E'

theorem endsNumber_nil : EndsNumber [] := by
  intro c hc
  cases hc

theorem endsNumber_cons {c : Char} {rest : List Char}
    (h : c.isDigit = false ∧ c ≠ '.' ∧ c ≠ 'e' ∧ c ≠ 'E') : EndsNumber (c :: rest) := by
  intro d hd
  cases hd
  exact h

namespace Number

/-- An integer without needless zeros in front. -/
structure IsInteger (n : Number) : Prop where
  whole : isWhole n.whole = true
  digits : ∀ c ∈ n.whole, c.isDigit = true
  fraction : n.fraction = []
  exponent : n.exponent = none

theorem head_toDigits {n : Nat} (h : 0 < n) : ∃ c cs, Nat.toDigits 10 n = c :: cs ∧ c ≠ '0' := by
  induction n using Nat.strongRecOn with
  | _ n ih =>
    by_cases hlt : n < 10
    · have hdigit : ∀ d : Fin 10, 0 < d.val → d.val.digitChar ≠ '0' := by decide
      exact ⟨_, _, Nat.toDigits_of_lt_base hlt, hdigit ⟨n, hlt⟩ h⟩
    · obtain ⟨c, cs, hcs, hc⟩ := ih (n / 10) (by omega) (by omega)
      refine ⟨c, cs ++ [(n % 10).digitChar], ?_, hc⟩
      rw [Nat.toDigits_of_base_le (by decide) (by omega), hcs, List.cons_append]

theorem isWhole_toDigits (n : Nat) : isWhole (Nat.toDigits 10 n) = true := by
  by_cases hn : n = 0
  · rw [hn]
    rfl
  · obtain ⟨c, cs, hcs, hc⟩ := head_toDigits (Nat.pos_of_ne_zero hn)
    rw [hcs, isWhole]
    · exact bne_iff_ne.2 hc
    · intro heq
      exact absurd heq hc

theorem isDigit_toDigits (n : Nat) : ∀ c ∈ Nat.toDigits 10 n, c.isDigit = true :=
  fun _ hc => Nat.isDigit_of_mem_toDigits (by decide) (by decide) hc

theorem isInteger_ofNat (n : Nat) : (ofNat n).IsInteger :=
  ⟨isWhole_toDigits n, isDigit_toDigits n, rfl, rfl⟩

theorem isInteger_ofInt (i : Int) : (ofInt i).IsInteger :=
  ⟨isWhole_toDigits i.natAbs, isDigit_toDigits i.natAbs, rfl, rfl⟩

variable {n : Number}

theorem IsInteger.chars (h : n.IsInteger) :
    n.chars = (if n.negative then ['-'] else []) ++ n.whole := by
  simp [Number.chars, h.fraction, h.exponent]

theorem readFraction_of_endsNumber {rest : List Char} (h : EndsNumber rest) :
    readFraction rest = some ([], rest) := by
  unfold readFraction
  split
  · exact absurd rfl (h _ rfl).2.1
  · rfl

theorem readExponent_of_endsNumber {rest : List Char} (h : EndsNumber rest) :
    readExponent rest = some (none, rest) := by
  unfold readExponent
  split
  · exact absurd rfl (h _ rfl).2.2.1
  · exact absurd rfl (h _ rfl).2.2.2
  · rfl

theorem IsInteger.takeWhile (h : n.IsInteger) {rest : List Char} (hrest : EndsNumber rest) :
    (n.whole ++ rest).takeWhile Char.isDigit = n.whole ∧
      (n.whole ++ rest).dropWhile Char.isDigit = rest := by
  rw [List.takeWhile_append_of_pos h.digits, List.dropWhile_append_of_pos h.digits]
  cases rest with
  | nil => simp
  | cons c rest => simp [(hrest c rfl).1]

theorem IsInteger.head (h : n.IsInteger) : ∃ c cs, n.whole = c :: cs ∧ c.isDigit = true := by
  have hwhole := h.whole
  have hdigits := h.digits
  cases hcs : n.whole with
  | nil =>
    rw [hcs] at hwhole
    cases hwhole
  | cons c cs =>
    rw [hcs] at hdigits
    exact ⟨c, cs, rfl, hdigits c (.head _)⟩

/-- The text of an integer starts with a digit or a sign. -/
theorem IsInteger.head_chars (h : n.IsInteger) :
    ∃ c cs, n.chars = c :: cs ∧ (c = '-' ∨ c.isDigit = true) := by
  rw [h.chars]
  cases n.negative with
  | true => exact ⟨'-', n.whole, rfl, .inl rfl⟩
  | false =>
    obtain ⟨c, cs, hcs, hc⟩ := h.head
    exact ⟨c, cs, hcs, .inr hc⟩

theorem IsInteger.readSign (h : n.IsInteger) (rest : List Char) :
    readSign (n.chars ++ rest) = (n.negative, n.whole ++ rest) := by
  rw [h.chars]
  cases n.negative with
  | true => rfl
  | false =>
    obtain ⟨c, cs, hcs, hc⟩ := h.head
    rw [hcs]
    simp only [Bool.false_eq_true, if_false, List.nil_append, List.cons_append]
    unfold Number.readSign
    split
    · rename_i heq
      cases heq
      cases hc
    · rfl

/-- A written integer is read again. -/
theorem IsInteger.read? (h : n.IsInteger) {rest : List Char} (hrest : EndsNumber rest) :
    read? (n.chars ++ rest) = some (n, rest) := by
  obtain ⟨htake, hdrop⟩ := h.takeWhile hrest
  unfold Number.read?
  simp only [h.readSign, htake, hdrop, h.whole, if_true, readFraction_of_endsNumber hrest,
    readExponent_of_endsNumber hrest, bind, Option.bind]
  congr
  · exact h.fraction.symm
  · exact h.exponent.symm

end Number

/-! ## Values -/

/-- The values that have a text: all is whole, strings are known, and numbers are integers. -/
inductive Writable : Json → Prop where
  | null : Writable .null
  | bool (b : Bool) : Writable (.bool b)
  | num {n : Number} (h : n.IsInteger) : Writable (.num n)
  | text (s : String) : Writable (.text s)
  | list {items : List Json} (h : ∀ v ∈ items, Writable v) : Writable (.list items)
  | record {members : List (String × Json)} (h : ∀ m ∈ members, Writable m.2) :
    Writable (.record members)

theorem isBlank_of_number {c : Char} (h : c = '-' ∨ c.isDigit = true) : isBlank c = false := by
  rcases h with rfl | h
  · rfl
  · unfold isBlank
    simp only [Bool.or_eq_false_iff, beq_eq_false_iff_ne]
    refine ⟨⟨⟨?_, ?_⟩, ?_⟩, ?_⟩ <;> (rintro rfl; cases h)

/-- The text of a value neither starts with a blank nor closes a list. -/
theorem Writable.head {v : Json} (h : Writable v) :
    ∃ c cs, v.chars = c :: cs ∧ isBlank c = false ∧ c ≠ ']' := by
  cases h with
  | null => exact ⟨_, _, rfl, rfl, by decide⟩
  | bool b => cases b <;> exact ⟨_, _, rfl, rfl, by decide⟩
  | text s => exact ⟨_, _, rfl, rfl, by decide⟩
  | list h => exact ⟨_, _, rfl, rfl, by decide⟩
  | record h => exact ⟨_, _, rfl, rfl, by decide⟩
  | @num n h =>
    obtain ⟨c, cs, hcs, hc⟩ := h.head_chars
    refine ⟨c, cs, hcs, isBlank_of_number hc, ?_⟩
    rintro rfl
    rcases hc with hc | hc <;> cases hc

theorem skipBlank_cons {c : Char} (h : isBlank c = false) (cs : List Char) :
    skipBlank (c :: cs) = c :: cs := by
  simp [skipBlank, h]

theorem readValue_number {c : Char} (h : c = '-' ∨ c.isDigit = true) (fuel : Nat) (cs : List Char) :
    readValue (fuel + 1) (c :: cs) = readNumber (c :: cs) := by
  rw [readValue, skipBlank_cons (isBlank_of_number h)]
  split
  case h_7 => rfl
  -- Every other value starts with a letter, a quote or a bracket.
  all_goals
    rename_i heq
    cases heq
    rcases h with h | h <;> cases h

/-- Reading gives the value back, whatever follows. The bound is on the steps. -/
def ReadsBack (v : Json) : Prop :=
  ∀ fuel rest, 2 * v.chars.length ≤ fuel → EndsNumber rest →
    readValue fuel (v.chars ++ rest) = (v, some rest)

theorem readItems_itemChars {items : List Json} (hne : items ≠ []) (h : ∀ v ∈ items, ReadsBack v)
    {fuel : Nat} {rest : List Char} (hfuel : 2 * (itemChars items).length + 1 ≤ fuel) :
    readItems fuel (itemChars items ++ ']' :: rest) = (items, some rest) := by
  induction items generalizing fuel with
  | nil => exact absurd rfl hne
  | cons v items ih =>
    rw [List.forall_mem_cons] at h
    obtain ⟨fuel, rfl⟩ : ∃ k, fuel = k + 1 := ⟨fuel - 1, by omega⟩
    cases items with
    | nil =>
      rw [itemChars] at hfuel ⊢
      rw [readItems, h.1 fuel _ (by omega) (endsNumber_cons (by decide))]
      rfl
    | cons w items =>
      rw [itemChars, List.length_append, List.length_cons] at hfuel
      rw [itemChars, List.append_assoc, List.cons_append, readItems,
        h.1 fuel _ (by omega) (endsNumber_cons (by decide))]
      simp only [skipBlank_cons (show isBlank ',' = false from rfl)]
      rw [ih (by simp) h.2 (by omega)]

theorem readMembers_memberChars {members : List (String × Json)} (hne : members ≠ [])
    (h : ∀ m ∈ members, ReadsBack m.2) {fuel : Nat} {rest : List Char}
    (hfuel : 2 * (memberChars (members.map fun m => (some m.1, m.2))).length + 1 ≤ fuel) :
    readMembers fuel (memberChars (members.map fun m => (some m.1, m.2)) ++ '\x7d' :: rest) =
      (members.map fun m => (some m.1, m.2), some rest) := by
  induction members generalizing fuel with
  | nil => exact absurd rfl hne
  | cons m members ih =>
    rw [List.forall_mem_cons] at h
    obtain ⟨fuel, rfl⟩ : ∃ k, fuel = k + 1 := ⟨fuel - 1, by omega⟩
    obtain ⟨key, v⟩ := m
    have hv : ReadsBack v := h.1
    have hquote : ∀ after, skipBlank ('"' :: after) = '"' :: after := skipBlank_cons rfl
    have hcolon : ∀ after, skipBlank (':' :: after) = ':' :: after := skipBlank_cons rfl
    -- The last member is followed by the brace, any other by a comma.
    cases members with
    | nil =>
      simp only [List.map_cons, List.map_nil, memberChars, stringChars, List.length_append,
        List.length_cons] at hfuel
      simp only [List.map_cons, List.map_nil, memberChars, stringChars, List.append_assoc,
        List.cons_append, quote_append, readMembers, hquote, readString_quote, hcolon]
      rw [hv fuel _ (by omega) (endsNumber_cons (by decide))]
      rfl
    | cons m members =>
      have hrest := @ih (by simp) h.2 fuel
      simp only [List.map_cons, memberChars, stringChars, List.length_append,
        List.length_cons] at hfuel hrest
      simp only [List.map_cons, memberChars, stringChars, List.append_assoc,
        List.cons_append, quote_append, readMembers, hquote, readString_quote, hcolon]
      rw [hv fuel _ (by omega) (endsNumber_cons (by decide))]
      simp only [skipBlank_cons (show isBlank ',' = false from rfl)]
      rw [hrest (by omega)]

theorem head_itemChars {v : Json} {items : List Json} (h : ∀ w ∈ v :: items, Writable w) :
    ∃ c cs, itemChars (v :: items) = c :: cs ∧ isBlank c = false ∧ c ≠ ']' := by
  obtain ⟨c, cs, hcs, hc⟩ := (h v (.head _)).head
  cases items with
  | nil => exact ⟨c, cs, hcs, hc⟩
  | cons w items => exact ⟨c, cs ++ ',' :: itemChars (w :: items), by rw [itemChars, hcs]; rfl, hc⟩

theorem head_memberChars (m : String × Json) (members : List (String × Json)) :
    ∃ cs, memberChars ((m :: members).map fun m => (some m.1, m.2)) = '"' :: cs := by
  cases members <;> exact ⟨_, rfl⟩

/-- Only values that have a text take a step. -/
theorem Writable.readsBack_of_succ {v : Json} (h : Writable v)
    (hread : ∀ fuel rest, 2 * v.chars.length ≤ fuel + 1 → EndsNumber rest →
      readValue (fuel + 1) (v.chars ++ rest) = (v, some rest)) : ReadsBack v := by
  intro fuel rest hfuel hrest
  obtain ⟨c, cs, hcs, -⟩ := h.head
  have hlength : v.chars.length = cs.length + 1 := by rw [hcs, List.length_cons]
  obtain ⟨fuel, rfl⟩ : ∃ k, fuel = k + 1 := ⟨fuel - 1, by omega⟩
  exact hread fuel rest hfuel hrest

theorem record_eq (members : List (String × Json)) :
    record members = obj (members.map fun m => (some m.1, m.2)) true := rfl

/-- A written value is read again, whatever stands behind it. -/
theorem Writable.readsBack {v : Json} (h : Writable v) : ReadsBack v := by
  induction h with
  | null => exact Writable.null.readsBack_of_succ fun _ _ _ _ => rfl
  | bool b =>
    apply (Writable.bool b).readsBack_of_succ
    intro fuel rest _ _
    cases b <;> rfl
  | @num n h =>
    apply (Writable.num h).readsBack_of_succ
    intro fuel rest _ hrest
    obtain ⟨c, cs, hcs, hc⟩ := h.head_chars
    have hread := h.read? hrest
    rw [chars, hcs, List.cons_append] at *
    rw [readValue_number hc, readNumber, hread]
  | text s =>
    apply (Writable.text s).readsBack_of_succ
    intro fuel rest _ _
    rw [Json.text, chars, stringChars, quote_append, readValue, skipBlank_cons rfl]
    simp only [readString_quote]
  | @list items h ih =>
    apply (Writable.list h).readsBack_of_succ
    intro fuel rest hfuel _
    rw [Json.list, chars, List.cons_append, List.append_assoc, List.singleton_append]
    cases items with
    | nil => rfl
    | cons v items =>
      rw [Json.list, chars, List.length_cons, List.length_append] at hfuel
      -- The first character decides that the list is not empty: it is no blank and no closing
      -- bracket.
      obtain ⟨c, cs, hcs, hblank, hclose⟩ := head_itemChars h
      have hitems : readItems fuel (itemChars (v :: items) ++ ']' :: rest) =
          (v :: items, some rest) :=
        readItems_itemChars (List.cons_ne_nil v items) ih (by omega)
      rw [hcs, List.cons_append] at hitems ⊢
      rw [readValue, skipBlank_cons rfl]
      simp only [skipBlank_cons hblank]
      split
      · rename_i heq
        exact absurd (List.cons.inj heq).1 hclose
      · rw [hitems]
        rfl
  | @record members h ih =>
    apply (Writable.record h).readsBack_of_succ
    intro fuel rest hfuel _
    rw [record_eq, chars, List.cons_append, List.append_assoc, List.singleton_append]
    cases members with
    | nil => rfl
    | cons m members =>
      rw [record_eq, chars, List.length_cons, List.length_append] at hfuel
      obtain ⟨cs, hcs⟩ := head_memberChars m members
      have hmembers :=
        @readMembers_memberChars _ (List.cons_ne_nil m members) ih fuel rest (by omega)
      rw [hcs, List.cons_append] at hmembers ⊢
      rw [readValue, skipBlank_cons rfl]
      simp only [skipBlank_cons (show isBlank '"' = false from rfl)]
      split
      · rename_i heq
        cases heq
      · rw [hmembers]
        rfl

theorem Document.read_render {v : Json} (h : Writable v) : Document.read v.render = ⟨v, true⟩ := by
  rw [Document.read, render, String.toList_ofList, Document.ofChars, ← List.append_nil v.chars,
    h.readsBack _ [] (by rw [List.append_nil]; omega) endsNumber_nil]
  rfl

end MiniJava.Json
