import MiniJava.Json.Reader

/-!
# Reading makes progress

Whatever a reader returns as the text after a value is shorter than the text it was given
(`length_lt_of_read`). So twice its length bounds the steps that a text needs: any larger number of
steps gives the same tree (`readValue_fuel`), and where a tree is broken the text is at fault, never
the number of steps.
-/

namespace MiniJava.Json

/-! ## Blanks and strings -/

theorem length_skipBlank_le (cs : List Char) : (skipBlank cs).length ≤ cs.length :=
  (List.dropWhile_suffix isBlank).length_le

theorem length_lt_of_readPieces {cs rest : List Char} {ps : List Piece}
    (h : readPieces cs = some (ps, rest)) : rest.length < cs.length := by
  fun_induction readPieces cs generalizing ps rest with
  | case1 => simp at h
  | case2 cs => simp_all
  | case3 a b c d cs ih =>
    simp only [bind, Option.bind_eq_some_iff] at h
    obtain ⟨n, -, ⟨ps', r⟩, hr, he⟩ := h
    cases he
    have := ih hr
    simp only [List.length_cons]
    omega
  | case4 c cs _ ih =>
    simp only [bind, Option.bind_eq_some_iff] at h
    obtain ⟨n, -, ⟨ps', r⟩, hr, he⟩ := h
    cases he
    have := ih hr
    simp only [List.length_cons]
    omega
  | case5 => simp at h
  | case6 c cs _ _ _ _ ih =>
    simp only [bind, Option.bind_eq_some_iff] at h
    obtain ⟨⟨ps', r⟩, hr, he⟩ := h
    cases he
    have := ih hr
    simp only [List.length_cons]
    omega

theorem length_lt_of_readString {cs rest : List Char} {s : Option String}
    (h : readString cs = some (s, rest)) : rest.length < cs.length := by
  obtain ⟨⟨ps, r⟩, hp, he⟩ := Option.map_eq_some_iff.1 h
  cases he
  exact length_lt_of_readPieces hp

/-! ## Numbers -/

namespace Number

theorem length_dropWhile_lt {cs : List Char} (h : cs.takeWhile Char.isDigit ≠ []) :
    (cs.dropWhile Char.isDigit).length < cs.length := by
  have h' := congrArg List.length (List.takeWhile_append_dropWhile (p := Char.isDigit) (l := cs))
  rw [List.length_append] at h'
  have := List.length_pos_iff.2 h
  omega

theorem length_readSign_le (cs : List Char) : (readSign cs).2.length ≤ cs.length := by
  unfold readSign
  split <;> simp

theorem length_le_of_readFraction {cs rest ds : List Char}
    (h : readFraction cs = some (ds, rest)) : rest.length ≤ cs.length := by
  unfold readFraction at h
  split at h
  · rename_i cs
    dsimp only at h
    split at h
    · simp at h
    · cases h
      have := (List.dropWhile_suffix Char.isDigit (l := cs)).length_le
      simp only [List.length_cons]
      omega
  · cases h
    exact Nat.le_refl _

theorem length_le_of_readExponentDigits {cs rest : List Char} {e : Bool × List Char}
    (h : readExponentDigits cs = some (e, rest)) : rest.length ≤ cs.length := by
  unfold readExponentDigits at h
  split at h
  rename_i negative ds hs
  have hle : ds.length ≤ cs.length := by
    split at hs <;> cases hs <;> simp
  dsimp only at h
  split at h
  · simp at h
  · cases h
    exact Nat.le_trans (List.dropWhile_suffix Char.isDigit).length_le hle

theorem length_le_of_readExponent {cs rest : List Char} {e : Option (Bool × List Char)}
    (h : readExponent cs = some (e, rest)) : rest.length ≤ cs.length := by
  unfold readExponent at h
  split at h
  · obtain ⟨⟨d, r⟩, hd, he⟩ := Option.map_eq_some_iff.1 h
    cases he
    exact Nat.le_succ_of_le (length_le_of_readExponentDigits hd)
  · obtain ⟨⟨d, r⟩, hd, he⟩ := Option.map_eq_some_iff.1 h
    cases he
    exact Nat.le_succ_of_le (length_le_of_readExponentDigits hd)
  · cases h
    exact Nat.le_refl _

theorem length_lt_of_read? {cs rest : List Char} {n : Number}
    (h : read? cs = some (n, rest)) : rest.length < cs.length := by
  unfold read? at h
  have hs := length_readSign_le cs
  revert hs h
  generalize readSign cs = p
  obtain ⟨negative, ds⟩ := p
  intro h hs
  dsimp only at h hs
  split at h
  · rename_i hw
    simp only [bind, Option.bind_eq_some_iff] at h
    obtain ⟨⟨fr, r1⟩, hf, ⟨ex, r2⟩, he, heq⟩ := h
    cases heq
    have h1 := length_le_of_readFraction hf
    have h2 := length_le_of_readExponent he
    have h3 : (ds.dropWhile Char.isDigit).length < ds.length := by
      apply length_dropWhile_lt
      intro h0
      simp [h0, isWhole] at hw
    dsimp only at h1 h2 ⊢
    omega
  · simp at h

end Number

theorem length_lt_of_readNumber {cs rest : List Char} {v : Json}
    (h : readNumber cs = (v, some rest)) : rest.length < cs.length := by
  unfold readNumber at h
  split at h
  · rename_i hn
    cases h
    exact Number.length_lt_of_read? hn
  · cases h

/-! ## Values -/

/-- What follows a value, the items of a list or the members of an object is shorter than the text
they stand in. -/
theorem length_lt_of_read (fuel : Nat) :
    (∀ cs rest, (readValue fuel cs).2 = some rest → rest.length < cs.length) ∧
    (∀ cs rest, (readItems fuel cs).2 = some rest → rest.length < cs.length) ∧
    (∀ cs rest, (readMembers fuel cs).2 = some rest → rest.length < cs.length) := by
  -- The three readers call each other with less fuel, so one induction serves for all of them.
  induction fuel with
  | zero => simp [readValue, readItems, readMembers]
  | succ fuel ih =>
    obtain ⟨ihValue, ihItems, ihMembers⟩ := ih
    have hBlank := length_skipBlank_le
    have hString := @length_lt_of_readString
    have hNumber := @length_lt_of_readNumber
    refine ⟨fun cs rest h => ?_, fun cs rest h => ?_, fun cs rest h => ?_⟩
    · rw [readValue] at h
      have := hBlank cs
      split at h <;> grind
    · rw [readItems] at h
      grind
    · rw [readMembers] at h
      split at h
      · rename_i afterQuote hQuote
        split at h
        · grind
        · rename_i key afterKey hKey
          have hc := hBlank cs
          have hk := hString hKey
          split at h
          · rename_i afterColon hColon
            have hs := hBlank afterKey
            split at h
            · grind
            · rename_i v afterValue hValue
              have hv := ihValue afterColon afterValue (by rw [hValue])
              have hb := hBlank afterValue
              split at h <;> grind
          · grind
      · grind

/-- Two numbers of steps that are both large enough give the same tree. -/
theorem read_fuel (fuel : Nat) :
    (∀ other cs, 2 * cs.length < fuel → 2 * cs.length < other →
      readValue fuel cs = readValue other cs) ∧
    (∀ other cs, 2 * cs.length + 1 < fuel → 2 * cs.length + 1 < other →
      readItems fuel cs = readItems other cs) ∧
    (∀ other cs, 2 * cs.length + 1 < fuel → 2 * cs.length + 1 < other →
      readMembers fuel cs = readMembers other cs) := by
  induction fuel with
  | zero => simp
  | succ fuel ih =>
    obtain ⟨ihValue, ihItems, ihMembers⟩ := ih
    have hBlank := length_skipBlank_le
    have hString := @length_lt_of_readString
    -- Two steps are taken at most for each character that is read: an item and the value in it.
    refine ⟨fun other cs h h' => ?_, fun other cs h h' => ?_, fun other cs h h' => ?_⟩ <;>
      obtain ⟨other, rfl⟩ : ∃ k, other = k + 1 := ⟨other - 1, by omega⟩
    · rw [readValue, readValue]
      have := hBlank cs
      split <;> grind
    · have := (length_lt_of_read other).1
      rw [readItems, readItems, ihValue other cs (by omega) (by omega)]
      grind
    · rw [readMembers, readMembers]
      split
      · rename_i afterQuote hQuote
        have hc := hBlank cs
        rw [hQuote, List.length_cons] at hc
        cases hKey : readString afterQuote with
        | none => rfl
        | some p =>
          obtain ⟨key, afterKey⟩ := p
          have hk := hString hKey
          dsimp only
          split
          · rename_i afterColon hColon
            have hs := hBlank afterKey
            rw [hColon, List.length_cons] at hs
            rw [ihValue other afterColon (by omega) (by omega)]
            have hv := (length_lt_of_read other).1 afterColon
            grind
          · rfl
      · rfl

/-- Any number of steps above twice the length of the text gives the same tree. -/
theorem readValue_fuel {fuel : Nat} {cs : List Char} (h : 2 * cs.length < fuel) :
    readValue fuel cs = readValue (2 * cs.length + 1) cs :=
  (read_fuel fuel).1 _ cs h (by omega)

end MiniJava.Json
