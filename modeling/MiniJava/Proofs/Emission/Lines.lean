import MiniJava.Proofs.Emission.ControlFlow
import MiniJava.Proofs.Emission.Descriptors
import MiniJava.Proofs.Emission.Linking
import MiniJava.Proofs.Emission.StackHeight
import MiniJava.Proofs.Emission.StaticMethods

/-!
# The lines of a text

What is known of the instructions of a class holds for the lines that they are written in. A line
with a label, or with a jump to one, is written by no other instruction (`Asm.eq_label_of_line`,
`Asm.jump?_of_line`), since mnemonics are different and the labels of compiled code have no blanks.

* `control_flow_closed_in_text`. In the lines of a method every jump goes to a label that is set in
  one line, and the last line before the end is one of the three returns.
* `own_calls_match_headings`. The line of a call on an object of the class and the heading of what
  it calls have one and the same name with one and the same descriptor in them.
* `KeepsBound.written`. The height of the stack is below the limit that stands in the heading.
-/

namespace MiniJava.Assembly

open Ir

/-! ## Beginnings of texts -/

theorem append_ne_append {p q r s : String} (hp : ¬p.toList <+: q.toList)
    (hq : ¬q.toList <+: p.toList) : p ++ r ≠ q ++ s := by
  intro h
  have hlists := congrArg String.toList h
  rw [String.toList_append, String.toList_append] at hlists
  rcases List.prefix_or_prefix_of_prefix (List.prefix_append p.toList r.toList)
    (hlists ▸ List.prefix_append q.toList s.toList) with h | h
  · exact hp h
  · exact hq h

theorem mem_toList_append_left {ch : Char} {p : String} (h : ch ∈ p.toList) (r : String) :
    ch ∈ (p ++ r).toList := by
  rw [String.toList_append]
  exact List.mem_append_left _ h

/-- The words that jumps begin with. -/
def jumpWords : List String := ["goto ", "ifne ", "if_icmplt "]

namespace Asm

/-- The text of a label is its name with a colon, and no other text is like it: it has a blank, or
does not end in a colon. -/
theorem eq_label_of_text {a : Asm} {l : String} (hl : ' ' ∉ l.toList) (h : a.text = l ++ ":") :
    a = .label l := by
  have hblank : ' ' ∉ a.text.toList := by
    rw [h, String.toList_append, List.mem_append]
    rintro (hmem | hmem)
    · exact hl hmem
    · exact absurd hmem (by decide)
  have hlast : a.text.toList.getLast? = some ':' := by
    rw [h, String.toList_append, List.getLast?_append_of_ne_nil _ (by decide)]
    rfl
  -- A label is the only instruction that ends in a colon and has no blank.
  cases a with
  | label l' =>
    have htext : l' ++ ":" = l ++ ":" := h
    rw [(String.append_left_inj _).1 htext]
  | invoke kind owner method params result =>
    refine absurd ?_ hblank
    simp only [text, String.append_assoc]
    rw [String.toList_append]
    exact List.mem_append_right _ (mem_toList_append_left (by decide) _)
  | ldc | iload | aload | istore | astore | newObject | newRefArray | getfield
  | putfield | goto | ifne | ifIcmplt =>
    refine absurd ?_ hblank
    simp only [text, String.append_assoc]
    exact mem_toList_append_left (by decide) _
  | _ =>
    rw [text] at hlast
    exact absurd hlast (by decide)

/-- An instruction with the text of a jump is that jump. -/
theorem jump?_of_text {a : Asm} {w l : String} (hw : w ∈ jumpWords) (hlabel : a.label? = none)
    (h : a.text = w ++ l) : a.jump? = some l := by
  simp only [jumpWords, List.mem_cons, List.not_mem_nil, or_false] at hw
  cases a with
  | label l' => cases hlabel
  | goto l' =>
    rcases hw with rfl | rfl | rfl
    · exact congrArg some ((String.append_right_inj _).1 h)
    · exact absurd h (append_ne_append (by decide) (by decide))
    · exact absurd h (append_ne_append (by decide) (by decide))
  | ifne l' =>
    rcases hw with rfl | rfl | rfl
    · exact absurd h (append_ne_append (by decide) (by decide))
    · exact congrArg some ((String.append_right_inj _).1 h)
    · exact absurd h (append_ne_append (by decide) (by decide))
  | ifIcmplt l' =>
    rcases hw with rfl | rfl | rfl
    · exact absurd h (append_ne_append (by decide) (by decide))
    · exact absurd h (append_ne_append (by decide) (by decide))
    · exact congrArg some ((String.append_right_inj _).1 h)
  | invoke kind owner method params result =>
    simp only [text, String.append_assoc] at h
    cases kind <;> rcases hw with rfl | rfl | rfl <;>
      exact absurd h (append_ne_append (by decide) (by decide))
  | ldc | iload | aload | istore | astore | newObject | newRefArray | getfield | putfield =>
    simp only [text, String.append_assoc] at h
    rcases hw with rfl | rfl | rfl <;> exact absurd h (append_ne_append (by decide) (by decide))
  | _ =>
    rw [text] at h
    rcases hw with rfl | rfl | rfl <;> exact absurd h.symm (append_ne (by decide))

/-- Only a label may be written with a blank in front. -/
theorem text_ne_blank {a : Asm} (hlabel : a.label? = none) (s : String) : a.text ≠ "   " ++ s := by
  cases a with
  | label l => cases hlabel
  | invoke kind owner method params result =>
    simp only [text, String.append_assoc]
    cases kind <;> exact append_ne_append (by decide) (by decide)
  | ldc | iload | aload | istore | astore | newObject | newRefArray | getfield
  | putfield | goto | ifne | ifIcmplt =>
    simp only [text, String.append_assoc]
    exact append_ne_append (by decide) (by decide)
  | _ =>
    rw [text]
    exact fun h => absurd h.symm (append_ne (by decide))

/-! ## Lines -/

/-- A line is the text of its instruction, with blanks in front unless it ends in a colon. -/
theorem line_cases (a : Asm) :
    a.text.toList.getLast? = some ':' ∧ a.line = a.text ++ "\n" ∨
      a.text.toList.getLast? ≠ some ':' ∧ a.line = "   " ++ a.text ++ "\n" := by
  by_cases h : a.text.toList.getLast? = some ':'
  · exact .inl ⟨h, by simp [line, h]⟩
  · exact .inr ⟨h, by simp [line, h]⟩

theorem getLast?_text_label (l : String) : (label l).text.toList.getLast? = some ':' := by
  show (l ++ ":").toList.getLast? = some ':'
  rw [String.toList_append, List.getLast?_append_of_ne_nil _ (by decide)]
  rfl

theorem line_label (l : String) : (label l).line = l ++ ":\n" := by
  rcases line_cases (label l) with ⟨-, hline⟩ | ⟨hcolon, -⟩
  · rw [hline]
    show l ++ ":" ++ "\n" = _
    rw [String.append_assoc]
    rfl
  · exact absurd (getLast?_text_label l) hcolon

/-- A line with a label is written by that label only. -/
theorem eq_label_of_line {a : Asm} {l : String} (hl : ' ' ∉ l.toList) (h : a.line = l ++ ":\n") :
    a = .label l := by
  have hend : l ++ ":\n" = l ++ ":" ++ "\n" := by
    rw [String.append_assoc]
    rfl
  rcases line_cases a with ⟨-, hline⟩ | ⟨-, hline⟩
  · rw [hline, hend] at h
    exact eq_label_of_text hl ((String.append_left_inj _).1 h)
  · -- The blanks in front would be in the name of the label.
    have hblank : ' ' ∈ a.line.toList := by
      rw [hline, String.append_assoc]
      exact mem_toList_append_left (by decide) _
    rw [h, String.toList_append, List.mem_append] at hblank
    rcases hblank with hmem | hmem
    · exact absurd hmem hl
    · exact absurd hmem (by decide)

/-- A line with a jump is written by that jump only. -/
theorem jump?_of_line {a : Asm} {w l : String} (hw : w ∈ jumpWords)
    (hlabel : ∀ l', a.label? = some l' → ' ' ∉ l'.toList)
    (h : a.line = "   " ++ (w ++ l) ++ "\n") : a.jump? = some l := by
  rcases line_cases a with ⟨-, hline⟩ | ⟨hcolon, hline⟩
  · rw [hline] at h
    have htext := (String.append_left_inj _).1 h
    cases hname : a.label? with
    | none => exact absurd htext (text_ne_blank hname _)
    | some l' =>
      obtain rfl : a = .label l' := by
        cases a <;> cases hname
        rfl
      have hblank : ' ' ∈ (l' ++ ":").toList := by
        rw [show l' ++ ":" = "   " ++ (w ++ l) from htext]
        exact mem_toList_append_left (by decide) _
      rw [String.toList_append, List.mem_append] at hblank
      rcases hblank with hmem | hmem
      · exact absurd hmem (hlabel l' rfl)
      · exact absurd hmem (by decide)
  · rw [hline] at h
    have htext := (String.append_right_inj _).1 ((String.append_left_inj _).1 h)
    cases hname : a.label? with
    | none => exact jump?_of_text hw hname htext
    | some l' =>
      obtain rfl : a = .label l' := by
        cases a <;> cases hname
        rfl
      exact absurd (getLast?_text_label l') hcolon

end Asm

/-- The lines of code. -/
def lines (code : List Asm) : List String := code.map Asm.line

/-- The lines that may end a method. -/
def returnLines : List String := ["   ireturn\n", "   areturn\n", "   return\n"]

/-- Every jump in the lines goes to a label that is set in one of them, and the last line is a
return. -/
structure ClosedLines (ls : List String) : Prop where
  jumps : ∀ w ∈ jumpWords, ∀ l, "   " ++ (w ++ l) ++ "\n" ∈ ls → ls.count (l ++ ":\n") = 1
  ends : ∃ last ∈ returnLines, ls.getLast? = some last

section

variable {code : List Asm}

/-- A label that is set once stands in one line. -/
theorem count_lines_label {l : String} (hl : ' ' ∉ l.toList) :
    (lines code).count (l ++ ":\n") = (labels code).count l := by
  induction code with
  | nil => rfl
  | cons a code ih =>
    have hcons : lines (a :: code) = a.line :: lines code := rfl
    rw [hcons, List.count_cons, ih]
    by_cases ha : a = .label l
    · subst ha
      rw [Asm.line_label]
      simp [labels, Asm.label?]
    · have hline : a.line ≠ l ++ ":\n" := fun h => ha (Asm.eq_label_of_line hl h)
      have hnot : a.label? ≠ some l := by
        intro hsome
        refine ha ?_
        cases a <;> cases hsome
        rfl
      have hlabels : (labels (a :: code)).count l = (labels code).count l := by
        cases hname : a.label? with
        | none => simp [labels, hname]
        | some l' =>
          have hne : l' ≠ l := fun heq => hnot (heq ▸ hname)
          simp [labels, hname, hne]
      simp [hline, hlabels]

theorem line_mem_returnLines {a : Asm} (h : a.isReturn = true) : a.line ∈ returnLines := by
  cases a with
  | ireturn | areturn | ret => decide
  | _ => cases h

/-- Code that stays inside a method is written in lines that do. -/
theorem Confined.closedLines (h : Confined code) (hnodup : (labels code).Nodup)
    (hlabels : ∀ l ∈ labels code, ' ' ∉ l.toList) : ClosedLines (lines code) where
  jumps := by
    intro w hw l hmem
    obtain ⟨a, ha, hline⟩ := List.mem_map.1 hmem
    have hblank : ∀ l', a.label? = some l' → ' ' ∉ l'.toList := fun l' hl' =>
      hlabels l' (List.mem_filterMap.2 ⟨a, ha, hl'⟩)
    have hjump := Asm.jump?_of_line hw hblank hline
    have hl : l ∈ labels code := h.closed (List.mem_filterMap.2 ⟨a, ha, hjump⟩)
    rw [count_lines_label (hlabels l hl)]
    exact List.count_eq_one_of_mem hnodup hl
  ends := by
    obtain ⟨init, last, rfl, hlast⟩ := h.ends
    exact ⟨last.line, line_mem_returnLines hlast, by simp [lines]⟩

end

/-! ## Methods -/

/-- The text of a method with the lines given. -/
def methodText (u : ClassUnit) (limits : Limits) (m : Method) (ls : List String) : String :=
  "\n" ++ heading u limits m ++ String.join ls ++ ".end method\n"

section

variable {u : ClassUnit} {limits : Limits}

theorem join_lines (code : List (List Asm)) :
    String.join (code.map fun k => String.join (lines k)) = String.join (lines code.flatten) := by
  induction code with
  | nil => rfl
  | cons k code ih =>
    rw [List.map_cons, String.join_cons, ih, List.flatten_cons, lines, lines, lines,
      List.map_append, String.join_append]

theorem map_text_blocks {is : List Instr} {code : List (List Asm)} (h : code.length = is.length) :
    (List.zipWith Piece.block is code).map (Piece.text u limits) =
      code.map fun k => String.join (lines k) := by
  induction code generalizing is with
  | nil => rw [List.zipWith_nil_right, List.map_nil, List.map_nil]
  | cons k code ih =>
    cases is with
    | nil => cases h
    | cons i is =>
      rw [List.zipWith_cons_cons, List.map_cons, List.map_cons, ih (Nat.succ.inj h)]
      rfl

theorem text_listing {m : Method} {code : List (List Asm)} (h : code.length = m.code.length) :
    String.join ((listing m code).map (Piece.text u limits)) =
      methodText u limits m (lines code.flatten) := by
  rw [listing, List.map_cons, List.map_append, map_text_blocks h, String.join_cons,
    String.join_append, join_lines, methodText, ← String.append_assoc]
  rfl

/-- The methods of a class with the lines of each. -/
def methodLines (ms : List Method) (codes : List (List (List Asm))) : List (Method × List String) :=
  List.zipWith (fun m code => (m, lines code.flatten)) ms codes

theorem methodLines_cons (m : Method) (ms : List Method) (code : List (List Asm))
    (codes : List (List (List Asm))) :
    methodLines (m :: ms) (code :: codes) = (m, lines code.flatten) :: methodLines ms codes := rfl

/-- What stands before the methods is the text of a class without any. -/
theorem classText_eq (pieces : List Piece) : classText u limits pieces =
    classText u limits [] ++ String.join (pieces.map (Piece.text u limits)) := by
  unfold classText
  generalize String.join (pieces.map (Piece.text u limits)) = rest
  rw [List.map_nil, String.join_nil]
  exact congrArg (· ++ rest) String.append_empty.symm

/-- The methods of a class stand in its text one by one. -/
theorem join_listings {ms : List Method} {codes : List (List (List Asm))}
    (h : List.Forall₂ (fun m code => code.length = m.code.length) ms codes) :
    String.join ((listings ms codes).map (Piece.text u limits)) =
      String.join ((methodLines ms codes).map fun t => methodText u limits t.1 t.2) := by
  induction h with
  | nil =>
    rw [listings, methodLines, List.zipWith_nil_left, List.zipWith_nil_left, List.flatten_nil,
      List.map_nil, List.map_nil]
  | @cons m code ms codes hlen _ ih =>
    have hcons : listings (m :: ms) (code :: codes) = listing m code ++ listings ms codes := rfl
    rw [hcons, List.map_append, String.join_append, ih, text_listing hlen, methodLines_cons,
      List.map_cons, String.join_cons]

end

/-! ## Programs -/

theorem not_mem_numbered {p : String} (hp : ' ' ∉ p.toList) (n : Nat) :
    ' ' ∉ (p ++ toString n).toList := by
  rw [String.toList_append, List.mem_append, Nat.toString_eq_repr, Nat.toList_repr]
  rintro (hmem | hmem)
  · exact hp hmem
  · exact absurd (Nat.isDigit_of_mem_toDigits (by decide) (by decide) hmem) (by decide)

/-- The labels of a compiled class have no blanks. -/
theorem EmittedAll.not_mem_label {u : ClassUnit} {ms : List Method} {n n' : Nat}
    {codes : List (List (List Asm))} (h : EmittedAll u ms n codes n')
    (hms : ∀ l ∈ Ir.labels (ms.flatMap Method.code), ∃ k, LabelOf k l) {l : String}
    (hl : l ∈ labels codes.flatten.flatten) : ' ' ∉ l.toList := by
  rcases List.mem_append.1 (h.labels_perm.2.mem_iff.1 hl) with hown | hcomparison
  · obtain ⟨k, stem, hstem, rfl⟩ := hms l hown
    have hstems : ∀ p ∈ labelStems, ' ' ∉ p.toList := by decide
    exact not_mem_numbered (hstems stem hstem) k
  · obtain ⟨k, rfl | rfl⟩ := mem_comparisonLabels hcomparison
    · exact not_mem_numbered (p := "cmp_true_") (by decide) k
    · exact not_mem_numbered (p := "cmp_end_") (by decide) k

theorem mem_methodLines {ms : List Method} {codes : List (List (List Asm))}
    {t : Method × List String} (h : t ∈ methodLines ms codes) :
    ∃ code ∈ codes, t.2 = lines code.flatten := by
  induction ms generalizing codes with
  | nil => cases h
  | cons m ms ih =>
    cases codes with
    | nil => cases h
    | cons code codes =>
      rcases List.mem_cons.1 h with rfl | h
      · exact ⟨code, List.mem_cons_self .., rfl⟩
      · obtain ⟨code', hmem, ht⟩ := ih h
        exact ⟨code', List.mem_cons_of_mem _ hmem, ht⟩

theorem map_fst_methodLines {P : Method → List (List Asm) → Prop} {ms : List Method}
    {codes : List (List (List Asm))} (h : List.Forall₂ P ms codes) :
    (methodLines ms codes).map Prod.fst = ms := by
  induction h with
  | nil => rfl
  | cons _ _ ih => exact congrArg _ ih

theorem flatMap_snd_methodLines {P : Method → List (List Asm) → Prop} {ms : List Method}
    {codes : List (List (List Asm))} (h : List.Forall₂ P ms codes) :
    (methodLines ms codes).flatMap Prod.snd = lines codes.flatten.flatten := by
  induction h with
  | nil => rfl
  | @cons m code ms codes _ _ ih =>
    rw [methodLines_cons, List.flatMap_cons, ih, List.flatten_cons, List.flatten_append,
      lines, lines, lines, List.map_append]

variable {p : Program} {table : SymbolTable} {a : Annotation} {c : Counters}
  {units : List ClassUnit}

/-- **Control flow is closed in the text.** Let a program be accepted and lowered. The text of every
class consists of its methods, each with a heading, its lines and its end. In the lines of a method
every jump goes to a label that one of them sets, the last of them is a return, and no label is set
twice in the class. -/
theorem control_flow_closed_in_text (h : p.checked table = .ok a)
    (hlow : ((p.lower table a.types).run c).result = .ok units) :
    ∀ u ∈ units, ∀ e : Emitter, e.unit = u → e.text = none →
      ∃ methods : List (Method × List String), methods.map Prod.fst = u.emissionOrder ∧
        e.build.result = .ok (classText u e.limits [] ++
          String.join (methods.map fun t => methodText u e.limits t.1 t.2)) ∧
        (∀ t ∈ methods, ClosedLines t.2) ∧
        ∀ l, ' ' ∉ l.toList → (methods.flatMap Prod.snd).count (l ++ ":\n") ≤ 1 := by
  obtain ⟨c', events, hrun⟩ := Stage.run_of_result hlow
  intro u hu e he hnew
  subst he
  have hunit : Labelled c c' (e.unit.methods.flatMap Method.code) :=
    (Program.lower_labelled hrun).of_sublist (List.sublist_flatten_of_mem (List.mem_map_of_mem hu))
  obtain ⟨codes, n, hemitted, htext⟩ := Emitter.build_of_lower h hlow hu hnew
  have hnodup := hemitted.nodup_labels hunit
  -- Up to here the facts are about instructions; from here on about the lines they are written as.
  have hconfined := hemitted.confined fun m hm =>
    Program.lower_methods_closed (Program.checked_ok_iff.1 h).2 hrun hu (mem_emissionOrder.1 hm)
  refine ⟨methodLines e.unit.emissionOrder codes, map_fst_methodLines hconfined,
    by rw [htext, classText_eq, join_listings hemitted.lengths], ?_, ?_⟩
  · intro t ht
    obtain ⟨code, hcode, hlines⟩ := mem_methodLines ht
    obtain ⟨m, -, -, hmethod⟩ := exists_mem_of_forall₂ hconfined hcode
    have hsub : code.flatten.Sublist codes.flatten.flatten := by
      rw [List.flatten_flatten]
      exact List.sublist_flatten_of_mem (List.mem_map_of_mem hcode)
    have hlabels := hsub.filterMap Asm.label?
    rw [hlines]
    exact hmethod.closedLines (hnodup.sublist hlabels) fun l hl =>
      hemitted.not_mem_label (fun _ => labelOf_of_emissionOrder hunit) (hlabels.subset hl)
  · intro l hl
    rw [flatMap_snd_methodLines hconfined, count_lines_label hl]
    exact List.nodup_iff_count_le_one.1 hnodup l

/-! ## Names with descriptors -/

theorem Descriptor.getLast?_text (d : Descriptor) :
    ∃ ch, d.text.toList.getLast? = some ch ∧ ch ≠ ':' := by
  induction d with
  | int => exact ⟨'I', rfl, by decide⟩
  | bool => exact ⟨'Z', rfl, by decide⟩
  | void => exact ⟨'V', rfl, by decide⟩
  | object path =>
    refine ⟨';', ?_, by decide⟩
    rw [toList_text_object, ← List.cons_append, List.getLast?_concat]
  | array e ih =>
    obtain ⟨ch, hch, hne⟩ := ih
    refine ⟨ch, ?_, hne⟩
    rw [toList_text_array, List.getLast?_cons, hch]
    rfl

/-- The name of a method with its descriptor. -/
def signature (u : ClassUnit) (m : Method) : String :=
  m.name ++ Descriptor.ofMethod ((m.params.map Symbol.ty).map u.descriptor)
    (u.descriptor m.returnTy)

/-- The words that the heading of a method begins with. -/
def headingWords (m : Method) : String :=
  let static := if m.isStatic then "static " else ""
  s!".method {m.access.keyword}{static}"

theorem heading_signature (u : ClassUnit) (limits : Limits) {m : Method}
    (hm : m.isConstructor = false) :
    heading u limits m = headingWords m ++ signature u m ++ headingEnd limits := by
  rw [heading_eq u limits hm, signature, ← String.append_assoc]
  rfl

/-- The line of a call has the signature of what it calls in it. -/
theorem line_invoke (kind : CallKind) (owner : String) (u : ClassUnit) (m : Method) :
    (Asm.invoke kind owner m.name (m.params.map fun q => u.descriptor q.ty)
      (u.descriptor m.returnTy)).line =
      "   " ++ (kind.mnemonic ++ " " ++ owner ++ "/" ++ signature u m) ++ "\n" := by
  have htext : (Asm.invoke kind owner m.name (m.params.map fun q => u.descriptor q.ty)
      (u.descriptor m.returnTy)).text = kind.mnemonic ++ " " ++ owner ++ "/" ++ signature u m := by
    rw [text_invoke, signature, ← String.append_assoc, List.map_map]
    rfl
  rcases Asm.line_cases (.invoke kind owner m.name (m.params.map fun q => u.descriptor q.ty)
    (u.descriptor m.returnTy)) with ⟨hcolon, -⟩ | ⟨-, hline⟩
  · -- The last letter is one of a descriptor.
    obtain ⟨ch, hch, hne⟩ := (u.descriptor m.returnTy).getLast?_text
    have hlast : (Asm.invoke kind owner m.name (m.params.map fun q => u.descriptor q.ty)
        (u.descriptor m.returnTy)).text.toList.getLast? = some ch := by
      rw [text_invoke]
      show (_ ++ (_ ++ (u.descriptor m.returnTy).text)).toList.getLast? = _
      rw [← String.append_assoc, String.toList_append, List.getLast?_append, hch]
      rfl
    exact absurd (Option.some.inj (hlast.symm.trans hcolon)) hne
  · rw [hline, htext]

/-- **Calls and headings have one signature.** In the situation of calls that link, the one call
line of the block and the heading of the method that it calls have the same name with the same
descriptor. -/
theorem own_calls_match_headings {p : Program} {a : Annotation} {c : Counters}
    {units : List ClassUnit} (hclasses : (p.classes.map fun d => d.name.node).Nodup)
    (h : p.checked (.ofProgram p) = .ok a)
    (hlow : ((p.lower (.ofProgram p) a.types).run c).result = .ok units) :
    ∀ u ∈ units, ∃ d ∈ p.classes, d.name.node = u.name ∧
      ∀ e : Emitter, e.unit = u → e.text = none → ∃ codes,
        e.build.result = .ok (classText u e.limits (listings u.emissionOrder codes)) ∧
        ∀ i k made md, Piece.block i k ∈ listings u.emissionOrder codes → i.made? = some made →
          made.kind = .virtual → made.target.ty = .cls u.name →
          md ∈ d.methods → md.name.node = made.method →
          ∃ callee, Piece.heading callee ∈ listings u.emissionOrder codes ∧
            heading u e.limits callee =
              headingWords callee ++ signature u callee ++ headingEnd e.limits ∧
            lines (invokes k) =
              ["   " ++ ("invokevirtual" ++ " " ++ u.name ++ "/" ++ signature u callee) ++
                "\n"] := by
  intro u hu
  obtain ⟨d, hd, hdname, hto, hcls⟩ := Program.exists_class hclasses hlow hu
  refine ⟨d, hd, hdname, ?_⟩
  intro e he hnew
  subst he
  obtain ⟨codes, n, hemitted, htext⟩ := Emitter.build_of_lower h hlow hu hnew
  refine ⟨codes, htext, ?_⟩
  intro i k made md hblock hmade hkind htarget hmd hname
  -- The descriptors agree as data; the two lines are written from the same ones.
  obtain ⟨callee, hheading, hfits, hinvokes⟩ :=
    hemitted.own_object_call h hd hdname hto hcls hblock hmade hkind htarget hmd hname
  refine ⟨callee, hheading, heading_signature e.unit e.limits hfits.isMethod, ?_⟩
  rw [hinvokes, lines, List.map_singleton, line_invoke]
  rfl

/-- The limit that stands in the heading of a method is one that its code keeps to, if no call has
more than 98 arguments. -/
theorem KeepsBound.written {u : ClassUnit} {m : Method} {code : List (List Asm)}
    (h : KeepsBound u m code) (hm : m.isConstructor = false) (hargs : argCount m.code ≤ 98) :
    heading u {} m =
        headingWords m ++ signature u m ++ "\n   .limit stack 99\n   .limit locals 99\n" ∧
      Disciplined 99 (Ir.labels m.code) code := by
  have hend : headingEnd {} = "\n   .limit stack 99\n   .limit locals 99\n" := by decide
  exact ⟨by rw [heading_signature u {} hm, hend], h.standard hargs⟩

end MiniJava.Assembly
