import MiniJava.Assembly.Listing
import Mathlib.Data.List.Forall2

/-!
# Descriptors can be told apart

The descriptors of parameters are written one after the other, with nothing between them. What is
written first in a descriptor tells what kind it is, and the path of a class ends with the next
semicolon. So where paths have no semicolons of their own, a descriptor is read off a longer text in
one way only (`Descriptor.text_append_inj`).

**Theorem** (`descriptors_decodable`). Lists of types with the same text have as many members, with
the same descriptors in order. The line of a call and the heading of a method therefore fix the
number of parameters and the descriptor of each.
-/

namespace MiniJava

open Ir Assembly

/-- Where a letter occurs in neither of the texts before it, it parts both in the same way. -/
theorem append_cons_inj_of_not_mem {α : Type} {x : α} {a b r s : List α} (ha : x ∉ a) (hb : x ∉ b)
    (h : a ++ x :: r = b ++ x :: s) : a = b ∧ r = s := by
  induction a generalizing b with
  | nil =>
    cases b with
    | nil => exact ⟨rfl, (List.cons.inj h).2⟩
    | cons y b =>
      obtain ⟨rfl, -⟩ := List.cons.inj h
      exact absurd (List.mem_cons_self ..) hb
  | cons y a ih =>
    cases b with
    | nil =>
      obtain ⟨rfl, -⟩ := List.cons.inj h
      exact absurd (List.mem_cons_self ..) ha
    | cons z b =>
      obtain ⟨rfl, hrest⟩ := List.cons.inj h
      obtain ⟨rfl, rfl⟩ :=
        ih (List.not_mem_of_not_mem_cons ha) (List.not_mem_of_not_mem_cons hb) hrest
      exact ⟨rfl, rfl⟩

namespace Assembly.Descriptor

/-! ## One descriptor -/

/-- The path in the descriptor has no semicolon, so it ends with the first one. -/
def Delimited : Descriptor → Prop
  | int | bool | void => True
  | object path => ';' ∉ path.toList
  | array e => e.Delimited

theorem toList_text_object (path : String) :
    (object path).text.toList = 'L' :: (path.toList ++ [';']) := by
  show ("L" ++ path ++ ";").toList = _
  rw [String.toList_append, String.toList_append]
  rfl

theorem toList_text_array (e : Descriptor) : (array e).text.toList = '[' :: e.text.toList := by
  rw [text, String.toList_append]
  rfl

/-- The letter a descriptor begins with. -/
def initial : Descriptor → Char
  | int => 'I'
  | bool => 'Z'
  | void => 'V'
  | object _ => 'L'
  | array _ => '['

theorem head?_text_append (d : Descriptor) (r : List Char) :
    (d.text.toList ++ r).head? = some d.initial := by
  cases d with
  | int | bool | void => rfl
  | object path => rw [toList_text_object]; rfl
  | array e => rw [toList_text_array]; rfl

theorem initial_eq {d d' : Descriptor} {r r' : List Char}
    (h : d.text.toList ++ r = d'.text.toList ++ r') :
    d.initial = d'.initial := by
  have hhead := congrArg List.head? h
  rw [head?_text_append, head?_text_append] at hhead
  exact Option.some.inj hhead

/-- **Descriptors form a prefix code.** A text that begins with a descriptor begins with no other
one. -/
theorem text_append_inj {d d' : Descriptor} (hd : d.Delimited) (hd' : d'.Delimited)
    {r r' : List Char} (h : d.text.toList ++ r = d'.text.toList ++ r') : d = d' ∧ r = r' := by
  induction d generalizing d' with
  -- The initials leave only the cases in which both descriptors are of one kind.
  | int | bool | void =>
    have hinitial := initial_eq h
    cases d' <;> simp [initial] at hinitial
    exact ⟨rfl, (List.cons.inj h).2⟩
  | object path =>
    have hinitial := initial_eq h
    cases d' with
    | object path' =>
      rw [toList_text_object, toList_text_object] at h
      have hpaths := (List.cons.inj h).2
      rw [List.append_eq, List.append_eq, List.append_assoc, List.append_assoc] at hpaths
      obtain ⟨hpath, hrest⟩ := append_cons_inj_of_not_mem hd hd' hpaths
      exact ⟨congrArg object (String.toList_inj.1 hpath), hrest⟩
    | _ => simp [initial] at hinitial
  | array e ih =>
    have hinitial := initial_eq h
    cases d' with
    | array e' =>
      have he' : e'.Delimited := hd'
      rw [toList_text_array, toList_text_array] at h
      obtain ⟨rfl, hrest⟩ := ih hd he' (List.cons.inj h).2
      exact ⟨rfl, hrest⟩
    | _ => simp [initial] at hinitial

/-! ## Descriptors in a row -/

/-- No descriptor begins the text. -/
def BeginsNone (r : List Char) : Prop :=
  ∀ (d : Descriptor) (s : List Char), r ≠ d.text.toList ++ s

theorem beginsNone_of_head? {r : List Char} (h : ∀ d : Descriptor, r.head? ≠ some d.initial) :
    BeginsNone r := by
  intro d s hr
  have hhead := congrArg List.head? hr
  rw [head?_text_append] at hhead
  exact h d hhead

theorem beginsNone_nil : BeginsNone [] :=
  beginsNone_of_head? fun d => by simp

theorem beginsNone_close (r : List Char) : BeginsNone (')' :: r) :=
  beginsNone_of_head? fun d => by cases d <;> simp [initial]

theorem toList_texts_cons (d : Descriptor) (ds : List Descriptor) :
    (texts (d :: ds)).toList = d.text.toList ++ (texts ds).toList := by
  rw [texts, List.map_cons, String.join_cons, String.toList_append]
  rfl

/-- A row of descriptors is read off a text up to what no descriptor begins. -/
theorem texts_append_inj {ds ds' : List Descriptor} (hds : ∀ d ∈ ds, d.Delimited)
    (hds' : ∀ d ∈ ds', d.Delimited) {r r' : List Char} (hr : BeginsNone r) (hr' : BeginsNone r')
    (h : (texts ds).toList ++ r = (texts ds').toList ++ r') : ds = ds' ∧ r = r' := by
  induction ds generalizing ds' with
  | nil =>
    cases ds' with
    | nil => exact ⟨rfl, h⟩
    | cons d' ds' =>
      rw [toList_texts_cons, List.append_assoc] at h
      exact absurd h (hr d' _)
  | cons d ds ih =>
    cases ds' with
    | nil =>
      rw [toList_texts_cons, List.append_assoc] at h
      exact absurd h.symm (hr' d _)
    | cons d' ds' =>
      rw [toList_texts_cons, toList_texts_cons, List.append_assoc, List.append_assoc] at h
      rw [List.forall_mem_cons] at hds hds'
      obtain ⟨rfl, hothers⟩ := text_append_inj hds.1 hds'.1 h
      obtain ⟨rfl, hrest⟩ := ih hds.2 hds'.2 hothers
      exact ⟨rfl, hrest⟩

theorem texts_inj {ds ds' : List Descriptor} (hds : ∀ d ∈ ds, d.Delimited)
    (hds' : ∀ d ∈ ds', d.Delimited) : texts ds = texts ds' ↔ ds = ds' := by
  constructor
  · intro h
    exact (texts_append_inj hds hds' beginsNone_nil beginsNone_nil (by rw [h])).1
  · intro h
    rw [h]

/-- The descriptor of a method: those of its parameters in brackets, and that of its result. -/
def ofMethod (params : List Descriptor) (result : Descriptor) : String :=
  s!"({texts params}){result.text}"

theorem toList_ofMethod (params : List Descriptor) (result : Descriptor) :
    (ofMethod params result).toList =
      '(' :: ((texts params).toList ++ ')' :: result.text.toList) := by
  show ("(" ++ texts params ++ ")" ++ result.text).toList = _
  rw [String.toList_append, String.toList_append, String.toList_append, List.append_assoc,
    List.append_assoc]
  rfl

theorem ofMethod_inj {ds ds' : List Descriptor} (hds : ∀ d ∈ ds, d.Delimited)
    (hds' : ∀ d ∈ ds', d.Delimited) (r r' : Descriptor) :
    ofMethod ds r = ofMethod ds' r' ↔ ds = ds' ∧ r.text = r'.text := by
  constructor
  · intro h
    have hletters := congrArg String.toList h
    rw [toList_ofMethod, toList_ofMethod] at hletters
    obtain ⟨hparams, hresult⟩ := texts_append_inj hds hds' (beginsNone_close _) (beginsNone_close _)
      (List.cons.inj hletters).2
    exact ⟨hparams, String.toList_inj.1 (List.cons.inj hresult).2⟩
  · rintro ⟨rfl, hresult⟩
    rw [ofMethod, ofMethod, hresult]

end Assembly.Descriptor

/-! ## The types of a unit -/

/-- The path of the class that the type is made of has no semicolon. -/
def Ir.ClassUnit.HasPlainPath (u : ClassUnit) : Ty → Prop
  | .cls name => ';' ∉ (u.classPath name).toList
  | .array e => u.HasPlainPath e
  | .int | .bool | .str | .void => True

instance Ir.ClassUnit.decidableHasPlainPath (u : ClassUnit) :
    (t : Ty) → Decidable (u.HasPlainPath t)
  | .cls name => inferInstanceAs (Decidable (';' ∉ (u.classPath name).toList))
  | .array e => decidableHasPlainPath u e
  | .int | .bool | .str | .void => .isTrue trivial

theorem Ir.ClassUnit.HasPlainPath.delimited {u : ClassUnit} {t : Ty} (h : u.HasPlainPath t) :
    (u.descriptor t).Delimited := by
  induction t with
  | int | bool | void => trivial
  | str =>
    show ';' ∉ "java/lang/String".toList
    decide
  | cls name => exact h
  | array e ih => exact ih h

theorem Ir.ClassUnit.delimited_of_mem_descriptors {u : ClassUnit} {ts : List Ty}
    (hts : ∀ t ∈ ts, u.HasPlainPath t) : ∀ d ∈ ts.map u.descriptor, d.Delimited := by
  intro d hd
  obtain ⟨t, ht, rfl⟩ := List.mem_map.1 hd
  exact (hts t ht).delimited

namespace Assembly

theorem map_descriptor_eq_iff (u : ClassUnit) (ts ts' : List Ty) :
    ts.map u.descriptor = ts'.map u.descriptor ↔
      List.Forall₂ (fun t t' => u.descriptor t = u.descriptor t') ts ts' := by
  rw [← List.forall₂_eq_eq_eq, List.forall₂_map_left_iff, List.forall₂_map_right_iff]

/-! ## Where descriptors of methods stand -/

theorem text_invoke (kind : CallKind) (owner method : String) (params : List Descriptor)
    (result : Descriptor) :
    (Asm.invoke kind owner method params result).text =
      s!"{kind.mnemonic} {owner}/{method}" ++ Descriptor.ofMethod params result := by
  show s!"{kind.mnemonic} {owner}/{method}({Descriptor.texts params}){result.text}" = _
  simp only [Descriptor.ofMethod, String.append_assoc]

/-- What stands before the descriptor in the heading of a method. -/
def headingStart (m : Method) : String :=
  let static := if m.isStatic then "static " else ""
  s!".method {m.access.keyword}{static}{m.name}"

/-- What stands behind the descriptor in the heading of a method. -/
def headingEnd (limits : Limits) : String :=
  "\n" ++ s!"   .limit stack {limits.stack.toNat}\n   .limit locals {limits.locals.toNat}\n"

theorem heading_eq (u : ClassUnit) (limits : Limits) {m : Method} (hm : m.isConstructor = false) :
    heading u limits m = headingStart m ++
      Descriptor.ofMethod ((m.params.map Symbol.ty).map u.descriptor) (u.descriptor m.returnTy) ++
      headingEnd limits := by
  simp only [heading, hm, headingStart, headingEnd, Descriptor.ofMethod, String.append_assoc,
    List.map_map]
  rfl

/-- **Descriptors are uniquely decodable.** The text of a row of types fixes how many there are and
the descriptor of each, arrays of any depth included. So does the line of a call, and so does the
heading of a method that is not a constructor; both fix the descriptor of the result as well. -/
theorem descriptors_decodable (u : ClassUnit) (ts ts' : List Ty) (hts : ∀ t ∈ ts, u.HasPlainPath t)
    (hts' : ∀ t ∈ ts', u.HasPlainPath t) :
    (Descriptor.texts (ts.map u.descriptor) = Descriptor.texts (ts'.map u.descriptor) ↔
      List.Forall₂ (fun t t' => u.descriptor t = u.descriptor t') ts ts') ∧
    (∀ (kind : CallKind) (owner method : String) (r r' : Descriptor),
      (Asm.invoke kind owner method (ts.map u.descriptor) r).text =
          (Asm.invoke kind owner method (ts'.map u.descriptor) r').text ↔
        List.Forall₂ (fun t t' => u.descriptor t = u.descriptor t') ts ts' ∧ r.text = r'.text) ∧
    (∀ (limits : Limits) (m m' : Method), m.isConstructor = false → m'.isConstructor = false →
      m.access = m'.access → m.isStatic = m'.isStatic → m.name = m'.name →
      m.params.map Symbol.ty = ts → m'.params.map Symbol.ty = ts' →
      (heading u limits m = heading u limits m' ↔
        List.Forall₂ (fun t t' => u.descriptor t = u.descriptor t') ts ts' ∧
          (u.descriptor m.returnTy).text = (u.descriptor m'.returnTy).text)) := by
  -- No path has a semicolon, so each descriptor says by itself where it ends.
  have hds := ClassUnit.delimited_of_mem_descriptors hts
  have hds' := ClassUnit.delimited_of_mem_descriptors hts'
  refine ⟨?texts, ?calls, ?headings⟩
  case texts => rw [Descriptor.texts_inj hds hds', map_descriptor_eq_iff]
  case calls =>
    intro kind owner method r r'
    rw [text_invoke, text_invoke, String.append_right_inj, Descriptor.ofMethod_inj hds hds',
      map_descriptor_eq_iff]
  case headings =>
    intro limits m m' hm hm' haccess hstatic hname hparams hparams'
    have hstart : headingStart m = headingStart m' := by
      rw [headingStart, headingStart, haccess, hstatic, hname]
    rw [heading_eq u limits hm, heading_eq u limits hm', hstart, hparams, hparams',
      String.append_left_inj, String.append_right_inj, Descriptor.ofMethod_inj hds hds',
      map_descriptor_eq_iff]

/-! A kiosk imports `String`, so the name and the type of strings have one descriptor. A class with
the letter of a descriptor for its name does no harm. -/

namespace Kiosk

def unit : ClassUnit where
  name := "I"
  imports := ["java.lang.String", "java.util.List"]

def builtin : List Ty := [.array (.array .str), .cls "I", .int, .cls "List"]

def imported : List Ty := [.array (.array (.cls "String")), .cls "I", .int, .cls "List"]

/-- The two rows are different and have one text, `[[Ljava/lang/String;LI;ILjava/util/List;`, so
their descriptors are the same one by one. -/
theorem descriptors_imported :
    builtin ≠ imported ∧
    Descriptor.texts (builtin.map unit.descriptor) = "[[Ljava/lang/String;LI;ILjava/util/List;" ∧
    List.Forall₂ (fun t t' => unit.descriptor t = unit.descriptor t') builtin imported := by
  have hbuiltin : ∀ t ∈ builtin, unit.HasPlainPath t := by decide
  have himported : ∀ t ∈ imported, unit.HasPlainPath t := by decide
  refine ⟨by decide, by decide, ?_⟩
  exact (descriptors_decodable unit builtin imported hbuiltin himported).1.1 (by decide)

/-- With a semicolon in the name of a class, two types may read as one. -/
example :
    Descriptor.texts ([.cls "A;LB"].map unit.descriptor) =
      Descriptor.texts ([.cls "A", .cls "B"].map unit.descriptor) := by
  decide

end Kiosk

end Assembly

end MiniJava
