import MiniJava.Ir.Unit
import MiniJava.Proofs.Semantics.StackMachine
import MiniJava.Proofs.Semantics.ThreeAddress

/-!
# Operations at run time

Three-address code names classes and types as the program does. At run time a class goes by its full
name, a type by its descriptor, and integers and references are told apart. This module says which
operation of the machine an operation of the code is (`Ir.Op.runtime`). It knows nothing of the code
that is emitted, so that the two can be compared: the emitter's own way to name a class and to
describe a type is proved to be this one (`classPath_eq_runtimeName`, `descriptor_eq_runtimeType`).
-/

namespace MiniJava

open Assembly

/-! ## Paths -/

/-- The segments of a dotted path. -/
def segments (path : String) : List (List Char) := path.toList.splitOn '.'

/-- The segments of a path with slashes between them. -/
def joinedPath (path : String) : String := String.ofList (['/'].intercalate (segments path))

theorem getLast?_segments (path : String) :
    (segments path).getLast? = some (lastSegment path).toList := by
  rw [segments, lastSegment, String.toList_ofList]
  generalize path.toList = l
  have hsplit : (l.reverse.dropWhile (· != '.')).reverse ++
      (l.reverse.takeWhile (· != '.')).reverse = l := by
    rw [← List.reverse_append, List.takeWhile_append_dropWhile, List.reverse_reverse]
  have hlast : '.' ∉ (l.reverse.takeWhile (· != '.')).reverse := by
    intro hmem
    have hpass := List.all_eq_true.1 List.all_takeWhile '.' (List.mem_reverse.1 hmem)
    cases hpass
  -- Before the last segment there is nothing, or a dot is its end.
  cases hrest : l.reverse.dropWhile (· != '.') with
  | nil =>
    rw [hrest, List.reverse_nil, List.nil_append] at hsplit
    rw [hsplit] at hlast ⊢
    rw [List.splitOn_eq_singleton hlast, List.getLast?_singleton]
  | cons c rest =>
    have hdot : c = '.' := by
      have hhead := List.head?_dropWhile_not (· != '.') l.reverse
      rw [hrest] at hhead
      simpa using hhead
    rw [hrest, hdot, List.reverse_cons, List.append_assoc, List.singleton_append] at hsplit
    have hsegments : l.splitOn '.' =
        rest.reverse.splitOn '.' ++ [(l.reverse.takeWhile (· != '.')).reverse] := by
      rw [← List.splitOn_eq_singleton hlast, ← List.splitOn_append_cons_self, hsplit]
    rw [hsegments, List.getLast?_concat]

theorem joinedPath_eq_slashed (path : String) : joinedPath path = slashed path := by
  rw [joinedPath, segments, slashed]
  congr 1
  induction path.toList with
  | nil => rfl
  | cons c l ih =>
    rw [List.splitOn_cons_eq_if_modifyHead, List.map_cons]
    split
    · rw [List.intercalate_cons_of_ne_nil (List.splitOn_ne_nil '.' l), ih]
      rfl
    · obtain ⟨first, more, hl⟩ := List.exists_cons_of_ne_nil (List.splitOn_ne_nil '.' l)
      rw [hl] at ih ⊢
      rw [List.modifyHead_cons, List.intercalate_cons_cons_left, ih]

namespace Ir

/-! ## Names and types -/

namespace ClassUnit

/-- The name of a class at run time. The class of the unit has the name that it has in the program.
Any other is the one that the first import with its name says, or is not imported. -/
def runtimeName (u : ClassUnit) (name : String) : String :=
  if name = u.name then name
  else
    match u.imports.find? fun path => (segments path).getLast? = some name.toList with
    | some path => joinedPath path
    | none => name

/-- The superclass at run time. Every class has one. -/
def runtimeSuper (u : ClassUnit) : String :=
  (u.superName.map u.runtimeName).getD "java/lang/Object"

def runtimeType (u : ClassUnit) : Ty → Descriptor
  | .int => .int
  | .bool => .bool
  | .str => .object "java/lang/String"
  | .void => .void
  | .cls name => .object (u.runtimeName name)
  | .array e => .array (u.runtimeType e)

theorem classPath_eq_runtimeName (u : ClassUnit) (name : String) :
    u.classPath name = u.runtimeName name := by
  have hsame : u.importPath name =
      u.imports.find? fun path => (segments path).getLast? = some name.toList := by
    simp only [importPath, findImport, getLast?_segments, Option.some_inj, String.toList_inj]
    rfl
  rw [classPath, runtimeName, ← hsame]
  cases u.importPath name with
  | none => simp
  | some path => simp [joinedPath_eq_slashed]

theorem superPath_eq_runtimeSuper (u : ClassUnit) : u.superPath = u.runtimeSuper := by
  rw [superPath, runtimeSuper]
  cases u.superName with
  | none => rfl
  | some name => exact u.classPath_eq_runtimeName name

theorem descriptor_eq_runtimeType (u : ClassUnit) (ty : Ty) :
    u.descriptor ty = u.runtimeType ty := by
  induction ty with
  | int | bool | str | void => rfl
  | cls name => rw [descriptor, runtimeType, classPath_eq_runtimeName]
  | array e ih => rw [descriptor, runtimeType, ih]

end ClassUnit

/-- Booleans are integers at run time. -/
def kindOf : Ty → Kind
  | .int | .bool => .int
  | .str | .void | .cls _ | .array _ => .ref

/-! ## Operations -/

/-- The class that a call in a method goes to: the one of its target, but the constructor of `this`,
when a constructor runs it, is the one of the superclass. A target that is no object has none. -/
def calledClass (u : ClassUnit) (m : Method) (kind : CallKind) (target : Operand) : String :=
  if kind = .special ∧ target.isThis = true ∧ m.isConstructor = true then u.runtimeSuper
  else
    match target.ty with
    | .cls name => u.runtimeName name
    | _ => ""

/-- The items of a new array of the given type. Items that are references have the name of their
class, or else their descriptor. -/
def itemsOf (u : ClassUnit) : Ty → Items
  | .array (.cls name) => .refs (u.runtimeName name)
  | .array e =>
    match kindOf e with
    | .int => .ints
    | .ref => .refs (u.runtimeType e).text
  | _ => .ints

/-- The operation of the machine that an operation of the code is, in a method of a class. -/
def Op.runtime (u : ClassUnit) (m : Method) : Op → Assembly.Op
  | .call kind target method params ty =>
    .call kind (calledClass u m kind target) method (params.map u.runtimeType) (u.runtimeType ty)
  | .newObject c => .newObject (u.runtimeName c)
  | .newArray ty => .newArray (itemsOf u ty)
  | .length => .length
  | .getField x ty => .getField u.name x (u.runtimeType ty)
  | .putField x ty => .putField u.name x (u.runtimeType ty)
  | .readItem ty => .readItem (kindOf ty)
  | .writeItem ty => .writeItem (kindOf ty)

end Ir

end MiniJava
