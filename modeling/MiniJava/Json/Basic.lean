import MiniJava.Json.Number

/-!
# JSON values

A `Json` is what can be read off a text, also when the text is not JSON all the way: reading keeps
what stands before the first malformed place and marks where it stopped. A list or object that was
not read up to its closing bracket is not `whole`, and a value that could not be read is `broken`.
So whoever goes through the tree in text order meets the malformed place exactly where it stands.

Members of an object are in text order and may repeat. What stands in the place of a key must be a
string; anything else ends the members of an object that is not whole. A string or key is `none`
when its escapes name no text, as half a surrogate pair does.
-/

namespace MiniJava

inductive Json where
  | null
  | bool (value : Bool)
  | num (value : Json.Number)
  | str (text : Option String)
  | arr (items : List Json) (whole : Bool)
  | obj (members : List (Option String × Json)) (whole : Bool)
  | broken

namespace Json

instance : Inhabited Json := ⟨null⟩

def text (s : String) : Json := str (some s)

def nat (n : Nat) : Json := num (.ofNat n)

def int (i : Int) : Json := num (.ofInt i)

/-- A whole list. -/
def list (items : List Json) : Json := arr items true

/-- A whole object. -/
def record (members : List (String × Json)) : Json :=
  obj (members.map fun (k, v) => (some k, v)) true

/-- A whole object with one member. -/
def tagged (tag : String) (value : Json) : Json := record [(tag, value)]

/-- `null` for nothing. -/
def option {α : Type} (f : α → Json) : Option α → Json
  | none => null
  | some a => f a

end Json

end MiniJava
