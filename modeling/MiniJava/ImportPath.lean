/-!
# Import paths

An import is a dotted path such as `java.util.List`. Inside the program the class is called by the
last segment of the path.
-/

namespace MiniJava

/-- The part of a dotted path after its last dot. -/
def lastSegment (path : String) : String :=
  String.ofList (path.toList.reverse.takeWhile (· != '.')).reverse

/-- The first of the paths whose last segment is `name`. -/
def findImport (paths : List String) (name : String) : Option String :=
  paths.find? fun path => lastSegment path == name

end MiniJava
