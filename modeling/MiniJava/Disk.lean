/-!
# Files

What the compiler needs of a file system: to read the text of a file and to write one. `Disk` leaves
open in which monad that happens, so that commands run on the disk of the machine as well as on a
`Folder` held in memory.
-/

namespace MiniJava

/-- Why a file cannot be read or written. -/
inductive FileFault where
  | missing
  | isFolder
  /-- A part of the path that should be a folder is a file. -/
  | notFolder
  | nameTooLong
  /-- The path holds a zero character. -/
  | zeroInPath
  /-- The bytes of the file are not UTF-8. -/
  | notText
  | other (reason : String)
deriving DecidableEq

def FileFault.message : FileFault → String
  | missing => "No such file or directory (os error 2)"
  | isFolder => "Is a directory (os error 21)"
  | notFolder => "Not a directory (os error 20)"
  | nameTooLong => "File name too long (os error 36)"
  | zeroInPath => "file name contained an unexpected NUL byte"
  | notText => "stream did not contain valid UTF-8"
  | other reason => reason

/-- The text that bytes stand for. -/
def textOfBytes (bytes : ByteArray) : Except FileFault String :=
  match String.fromUTF8? bytes with
  | some text => .ok text
  | none => .error .notText

structure Disk (m : Type → Type) where
  read : String → m (Except FileFault String)
  write : String → String → m (Except FileFault Unit)

/-! ## Folders in memory -/

/-- The files of the current folder and of those inside it, each with the names on the way to it.
Nothing is known of what lies outside. -/
structure Folder where
  files : List (List String × ByteArray) := []

namespace Folder

def file? (f : Folder) (names : List String) : Option ByteArray := f.files.lookup names

/-- Some file lies inside, or it is the folder itself. -/
def isFolder (f : Folder) (names : List String) : Bool :=
  names.isEmpty || f.files.any fun (path, _) => path != names && names.isPrefixOf path

/-- The place that a path leads to. Every name on the way must be that of a folder. -/
def walk (f : Folder) (place : List String) : List String → Except FileFault (List String)
  | [] => .ok place
  | name :: names =>
    if !f.isFolder place then .error (if (f.file? place).isSome then .notFolder else .missing)
    else if name == "." || name == "" then walk f place names
    else if name == ".." then walk f place.dropLast names
    else if 255 < name.utf8ByteSize then .error .nameTooLong
    else walk f (place ++ [name]) names

def place (f : Folder) (path : String) : Except FileFault (List String) :=
  if path.contains (Char.ofNat 0) then .error .zeroInPath
  else if path.isEmpty then .error .missing
  else
    let names := path.splitOn "/"
    if names.head? == some "" && names.any (!·.isEmpty) then .error .missing
    else f.walk [] names

def read (f : Folder) (path : String) : Except FileFault String := do
  let place ← f.place path
  if f.isFolder place then .error .isFolder
  else
    match f.file? place with
    | some bytes => textOfBytes bytes
    | none => .error .missing

/-- A new file may be made in any folder. A path that ends in a slash never names a file. -/
def write (f : Folder) (path text : String) : Except FileFault Folder := do
  let base := String.ofList (path.toList.reverse.dropWhile (· == '/')).reverse
  let place ← f.place (if base.isEmpty then path else base)
  if base != path || f.isFolder place then .error .isFolder
  else .ok { files := (place, text.toUTF8) :: f.files.filter (·.1 != place) }

/-- A folder in memory as a disk. -/
def disk : Disk (StateM Folder) where
  read path := fun f => (f.read path, f)
  write path text := fun f =>
    match f.write path text with
    | .ok g => (.ok (), g)
    | .error e => (.error e, f)

end Folder

end MiniJava
