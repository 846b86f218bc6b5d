import MiniJava.CommandLine.Run

/-!
# The program

Runs a command on the files of the machine.
-/

namespace MiniJava

/-- The cause behind an error number of the machine, which may come with its sign turned. -/
def FileFault.ofNumber (number : UInt32) (details : String) : FileFault :=
  match min number.toNat (-number).toNat with
  | 2 => .missing
  | 20 => .notFolder
  | 21 => .isFolder
  | 36 => .nameTooLong
  | n => .other s!"{details} (os error {n})"

/-- The cause of a failure of the machine's file system. -/
def FileFault.ofError : IO.Error → FileFault
  | .noFileOrDirectory _ n details | .inappropriateType _ n details | .permissionDenied _ n details
  | .invalidArgument _ n details | .resourceExhausted _ n details | .illegalOperation n details
  | .otherError n details => .ofNumber n details
  | e => .other (toString e)

/-- The disk of the machine. -/
def Disk.machine : Disk IO where
  read path := do
    try
      return textOfBytes (← IO.FS.readBinFile path)
    catch e => return .error (.ofError e)
  write path text := do
    try
      return .ok (← IO.FS.writeFile path text)
    catch e => return .error (.ofError e)

end MiniJava

def main (args : List String) : IO UInt32 := do
  let report ← MiniJava.CommandLine.run MiniJava.Disk.machine args
  (← IO.getStdout).putStr report.out
  (← IO.getStderr).putStr report.err
  return report.code.toUInt32
