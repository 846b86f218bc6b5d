import MiniJava.CommandLine.Arguments
import MiniJava.Disk

/-!
# Running commands

Every command loads a bundle first. Diagnostics, three-address code beside a build and messages
about files go to standard error, the product of the command to standard output or to a file.
-/

namespace MiniJava.CommandLine

/-- What a run leaves on its two outputs, and its exit code. -/
structure Report where
  out : String := ""
  err : String := ""
  code : UInt8 := 0

/-- The code of a run that failed. -/
def failed : UInt8 := 1

/-- The code for arguments that make no sense. -/
def misused : UInt8 := 2

def lines (texts : List String) : String := String.join (texts.map (· ++ "\n"))

/-- Diagnostics with the name of the file they are about. -/
def diagnosticLines (b : Bundle) (path : String) (ds : List Diagnostic) : String :=
  let name := b.displayName path
  match b.source with
  | some _ => lines (ds.map (·.report name))
  | none => lines (ds.map fun d => s!"{name}: {d.text}")

/-- The report of a failed compilation. Semantic errors need no summary. -/
def failure (b : Bundle) (path : String) (e : CompileError) : Report where
  err := diagnosticLines b path e.diagnostics
    ++ match e with
      | .semantic _ => ""
      | e => s!"error: {e.message}\n"
  code := failed

variable {m : Type → Type} [Monad m]

/-- Reads a bundle from a file. -/
def load (disk : Disk m) (path : String) : m (Except CompileError Bundle) := do
  match ← disk.read path with
  | .ok text => pure ((Bundle.load text).run ()).result
  | .error e => pure (.error (.unreadable path e.message))

/-- Loads the bundle of a command and goes on with it. -/
def withBundle (disk : Disk m) (path : String) (next : Bundle → m Report) : m Report := do
  match ← load disk path with
  | .ok b => next b
  | .error e => pure { err := s!"error: {e.message}\n", code := failed }

/-- Delivers the assembly to a file or to standard output, after what is in `err`. -/
def deliver (disk : Disk m) (output : Option String) (err assembly : String) : m Report := do
  match output with
  | none => pure { out := assembly, err }
  | some path =>
    match ← disk.write path assembly with
    | .ok () => pure { err := err ++ s!"Compiled -> {path}\n" }
    | .error e =>
      pure { err := err ++ s!"error: cannot write '{path}': {e.message}\n", code := failed }

def Command.run (disk : Disk m) : Command → m Report
  | build path output options =>
    withBundle disk path fun b => do
      match b.program.compiled b.table options with
      | .ok o =>
        let ir := lines (o.classes.filterMap CompiledClass.ir)
        deliver disk output (diagnosticLines b path o.warnings ++ ir) o.assembly
      | .error e => pure (failure b path e)
  | check path =>
    withBundle disk path fun b => do
      match b.program.checked b.table with
      | .ok a => pure { err := diagnosticLines b path a.warnings ++ s!"OK: {path}\n" }
      | .error e => pure (failure b path e)
  | ir path =>
    withBundle disk path fun b => do
      match b.program.lowered b.table with
      | .ok us => pure { out := lines (us.map Ir.ClassUnit.text) }
      | .error e => pure (failure b path e)

/-! ## Help -/

def usage : String := lines
  ["Type-annotate, lower and assemble Java-subset programs",
    "",
    "Usage: jmmc <COMMAND>",
    "",
    "Commands:",
    "  build  Compile an input bundle to Jasmin assembly",
    "  check  Type-check without lowering",
    "  ir     Print the three-address IR",
    "  help   Print this message or the help of the given subcommand(s)",
    "",
    "Options:",
    "  -h, --help     Print help",
    "  -V, --version  Print version"]

def buildUsage : String := lines
  ["Compile an input bundle to Jasmin assembly",
    "",
    "Usage: jmmc build [OPTIONS] <INPUT>",
    "",
    "Arguments:",
    "  <INPUT>  Input JSON bundle (program, optional symbols and source)",
    "",
    "Options:",
    "  -o, --output <OUTPUT>   Output .j file (default: stdout)",
    "      --ir                Also print the three-address IR of every class",
    "      --stack-limit <N>   Value of `.limit stack` in every method [default: 99]",
    "      --locals-limit <N>  Value of `.limit locals` in every method [default: 99]",
    "  -h, --help              Print help"]

/-- The help on a command with an input and nothing else. -/
def plainUsage (name about : String) : String := lines
  [about,
    "",
    s!"Usage: jmmc {name} <INPUT>",
    "",
    "Arguments:",
    "  <INPUT>  Input JSON bundle (program, optional symbols and source)",
    "",
    "Options:",
    "  -h, --help  Print help"]

def helpOn : Option String → String
  | some "build" => buildUsage
  | some "check" => plainUsage "check" "Type-check without lowering"
  | some "ir" => plainUsage "ir" "Print the three-address IR"
  | some "help" => lines
    ["Print this message or the help of the given subcommand(s)",
      "",
      "Usage: jmmc help [COMMAND]...",
      "",
      "Arguments:",
      "  [COMMAND]...  Print help for the subcommand(s)"]
  | _ => usage

/-- Does what the arguments ask for. -/
def run (disk : Disk m) (args : List String) : m Report :=
  match request args with
  | .run command => command.run disk
  | .version => pure { out := "jmmc 0.1.0\n" }
  | .help topic => pure { out := helpOn topic }
  | .refused => pure { err := usage, code := misused }

end MiniJava.CommandLine
