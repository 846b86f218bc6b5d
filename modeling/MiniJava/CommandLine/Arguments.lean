import MiniJava.Compilation

/-!
# Arguments of the command line

    build INPUT [-o|--output FILE] [--ir] [--stack-limit N] [--locals-limit N]
    check INPUT
    ir INPUT

A long option takes its value from behind `=` or from the next argument, a short one also from the
rest of its own argument. After `--` no argument is an option. Arguments are read from left to
right, and the first that is wrong, or that asks for help, ends the reading.
-/

namespace MiniJava.CommandLine

/-- Why there is nothing to run. -/
inductive Stop where
  /-- The arguments are wrong. -/
  | refused
  /-- Help was asked for. -/
  | help
deriving DecidableEq

/-- An option of a command; one without `accepts` takes no value. -/
structure Switch where
  long : String
  short : Option Char := none
  accepts : Option (String → Bool) := none

/-- What the arguments of a command have given so far. -/
structure Given where
  input : Option String := none
  /-- The options by their long names, each at most once. -/
  options : List (String × String) := []

namespace Given

/-- The argument that is no option. There is only one, and it is a path. -/
def place (g : Given) (path : String) : Except Stop Given :=
  if g.input.isNone && !path.isEmpty then .ok { g with input := some path } else .error .refused

def placeAll (g : Given) : List String → Except Stop Given
  | [] => .ok g
  | path :: paths => do
    let g ← g.place path
    g.placeAll paths

/-- Sets an option that takes no value. -/
def turnOn (g : Given) (s : Switch) : Except Stop Given :=
  if (g.options.lookup s.long).isSome then .error .refused
  else .ok { g with options := g.options ++ [(s.long, "")] }

/-- Sets an option to a value that it accepts. -/
def setTo (g : Given) (s : Switch) (accepts : String → Bool) (value : String) :
    Except Stop Given :=
  if accepts value && (g.options.lookup s.long).isNone then
    .ok { g with options := g.options ++ [(s.long, value)] }
  else .error .refused

end Given

/-- An argument that starts like an option cannot be a value. -/
def looksLikeOption : List Char → Bool
  | '-' :: _ :: _ => true
  | _ => false

/-- An option that still waits for its value. -/
structure Pending where
  switch : Switch
  accepts : String → Bool

/-- A long option, given without its dashes. -/
def readLong (switches : List Switch) (g : Given) (cs : List Char) :
    Except Stop (Given × Option Pending) :=
  let name := String.ofList (cs.takeWhile (· != '='))
  let attached : Option String :=
    match cs.dropWhile (· != '=') with
    | [] => none
    | _ :: value => some (String.ofList value)
  if name == "help" then .error (if attached.isSome then .refused else .help)
  else
    match switches.find? (·.long == name) with
    | none => .error .refused
    | some s =>
      match s.accepts, attached with
      | none, none => (g.turnOn s).map (·, none)
      | none, some _ => .error .refused
      | some accepts, some value => (g.setTo s accepts value).map (·, none)
      | some accepts, none => .ok (g, some ⟨s, accepts⟩)

/-- A group of short options, given without its dash. -/
def readShort (switches : List Switch) (g : Given) :
    List Char → Except Stop (Given × Option Pending)
  | [] => .ok (g, none)
  | c :: cs =>
    if c == 'h' then .error .help
    else
      match switches.find? (·.short == some c) with
      | none => .error .refused
      | some s =>
        match s.accepts with
        | none => do
          let g ← g.turnOn s
          readShort switches g cs
        | some accepts =>
          match cs with
          | [] => .ok (g, some ⟨s, accepts⟩)
          | '=' :: value => (g.setTo s accepts (String.ofList value)).map (·, none)
          | value => (g.setTo s accepts (String.ofList value)).map (·, none)

/-- One argument other than `--`. -/
def readArgument (switches : List Switch) (g : Given) (arg : String) :
    Except Stop (Given × Option Pending) :=
  match arg.toList with
  | '-' :: '-' :: cs => readLong switches g cs
  | '-' :: c :: cs => readShort switches g (c :: cs)
  | _ => (g.place arg).map (·, none)

def readArguments (switches : List Switch) (g : Given) (pending : Option Pending) :
    List String → Except Stop Given
  | [] => if pending.isSome then .error .refused else .ok g
  | arg :: args =>
    match pending with
    | some p =>
      if looksLikeOption arg.toList then .error .refused
      else do
        let g ← g.setTo p.switch p.accepts arg
        readArguments switches g none args
    | none =>
      if arg == "--" then g.placeAll args
      else do
        let (g, pending) ← readArgument switches g arg
        readArguments switches g pending args

/-! ## Commands -/

inductive Command where
  | build (input : String) (output : Option String) (options : Options)
  | check (input : String)
  | ir (input : String)

def digits? : List Char → Option Nat
  | [] => none
  | cs => if cs.all Char.isDigit then some (Nat.ofDigitChars 10 cs 0) else none

/-- A whole number of 32 bits, with or without a sign. -/
def number? (text : String) : Option UInt32 :=
  let value : Option Nat :=
    match text.toList with
    | '+' :: cs => digits? cs
    | '-' :: cs => (digits? cs).bind fun n => if n == 0 then some 0 else none
    | cs => digits? cs
  value.bind fun n => if n < UInt32.size then some (UInt32.ofNat n) else none

def buildSwitches : List Switch :=
  [{ long := "output", short := some 'o', accepts := some (!·.isEmpty) },
    { long := "ir" },
    { long := "stack-limit", accepts := some fun v => (number? v).isSome },
    { long := "locals-limit", accepts := some fun v => (number? v).isSome }]

def Given.limit (g : Given) (name : String) : UInt32 :=
  ((g.options.lookup name).bind number?).getD 99

/-- The options of a build. -/
def Given.buildOptions (g : Given) : Options where
  limits := { stack := g.limit "stack-limit", locals := g.limit "locals-limit" }
  keepIr := (g.options.lookup "ir").isSome

/-- Reads the arguments of a command and makes the command from them and from its input. -/
def readCommand (switches : List Switch) (args : List String) (make : Given → String → Command) :
    Except Stop Command := do
  let g ← readArguments switches {} none args
  match g.input with
  | some input => .ok (make g input)
  | none => .error .refused

/-- What all the arguments together ask for. -/
inductive Request where
  | run (command : Command)
  | version
  /-- Help on a command, or on all of them. -/
  | help (topic : Option String)
  | refused

/-- A command with its name, for help on it. -/
def Request.of (topic : String) : Except Stop Command → Request
  | .ok c => run c
  | .error .help => help (some topic)
  | .error .refused => refused

def request : List String → Request
  | "build" :: args =>
    .of "build" (readCommand buildSwitches args fun g input =>
      .build input (g.options.lookup "output") g.buildOptions)
  | "check" :: args => .of "check" (readCommand [] args fun _ input => .check input)
  | "ir" :: args => .of "ir" (readCommand [] args fun _ input => .ir input)
  | ["help"] => .help none
  | ["help", topic] =>
    if topic ∈ ["build", "check", "ir", "help"] then .help (some topic) else .refused
  | "--version" :: _ => .version
  | "--help" :: _ => .help none
  | arg :: _ =>
    match arg.toList with
    | '-' :: 'V' :: _ => .version
    | '-' :: 'h' :: _ => .help none
    | _ => .refused
  | [] => .refused

end MiniJava.CommandLine
