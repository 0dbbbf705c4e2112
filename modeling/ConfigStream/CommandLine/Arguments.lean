/-!
# Command line arguments

A command line is a command with its operands and options. Options are `--name`, `--name=value`,
`--name value`, `-n`, `-nvalue`, `-n=value` or `-n value`; short ones can be run together, of which
the last may have a value. After `--` everything is an operand, and so is a single `-`. A value that
stands alone must not look like an option, and neither values nor operands may be empty. Arguments
are read from left to right, and the first that is malformed or asks for help or for the version
ends reading.
-/

namespace ConfigStream.CommandLine

/-- Why a command line asks for nothing that can be done. -/
inductive Stop where
  /-- It is malformed. -/
  | usage
  /-- It asks how it should look. -/
  | help
  /-- It asks which program this is. -/
  | version
deriving DecidableEq, Repr

/-- An option of a command. -/
structure OptionSpec where
  name : String
  short : Option Char
  takesValue : Bool
  repeatable : Bool
deriving DecidableEq, Repr

/-- An option that says yes. -/
def flag (name : String) (short : Option Char) : OptionSpec := ⟨name, short, false, false⟩

/-- An option with a value. -/
def valued (name : String) (short : Option Char) : OptionSpec := ⟨name, short, true, false⟩

/-- The options every command has. -/
def standardOptions : List OptionSpec := [flag "help" (some 'h'), flag "version" (some 'V')]

/-- The options, with their values, and the operands read so far, in order. -/
structure Given where
  options : List (String × String) := []
  operands : List String := []
deriving DecidableEq, Repr

namespace Given

/-- The value of an option, empty for one that says yes. -/
def value? (given : Given) (name : String) : Option String := given.options.lookup name

/-- Whether an option is given. -/
def has (given : Given) (name : String) : Bool := (given.value? name).isSome

/-- Add an option. Most options can be given once. -/
def add (given : Given) (spec : OptionSpec) (value : String) : Except Stop Given :=
  if spec.name == "help" then .error .help
  else if spec.name == "version" then .error .version
  else if spec.takesValue && value.isEmpty || !spec.repeatable && given.has spec.name then
    .error .usage
  else .ok { given with options := given.options ++ [(spec.name, value)] }

/-- Add an operand, if there are fewer than `most`. -/
def addOperand (most : Nat) (given : Given) (operand : String) : Except Stop Given :=
  if operand.isEmpty || most ≤ given.operands.length then .error .usage
  else .ok { given with operands := given.operands ++ [operand] }

end Given

/-- Whether an argument looks like an option. -/
def looksLikeOption (argument : String) : Bool :=
  argument.toList.head? == some '-' && argument != "-"

/-- Read short options that are run together. An option whose value is still to come is given
back. -/
def readShort (specs : List OptionSpec) (given : Given) :
    List Char → Except Stop (Given × Option OptionSpec)
  | [] => .ok (given, none)
  | c :: rest =>
    match specs.find? (·.short == some c) with
    | none => .error .usage
    | some spec =>
      if spec.takesValue then
        match rest with
        | [] => .ok (given, some spec)
        | '=' :: value => (given.add spec (String.ofList value)).map (·, none)
        | value => (given.add spec (String.ofList value)).map (·, none)
      else
        match given.add spec "" with
        | .ok given => readShort specs given rest
        | .error stop => .error stop

/-- Read a long option without its dashes. An option whose value is still to come is given back. -/
def readLong (specs : List OptionSpec) (given : Given) (text : List Char) :
    Except Stop (Given × Option OptionSpec) :=
  let name := String.ofList (text.takeWhile (· != '='))
  let value? := match text.dropWhile (· != '=') with
    | [] => none
    | _ :: value => some (String.ofList value)
  match specs.find? (·.name == name), value? with
  | none, _ => .error .usage
  | some spec, some value =>
    if spec.takesValue then (given.add spec value).map (·, none) else .error .usage
  | some spec, none =>
    if spec.takesValue then .ok (given, some spec) else (given.add spec "").map (·, none)

/-- Read arguments after those in `given`, of which the last option may be waiting for its value.
There can be `most` operands; if no number is given, only options are read, and reading ends before
the first operand. What has not been read is given back. -/
def read (specs : List OptionSpec) (most : Option Nat) (given : Given)
    (waiting : Option OptionSpec) : List String → Except Stop (Given × List String)
  | [] => if waiting.isSome then .error .usage else .ok (given, [])
  | argument :: rest =>
    match waiting with
    | some spec =>
      if looksLikeOption argument then .error .usage
      else match given.add spec argument with
        | .ok given => read specs most given none rest
        | .error stop => .error stop
    | none =>
      if looksLikeOption argument then
        match argument.toList with
        | ['-', '-'] =>
          match most with
          | some most => (rest.foldlM (Given.addOperand most) given).map (·, [])
          | none => .error .usage
        | '-' :: '-' :: name =>
          match readLong specs given name with
          | .ok (given, waiting) => read specs most given waiting rest
          | .error stop => .error stop
        | letters =>
          match readShort specs given letters.tail with
          | .ok (given, waiting) => read specs most given waiting rest
          | .error stop => .error stop
      else
        match most with
        | some count =>
          match given.addOperand count argument with
          | .ok given => read specs most given none rest
          | .error stop => .error stop
        | none => .ok (given, argument :: rest)

/-- What to assemble, and where to. -/
structure Assembly where
  database : String
  region : String
  harness : String
  features : String
  output : String
  profile : Option String
  report : Bool
deriving DecidableEq, Repr

/-- What to list, and how. -/
structure Dump where
  bitstream : String
  frames : Option String
  comments : Bool
  hex : Bool
deriving DecidableEq, Repr

/-- What a command line asks for. -/
inductive Invocation where
  | assemble (assembly : Assembly)
  | dump (dump : Dump)
deriving DecidableEq, Repr

namespace Invocation

/-- The options before the command. -/
def commonOptions : List OptionSpec := ⟨"verbose", some 'v', false, true⟩ :: standardOptions

/-- The options of `assemble`. -/
def assembleOptions : List OptionSpec :=
  [valued "profile" (some 'p'), flag "report" none] ++ standardOptions

/-- The options of `dump`. -/
def dumpOptions : List OptionSpec :=
  [valued "frames" (some 'f'), flag "comments" (some 'c'), flag "hex" none] ++ standardOptions

/-- What the arguments after `assemble` ask for. -/
def parseAssemble (arguments : List String) : Except Stop Invocation := do
  let (given, _) ← read assembleOptions (some 5) {} none arguments
  match given.operands with
  | [database, region, harness, features, output] =>
    pure (.assemble ⟨database, region, harness, features, output, given.value? "profile",
      given.has "report"⟩)
  | _ => .error .usage

/-- What the arguments after `dump` ask for. -/
def parseDump (arguments : List String) : Except Stop Invocation := do
  let (given, _) ← read dumpOptions (some 1) {} none arguments
  match given.operands with
  | [bitstream] =>
    pure (.dump ⟨bitstream, given.value? "frames", given.has "comments", given.has "hex"⟩)
  | _ => .error .usage

/-- What the arguments after `help` ask for: at most one command can be explained. -/
def parseHelp (arguments : List String) : Stop :=
  match arguments with
  | [] | ["assemble"] | ["dump"] | ["help"] => .help
  | _ => .usage

/-- Read a command line. -/
def parse (commandLine : List String) : Except Stop Invocation := do
  let (_, rest) ← read commonOptions none {} none commandLine
  match rest with
  | "assemble" :: arguments => parseAssemble arguments
  | "dump" :: arguments => parseDump arguments
  | "help" :: arguments => .error (parseHelp arguments)
  | _ => .error .usage

end Invocation

end ConfigStream.CommandLine
