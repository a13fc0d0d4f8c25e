import Storyline.Command.Flag
import Storyline.Text.Case

/-!
# Command lines

A command line names a command, perhaps after some flags; the rest are its flags and arguments.
What is not a command is answered with the names that come close.
-/

namespace Storyline.Command

/-! ## Commands -/

/-- What the program can do. -/
inductive Verb where
  | parse
  | diag
  | fix
  | build
  | vars
  | paths
  | watch
  | serve
  /-- Starts a project. -/
  | init
  | version
deriving DecidableEq, Repr, Inhabited

/-- How many arguments a command takes. -/
inductive Arity where
  | none
  | one
  | atMostOne
deriving DecidableEq, Repr, Inhabited

namespace Verb

/-- The commands by name, as they are suggested. -/
def all : List Verb := [build, diag, fix, init, parse, paths, serve, vars, version, watch]

/-- The name of a command. -/
def name : Verb → String
  | parse => "parse"
  | diag => "diag"
  | fix => "fix"
  | build => "build"
  | vars => "vars"
  | paths => "paths"
  | watch => "watch"
  | serve => "serve"
  | init => "init"
  | version => "version"

/-- How many arguments a command takes. -/
def arity : Verb → Arity
  | parse => .one
  | serve | version => .none
  | _ => .atMostOne

/-- The flags that only one command has. -/
def ownFlags : Verb → List Flag
  | parse => [{ name := "format", kind := .text, preset := "json-indent" }]
  | diag => [{ name := "format", kind := .text, preset := "pretty" },
      { name := "no-notes", kind := .switch }, { name := "fullpath", kind := .switch },
      { name := "context", kind := .integer }, { name := "warnings-as-errors", kind := .switch }]
  | fix => [{ name := "all", kind := .switch }, { name := "dry-run", kind := .switch }]
  | build => [{ name := "output", kind := .text, letter := some 'o' },
      { name := "format", kind := .text, preset := "json" },
      { name := "no-cache", kind := .switch }, { name := "cache-dir", kind := .text }]
  | vars => [{ name := "verbose", kind := .switch, letter := some 'v' },
      { name := "json", kind := .switch }]
  | paths => [{ name := "format", kind := .text, preset := "tree" }]
  | watch => [{ name := "debounce", kind := .duration, preset := "150ms" }]
  | version => [{ name := "format", kind := .text, preset := "pretty" }]
  | serve | init => []

end Verb

/-- The name of the program. -/
def programName : Bytes := "storytell"

/-- A command with the program's name before it. -/
def Verb.path (v : Verb) : Bytes := programName ++ " " ++ Bytes.ofString v.name

/-- The flags that all commands have. -/
def commonFlags : List Flag :=
  [{ name := "color", kind := .text, preset := "auto" }, { name := "quiet", kind := .switch },
    { name := "timings", kind := .switch }, { name := "max-diagnostics", kind := .integer },
    { name := "trace", kind := .text }, { name := "trace-level", kind := .text, preset := "off" },
    { name := "trace-format", kind := .text, preset := "text" },
    { name := "trace-ring-size", kind := .integer }, { name := "cpuprofile", kind := .text },
    { name := "memprofile", kind := .text }, { name := "runtime-trace", kind := .text }]

/-- The flag that asks for help. -/
def helpFlag : Flag := { name := "help", kind := .switch, letter := some 'h' }

/-- The flag of the program itself that asks for its version. -/
def versionFlag : Flag := { name := "version", kind := .switch, letter := some 'v' }

/-- All flags of a command. -/
def Verb.flags (v : Verb) : List Flag := v.ownFlags ++ commonFlags ++ [helpFlag]

/-! ## Finding the command -/

/-- Whether an argument is a flag whose value is the next argument, as far as it shows. -/
def takesNext (flags : List Flag) (arg : Bytes) : Bool :=
  let isSwitch (f : Option Flag) : Bool := f.any Flag.isSwitch
  !arg.contains ('=' : UInt8) &&
    match arg with
    | 0x2D :: 0x2D :: name => !isSwitch (Flag.named? flags name)
    | [0x2D, b] => !isSwitch (Flag.lettered? flags b)
    | _ => false

/-- Whether an argument looks like a flag. -/
def looksLikeFlag (arg : Bytes) : Bool := arg.head? = some ('-' : UInt8)

/-- The arguments that are not flags or their values. -/
def plainArgs (flags : List Flag) : List Bytes → List Bytes
  | [] => []
  | arg :: rest =>
    if arg = ("--" : Bytes) then []
    else if takesNext flags arg then
      match rest with
      | [] | [_] => []
      | _ :: rest => plainArgs flags rest
    else if arg.isEmpty || looksLikeFlag arg then plainArgs flags rest
    else arg :: plainArgs flags rest

/-- Arguments without the first plain one that is `word`. -/
def withoutFirst (flags : List Flag) (word : Bytes) : List Bytes → List Bytes
  | [] => []
  | arg :: rest =>
    if arg = ("--" : Bytes) then arg :: rest
    else if takesNext flags arg then
      match rest with
      | [] => [arg]
      | value :: rest => arg :: value :: withoutFirst flags word rest
    else if arg = word && !looksLikeFlag arg then rest
    else arg :: withoutFirst flags word rest

/-! ## Suggestions -/

/-- One row of the table of distances between the beginnings of two words; `corner` is the entry
above and to the left, `left` the one to the left. -/
def distanceRow (b : UInt8) : (corner left : Nat) → Bytes → List Nat → List Nat
  | corner, left, c :: word, above :: row =>
    let here := if b = c then corner else 1 + min corner (min left above)
    here :: distanceRow b above here word row
  | _, _, _, _ => []

/-- How many bytes have to be put in, taken out or changed to make one word the other. -/
def wordDistance (source target : Bytes) : Nat :=
  let first := List.range (target.length + 1)
  (source.foldl (fun (row : List Nat) b =>
    let start := row.headD 0 + 1
    start :: distanceRow b (row.headD 0) start target (row.drop 1)) first).getLastD 0

/-- How far a suggestion may be from what was typed. -/
def suggestionDistance : Nat := 2

/-- The name of the command that completes command lines. -/
def completionName : String := "completion"

/-- The name of the command that helps. -/
def helpName : String := "help"

/-- The commands whose names come close to what was typed. -/
def suggestions (typed : Bytes) : List String :=
  (Verb.all.map Verb.name ++ [completionName]).filter fun name =>
    wordDistance typed.lowered name ≤ suggestionDistance || typed.lowered.isPrefixOf name

/-! ## Reading a command line -/

/-- Why a command line is not understood. -/
inductive UsageError where
  | unknownCommand (typed : Bytes)
  | flag (e : FlagError)
  /-- An argument for a command that takes none. -/
  | unwanted (v : Verb) (arg : Bytes)
  | tooMany (count : Nat)
  | notOne (count : Nat)
deriving DecidableEq, Repr, Inhabited

/-- The wording of a failure. -/
def UsageError.message : UsageError → Bytes
  | unknownCommand typed =>
    let lines : List Bytes :=
      (suggestions typed).map fun name => "\t" ++ Bytes.ofString name ++ "\n"
    let hint : Bytes := if lines.isEmpty then [] else "\n\nDid you mean this?\n" ++ lines.flatten
    "unknown command " ++ Text.quoted typed ++ " for " ++ Text.quoted programName ++ hint
  | flag e => e.message
  | unwanted v arg => "unknown command " ++ Text.quoted arg ++ " for " ++ Text.quoted v.path
  | tooMany n => "accepts at most 1 arg(s), received " ++ Bytes.ofNat n
  | notOne n => "accepts 1 arg(s), received " ++ Bytes.ofNat n

/-- What a command line asks for. -/
inductive Request where
  | run (verb : Verb) (options : Options) (args : List Bytes)
  | showVersion
  | showHelp
deriving Repr, Inhabited

/-- Whether a command takes so many arguments. -/
def Arity.check (v : Verb) (args : List Bytes) : Except UsageError Unit :=
  match v.arity, args with
  | .none, arg :: _ => .error (.unwanted v arg)
  | .atMostOne, _ :: _ :: _ => .error (.tooMany args.length)
  | .one, args => if args.length = 1 then .ok () else .error (.notOne args.length)
  | _, _ => .ok ()

/-- Reads the flags and arguments of a command. -/
def readCommand (v : Verb) (args : List Bytes) : Except UsageError Request := do
  let (options, args) ← (readArgs { flags := v.flags } args).mapError .flag
  if options.isOn helpFlag.name then return .showHelp
  Arity.check v args
  return .run v options args

/-- Reads flags without a command. -/
def readAlone (args : List Bytes) : Except UsageError Request := do
  let flags := commonFlags ++ [helpFlag, versionFlag]
  let (options, _) ← (readArgs { flags } args).mapError .flag
  if !options.isOn helpFlag.name && options.isOn versionFlag.name then return .showVersion
  return .showHelp

/-- Reads a command line. -/
def readLine (args : List Bytes) : Except UsageError Request :=
  match plainArgs commonFlags args with
  | [] => readAlone args
  | word :: _ =>
    match Verb.all.find? fun v => Bytes.ofString v.name = word with
    | some v => readCommand v (withoutFirst commonFlags word args)
    | none =>
      if word = Bytes.ofString helpName || word = Bytes.ofString completionName then .ok .showHelp
      else .error (.unknownCommand word)

end Storyline.Command
