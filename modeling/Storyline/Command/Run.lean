import Storyline.Command.Build
import Storyline.Command.Check
import Storyline.Command.Serve
import Storyline.Command.Start

/-!
# Running a command line

A command is prepared by the options that all commands have, runs, and is brought to an end.  A
command that went well shows its timings if they are wanted; one that failed shows what it told
last.
-/

namespace Storyline.Command

open Trace (Level Style Tracer)

/-! ## Preparing -/

/-- Switches profiling on. -/
def startProfiling (o : Options) : Act Unit := do
  let cpu := o.text "cpuprofile"
  if !cpu.isEmpty then Act.writeFile cpu [] .cpuProfile
  let runtime := o.text "runtime-trace"
  if !runtime.isEmpty then Act.writeFile runtime [] .runtimeTrace
  modify fun st => { st with heapProfile := some (o.text "memprofile") }

/-- The file that a trace goes to; nothing if it is printed. -/
def traceFileOf (path : Bytes) : Option Bytes :=
  if path.isEmpty || path = ("-" : Bytes) then none else some path

/-- Switches tracing on.  A trace with a place to go to is told in phases at least. -/
def startTracing (o : Options) : Act Unit := do
  let path := o.text "trace"
  let level ← match Level.ofName? (o.text "trace-level") with
    | some l => pure (if l = .off && !path.isEmpty then Level.phase else l)
    | none => throw (.traceLevel (o.text "trace-level"))
  let style ← match Style.ofName? (o.text "trace-format") with
    | some s => pure (if (Bytes.ofString ".ndjson").isSuffixOf path then Style.lines else s)
    | none => throw (.traceFormat (o.text "trace-format"))
  if level != .off then
    let file := traceFileOf path
    if let some file := file then Act.writeFile file [] .traceOutput
    let tracer := Tracer.ofLevel level style (o.integer "trace-ring-size")
    let directory := (← read).directory
    modify fun st => { st with tracer, traceFile := file.map (Path.within directory) }

/-- Prepares a command. -/
def prepare (v : Verb) (o : Options) : Act Unit := do
  modify fun st => { st with timer := if o.isOn "timings" then some {} else none }
  let _ ← Act.colored o
  startProfiling o
  startTracing o
  Act.tell [.enter .command v.path]

/-! ## Running -/

/-- Does what a command does. -/
def perform (v : Verb) (o : Options) (args : List Bytes) : Act Unit :=
  match v with
  | .parse => printFile o args
  | .diag => diagnose o args
  | .fix => repair o args
  | .build => build o args
  | .vars => listVariables o args
  | .paths => listPaths o args
  | .watch => watch o args
  | .serve => serve o
  | .init => startProject o args
  | .version => printRelease o

/-- What the program says about its commands. -/
def helpText : Bytes :=
  let lines : List Bytes := Verb.all.map fun v => "  " ++ Bytes.ofString v.name ++ "\n"
  "Usage:\n  storytell [command]\n\nAvailable Commands:\n" ++ lines.flatten

/-! ## Ending -/

/-- Writes the heap profile, and remarks on it if that does not work. -/
def endProfiling : Act Unit := do
  if let some path := (← get).heapProfile then
    if !path.isEmpty then
      match ← Act.attempt (Act.writeFile path [] .system) with
      | .ok _ => pure ()
      | .error e => Act.warn ("prof: heap profile: " ++ e.message ++ "\n")
    modify fun st => { st with heapProfile := none }

/-- Ends profiling and tracing. -/
def close : Act Unit := do
  endProfiling
  if !(← get).going.isEmpty then Act.tell [.leave []]
  modify fun st => { st with tracer := { level := .off }, traceFile := none, going := [] }

/-- Ends a command that went well. -/
def finish (o : Options) : Act Unit := do
  if let some timer := (← get).timer then Act.remark o timer.summary
  close

/-- Shows what was told last, after a failure. -/
def dump : Act Unit := do
  let tracer := (← get).tracer
  if tracer.keepsEvents then Act.warn ("trace: last events\n" ++ tracer.dump)
  close

/-! ## Command lines -/

/-- Does what a command line asks for. -/
def obey (args : List Bytes) : Act Unit := do
  match ← Act.ofExcept .usage (readLine args) with
  | .showVersion =>
    let release : Release := {}
    Act.print (programName ++ " version " ++ release.version ++ "\n")
  | .showHelp => Act.print helpText
  | .run v o args =>
    prepare v o
    perform v o args
    finish o

/-- What a command line led to. -/
structure Result where
  /-- The state when the command ended or failed. -/
  state : State
  failure : Option Failure
  /-- The state after a failure was followed up; the same if there was none. -/
  final : State

/-- Runs a command line on a disk. -/
def run (around : Surroundings) (st : State) (args : List Bytes) : Result :=
  let fresh := { st with out := [], err := [] }
  let (result, st) := (obey args).run around |>.run |>.run fresh
  match result with
  | .ok _ => ⟨st, none, st⟩
  | .error e => ⟨st, some e, (dump.run around |>.run |>.run st).2⟩

end Storyline.Command
