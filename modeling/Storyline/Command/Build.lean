import Storyline.BuildCache
import Storyline.Command.Listing

/-!
# Building

A build is the compiled form of a whole project.  It is kept in a cache under the digest of the
project, its settings, the format and the version of the program, and a second build of the same
is taken from there.
-/

namespace Storyline.Command

open Storage (SystemError)

/-- The name of the format that is a program. -/
def programFormat : Bytes := "js"

/-! ## The cache -/

/-- The file that holds a build. -/
def entryPath (directory : Bytes) (key : Digest) : Bytes :=
  Path.join [directory, "builds", key.hex ++ ".mp"]

/-- The directory of the cache, made if need be; what is wrong with it is only remarked on. -/
def openCache (o : Options) : Act (Option Bytes) := do
  if o.isOn "no-cache" then return none
  let given := o.text "cache-dir"
  let caches := (← read).caches
  let path := if given.isEmpty then Path.join [caches, programName] else given
  match ← Act.attempt (Act.makeDirs path .system) with
  | .ok _ => return some path
  | .error e =>
    Act.remark o ("cache disabled: open cache: " ++ e.message ++ "\n")
    return none

/-- What is said of an entry that cannot be read. -/
def badEntry (cause : Bytes) : Bytes := "decode cache entry: " ++ cause

/-- The build in a cache, if there is one that can be read. -/
def cachedBuild (directory : Bytes) (key : Digest) : Act (Except Bytes (Option CachedBuild)) := do
  let path := entryPath directory key
  let here := (← read).directory
  match (← get).disk.readFile (Path.within here path) with
  | .error e =>
    let message := (Act.asGiven here path e).message
    if e.trouble = .missing then return .ok none
    else if e.trouble = .isDirectory then return .error (badEntry message)
    else return .error message
  | .ok bytes =>
    match BuildCache.Lookup.ofBytes bytes with
    | .hit b => return .ok (some b)
    | .miss => return .ok none
    | .unreadable e => return .error (badEntry e.message)

/-- Looks a build up; what is wrong with the cache is only remarked on. -/
def lookUpBuild (o : Options) (directory? : Option Bytes) (key : Digest) :
    Act (Option CachedBuild) := do
  match directory? with
  | none => return none
  | some directory =>
    let result ← Act.attempt (Act.measure "cache" do
      match ← cachedBuild directory key with
      | .ok b => return b
      | .error message =>
        Act.remark o ("cache: " ++ message ++ "\n")
        throw (.status 1))
    return result.toOption.join

/-- Keeps a build; what is wrong with the cache is only remarked on. -/
def keepBuild (o : Options) (directory : Bytes) (key : Digest) (b : CachedBuild) : Act Unit := do
  let path := entryPath directory key
  let stored := { b with schema := CachedBuild.currentSchema }.encode
  let result ← Act.attempt do
    Act.makeDirs (Path.dir path) .system
    Act.writeFile path stored .system
  match result with
  | .ok _ => pure ()
  | .error e => Act.remark o ("cache: " ++ e.message ++ "\n")

/-! ## The build -/

/-- Identifies a build by everything it is made from. -/
def buildKey (p : Project) (format : Bytes) : Digest :=
  let release : Release := {}
  .combine p.session.digest [p.manifest.write,
    "max=" ++ Bytes.ofInt p.session.settings.maxDiagnostics, format, release.version]

/-- Compiles a project. -/
def compileProject (p : Project) (format : Bytes) : Act CachedBuild := do
  let s := p.session
  let document ← Act.measure "compile" (pure s.compile)
  let paths := s.contents.map fun (_, b, _) => s.pathOf b
  let errors := (s.allDiagnostics.filter Diagnostic.isError).length
  let output ← Act.measure "encode" (pure (
    match Format.ofName? format with
    | some f => wholeText document f
    | none => s.program {}))
  return { format, output, files := if paths.isEmpty then none else some paths, errors }

/-- Writes a build to a file, or prints it. -/
def writeBuild (path output : Bytes) : Act Unit :=
  if path.isEmpty || path = ("-" : Bytes) then Act.print output
  else Act.writeFile path output (.output path)

/-- Builds a project. -/
def build (o : Options) (args : List Bytes) : Act Unit := do
  let format := o.text "format"
  if format != programFormat && (Format.ofName? format).isNone then throw (.exportFormat format)
  let p ← openProject o (targetOf args)
  let cache ← openCache o
  let key := buildKey p format
  let found ← lookUpBuild o cache key
  let made ← match found with
    | some b => pure b
    | none => do
      let b ← compileProject p format
      if let some directory := cache then keepBuild o directory key b
      pure b
  writeBuild (o.text "output") made.output
  let state : Bytes := if found.isSome then "cached" else "compiled"
  Act.remark o (state ++ " " ++ Bytes.ofNat (made.files.getD []).length ++ " file(s), "
    ++ Bytes.ofInt made.errors ++ " error(s)\n")
  if 0 < made.errors then throw (.status 1)

end Storyline.Command
