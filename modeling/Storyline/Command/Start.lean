import Storyline.Command.Project
import Storyline.Outline.Basic
import Storyline.Text.Glyph
import Storyline.Text.Title

/-!
# Starting a project

A new project is a directory with a manifest and a sample story: a short one that shows choices,
diverts, variables and conditions, under a title made from the name of the project.
-/

namespace Storyline.Sample

/-- The title for a project's name: punctuation between words becomes spaces, and words are written
with capitals. -/
def title (name : Bytes) : Bytes :=
  let spaced : Bytes := name.map fun (b : UInt8) =>
    if b = '-' || b = '_' || b = '.' then ' ' else b
  Text.titled (Bytes.join " " spaced.fields)

/-- The sample story for a project's name. -/
def story (name : Bytes) : Bytes :=
  let title := title name
  let root := Outline.canonical title
  "# " ++ title
    ++ "\n\nYou wake up in a quiet room. \x7bvisits = 1\x7d\n\n- Open the door -> " ++ root
    ++ ".hallway\n- Go back to sleep\n    \x7bvisits += 1\x7d\n    -> " ++ root
    ++ "\n\n## Hallway\n\nThe hallway is *dark*. Visit number \x7bvisits\x7d.\n\n"
    ++ "@\x7bvisits > 2\x7d if\n    - Turn back -> " ++ root ++ "\n"

end Storyline.Sample

namespace Storyline.Command

/-- The name of the project in a directory. -/
def projectName (directory : Bytes) : Bytes :=
  let name := (Path.base directory).trimBlank
  if name.isEmpty || name = ("." : Bytes) || name = ("/" : Bytes) then "story" else name

/-- Makes sure that there is a directory. -/
def ensureDirectory (path : Bytes) : Act Unit := do
  match (← get).disk.stat path with
  | .ok .directory => pure ()
  | .ok (.file _) => throw (.notDirectory path)
  | .error e =>
    if e.trouble = .missing then
      Act.makeDirs path (.cannotCreate path)
    else throw (.system e)

/-- Starts a project. -/
def startProject (o : Options) (args : List Bytes) : Act Unit := do
  let directory ← Act.absolute (targetOf args)
  ensureDirectory directory
  let name := projectName directory
  let manifestPath := Path.join [directory, Manifest.fileName]
  if ((← get).disk.stat manifestPath).toBool then throw (.alreadyStarted manifestPath)
  let manifest := Manifest.new name
  Act.writeFile manifestPath manifest.write .cannotWriteManifest
  let entryPath := Path.join [directory, manifest.entry]
  let isNew : Bool := match (← get).disk.stat entryPath with
    | .error e => e.trouble = .missing
    | .ok _ => false
  if isNew then Act.writeFile entryPath (Sample.story name) (.cannotWrite manifest.entry)
  if !o.isOn "quiet" then
    let place := Path.relative (← read).directory directory
    Act.print ("Initialized story project in " ++ place ++ "\n  - " ++ Manifest.fileName
      ++ "\n  - " ++ manifest.entry ++ (if isNew then "\n" else " (existing)\n"))

end Storyline.Command
