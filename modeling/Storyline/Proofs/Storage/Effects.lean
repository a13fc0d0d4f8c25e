import Storyline.Storage.Basic

/-!
# Operations on a storage, step by step

An `Effect` changes a state one step after the other and may fail between any two of them; what was
changed until then stays.  An operation that gives a new state or an error is done by an effect
(`Effect.Does`) if the effect ends in the new state, or fails with the error in the state it started
in: all is changed, or nothing.

The effects below do to a storage in memory what its operations say, one file or directory after the
other.  Each looks first and changes last: nothing fails any more once the first change is made.
-/

namespace Storyline

/-- A computation with a state.  Its changes stay when it fails. -/
abbrev Effect (σ ε : Type) := ExceptT ε (StateM σ)

namespace Effect

variable {σ ε α β : Type} {s t : σ} {r : Except ε (α × σ)}

/-- What an effect ends with. -/
def on (c : Effect σ ε α) (s : σ) : Except ε α × σ := StateT.run (ExceptT.run c) s

/-- Looks at the state, and fails if the look does. -/
def look (f : σ → Except ε α) : Effect σ ε α := fun s => (f s, s)

/-- Fails unless a condition holds. -/
def require (c : Bool) (e : ε) : Effect σ ε Unit := if c then pure () else throw e

/-- Changes the state by each of some values in order. -/
def each (f : σ → β → σ) : List β → Effect σ ε Unit
  | [] => pure ()
  | b :: bs => do
    modify (f · b)
    each f bs

@[simp] theorem on_pure (a : α) (s : σ) : (pure a : Effect σ ε α).on s = (.ok a, s) := rfl

@[simp] theorem on_get (s : σ) : (get : Effect σ ε σ).on s = (.ok s, s) := rfl

@[simp] theorem on_modify (f : σ → σ) (s : σ) :
    (modify f : Effect σ ε Unit).on s = (.ok (), f s) := rfl

@[simp] theorem on_look (f : σ → Except ε α) (s : σ) : (look f).on s = (f s, s) := rfl

@[simp] theorem on_require (c : Bool) (e : ε) (s : σ) :
    (require c e : Effect σ ε Unit).on s = (if c then .ok () else .error e, s) := by
  cases c <;> rfl

theorem on_bind (c : Effect σ ε α) (k : α → Effect σ ε β) (s : σ) :
    (c >>= k).on s = match c.on s with
      | (.ok a, t) => (k a).on t
      | (.error e, t) => (.error e, t) := by
  rw [on, ExceptT.run_bind, StateT.run_bind, ← on]
  obtain ⟨r, t⟩ := c.on s
  cases r <;> rfl

@[simp] theorem on_each (f : σ → β → σ) (bs : List β) (s : σ) :
    (each f bs : Effect σ ε Unit).on s = (.ok (), bs.foldl f s) := by
  induction bs generalizing s with
  | nil => rfl
  | cons b bs ih => simp [each, on_bind, ih]

/-! ## All or nothing -/

/-- How an operation ends that changes all or nothing. -/
def settled (s : σ) : Except ε (α × σ) → Except ε α × σ
  | .ok (a, t) => (.ok a, t)
  | .error e => (.error e, s)

/-- Whether an effect does what an operation says, all of it or nothing. -/
def Does (c : Effect σ ε α) (s : σ) (r : Except ε (α × σ)) : Prop := c.on s = settled s r

theorem Does.get_bind {k : σ → Effect σ ε α} (h : (k s).Does s r) : (get >>= k).Does s r := h

/-- What fails before any change has changed nothing. -/
theorem Does.require_bind {c : Bool} {k : Effect σ ε α} (e : ε) (h : c = true → k.Does s r) :
    (require c e >>= fun _ => k).Does s (if c then r else .error e) := by
  rw [Does, on_bind, on_require]
  cases c with
  | false => rfl
  | true => exact h rfl

/-- What fails after looks only has changed nothing. -/
theorem Does.look_bind {f : σ → Except ε α} {k : α → Effect σ ε β} {q : α → Except ε (β × σ)}
    (h : ∀ a, f s = .ok a → (k a).Does s (q a)) : (look f >>= k).Does s (f s >>= q) := by
  rw [Does, on_bind, on_look]
  cases hf : f s with
  | error e => rfl
  | ok a => exact h a hf

/-- What cannot fail may follow. -/
theorem Does.bind_sure {c : Effect σ ε α} {k : α → Effect σ ε β} {g : α → σ → β × σ}
    (h : c.Does s r) (hk : ∀ a t, (k a).on t = (.ok (g a t).1, (g a t).2)) :
    (c >>= k).Does s (r.map fun p => g p.1 p.2) := by
  rw [Does, on_bind, h]
  cases r with
  | error e => rfl
  | ok p => exact hk p.1 p.2

theorem Does.congr {c : Effect σ ε α} {r' : Except ε (α × σ)} (h : c.Does s r) (heq : r = r') :
    c.Does s r' := heq ▸ h

/-- An effect that fails has changed nothing. -/
theorem Does.eq_of_error {c : Effect σ ε α} (h : c.Does s r) {e : ε} (he : c.on s = (.error e, t)) :
    t = s ∧ r = .error e := by
  rw [h] at he
  cases r with
  | error e' =>
    obtain ⟨he, hs⟩ := Prod.mk.inj he
    exact ⟨hs.symm, congrArg _ (Except.error.inj he)⟩
  | ok p => cases (Prod.mk.inj he).1

end Effect

/-! ## In memory -/

namespace Storage

open Effect (each require)

namespace Memory

variable (m : Memory) (path name text : Bytes)

/-- Finds the place that a path names. -/
def locateSteps (operation path : Bytes) : Effect Memory Error Bytes :=
  match locate? path with
  | none => throw ⟨operation, path, .outsideRoot⟩
  | some place => pure place

/-- Reads a file. -/
def readSteps : Effect Memory Error Bytes := do
  let place ← locateSteps "read" path
  match (← get).file? place with
  | some text => return text
  | none => throw ⟨"read", path, .missing⟩

/-- Gives a file a text. -/
def writeSteps : Effect Memory Error Unit := do
  let place ← locateSteps "write" path
  require ((← get).hasDirectory (parent place)) ⟨"write", path, .missing⟩
  modify (·.putFile place text)

/-- The project without the file at a place. -/
def dropFile (m : Memory) (place : Bytes) : Memory :=
  { m with files := m.files.filter fun f => f.1 != place }

/-- Moves everything inside a directory: takes it away, then puts the files and the directories at
their new places. -/
def moveDirectorySteps (source target : Bytes) : Effect Memory Error Unit := do
  let (moved, stay) := (← get).files.partition fun f => isInside source f.1
  let (movedDirs, stayDirs) := (← get).directories.partition fun d => d = source || isInside source d
  modify ({ · with files := stay })
  modify ({ · with directories := stayDirs })
  each (fun m f => m.putFile (target ++ f.1.drop source.length) f.2) moved
  each (fun m d => m.putDirectory (target ++ d.drop source.length)) movedDirs

/-- Gives an entry another name. -/
def renameSteps : Effect Memory Error (Bytes × Bool) := do
  require (isEntryName name) ⟨"rename", path, .badName name⟩
  let place ← locateSteps "rename" path
  let target := child (parent place) name
  match (← get).file? place with
  | some text =>
    modify (·.dropFile place)
    modify (·.putFile target text)
    return (target, false)
  | none =>
    require ((← get).hasDirectory place && !place.isEmpty) ⟨"rename", path, .missing⟩
    moveDirectorySteps place target
    return (target, true)

/-- Drops a file. -/
def deleteFileSteps : Effect Memory Error Unit := do
  let place ← locateSteps "delete" path
  require ((← get).file? place).isSome ⟨"delete", path, .missing⟩
  modify (·.dropFile place)

/-- Drops a directory: the files inside it, then the directories. -/
def deleteDirectorySteps : Effect Memory Error Unit := do
  let place ← locateSteps "delete" path
  require (!place.isEmpty) ⟨"delete", path, .wholeProject⟩
  require ((← get).hasDirectory place) ⟨"delete", path, .missing⟩
  modify fun m => { m with files := m.files.filter fun f => !isInside place f.1 }
  modify fun m =>
    { m with directories := m.directories.filter fun d => d != place && !isInside place d }

/-- Makes a directory, and then those around it. -/
def makeDirectorySteps : Effect Memory Error Unit := do
  let place ← locateSteps "mkdir" path
  modify (·.putDirectory place)
  each putDirectory (around place)

theorem does_readSteps : (readSteps path).Does m ((m.read path).map (·, m)) := by
  simp only [readSteps, locateSteps, Effect.Does, Effect.on_bind, Memory.read, atPlace]
  cases locate? path with
  | none => rfl
  | some place =>
    dsimp only [Effect.on_pure, Effect.on_get]
    cases m.file? place <;> rfl

theorem does_writeSteps : (writeSteps path text).Does m ((m.write path text).map ((), ·)) := by
  simp only [writeSteps, locateSteps, Effect.Does, Effect.on_bind, Memory.write, atPlace]
  cases locate? path with
  | none => rfl
  | some place =>
    dsimp only [Effect.on_pure, Effect.on_get]
    cases m.hasDirectory (parent place) <;> rfl

theorem on_moveDirectorySteps (source target : Bytes) :
    (moveDirectorySteps source target).on m = (.ok (), m.moveDirectory source target) := by
  simp [moveDirectorySteps, Effect.on_bind, moveDirectory]

theorem does_renameSteps : (renameSteps path name).Does m (m.rename path name) := by
  simp only [renameSteps, locateSteps, Effect.Does, Effect.on_bind, Memory.rename, atPlace]
  cases isEntryName name with
  | false => rfl
  | true =>
    cases locate? path with
    | none => rfl
    | some place =>
      simp only [Effect.on_require, Effect.on_pure, Effect.on_get, if_true]
      cases m.file? place with
      | some text => rfl
      | none =>
        simp only [Effect.on_bind, Effect.on_get, Effect.on_require]
        cases m.hasDirectory place && !place.isEmpty with
        | false => rfl
        | true =>
          simp only [if_true, on_moveDirectorySteps]
          rfl

theorem does_deleteFileSteps : (deleteFileSteps path).Does m ((m.deleteFile path).map ((), ·)) := by
  simp only [deleteFileSteps, locateSteps, Effect.Does, Effect.on_bind, Memory.deleteFile, atPlace]
  cases locate? path with
  | none => rfl
  | some place =>
    dsimp only [Effect.on_pure, Effect.on_get]
    cases m.file? place <;> rfl

theorem does_deleteDirectorySteps :
    (deleteDirectorySteps path).Does m ((m.deleteDirectory path).map ((), ·)) := by
  simp only [deleteDirectorySteps, locateSteps, Effect.Does, Effect.on_bind,
    Memory.deleteDirectory, atPlace]
  cases locate? path with
  | none => rfl
  | some place =>
    simp only [Effect.on_pure, Effect.on_get, Effect.on_require]
    cases place.isEmpty with
    | true => rfl
    | false =>
      simp only [Bool.not_false, if_true]
      cases m.hasDirectory place <;> rfl

theorem does_makeDirectorySteps :
    (makeDirectorySteps path).Does m ((m.makeDirectory path).map ((), ·)) := by
  simp only [makeDirectorySteps, locateSteps, Effect.Does, Effect.on_bind, Memory.makeDirectory,
    atPlace]
  cases locate? path with
  | none => rfl
  | some place =>
    dsimp only [Effect.on_pure, Effect.on_modify]
    exact Effect.on_each ..

end Memory

/-! ## In any storage -/

/-- Runs an effect in memory, and an operation at once on disk. -/
def steps {α : Type} (inMemory : Effect Memory Error α)
    (onDisk : Folder → Except Error α × Folder) : Effect Storage Error α := fun
  | .memory m => (inMemory.on m).map id .memory
  | .folder f => (onDisk f).map id .folder

theorem does_steps {α : Type} {c : Effect Memory Error α} {m : Memory}
    {r : Except Error (α × Memory)} (h : c.Does m r) (onDisk : Folder → Except Error α × Folder) :
    (steps c onDisk).Does (.memory m) (r.map fun p => (p.1, .memory p.2)) := by
  rw [Effect.Does, Effect.on, ExceptT.run, StateT.run, steps, h]
  cases r <;> rfl

end Storage

end Storyline
