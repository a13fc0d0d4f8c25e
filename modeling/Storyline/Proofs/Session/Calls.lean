import Storyline.Proofs.Session.Arena
import Storyline.Proofs.Storage.Effects

/-!
# Calls to a session, step by step

Each call to a session looks at the session, changes its storage, and then changes its blobs and
variables one after the other; it may fail on the way, and what was changed until then would stay.
In memory a call does what the operation of the session says, all of it or nothing
(`does_call`), so that a call that fails leaves the session and its storage as they were
(`failed_call_changes_nothing`).
-/

namespace Storyline.Session

open Effect (look each require)
open Storage (Memory)

/-- A call to a session. -/
abbrev Call := Effect Session Error

variable {s : Session} {id parent : BlobId} {name text : Bytes} {isDirectory : Bool} {m : Memory}

/-! ## Changing the storage -/

/-- Changes the storage of a session. -/
def onStorage {α : Type} (c : Effect Storage Storage.Error α) : Call α := fun s =>
  (ofStorage (c.on s.storage).1, s.withStorage (c.on s.storage).2)

theorem does_onStorage {α : Type} {c : Effect Storage Storage.Error α}
    {r : Except Storage.Error (α × Storage)} (h : c.Does s.storage r) :
    (onStorage c).Does s ((ofStorage r).map fun p => (p.1, s.withStorage p.2)) := by
  rw [Effect.Does, Effect.on, ExceptT.run, StateT.run, onStorage, h]
  cases r <;> rfl

/-- Reads a file. -/
def readSteps (path : Bytes) : Call Bytes :=
  onStorage (Storage.steps (Memory.readSteps path) fun f => (f.read path, f))

/-- Gives a file a text. -/
def writeSteps (path text : Bytes) : Call Unit :=
  onStorage (Storage.steps (Memory.writeSteps path text) fun f =>
    Effect.settled f ((f.write path text).map ((), ·)))

/-- Gives an entry another name. -/
def renameEntrySteps (path name : Bytes) : Call (Bytes × Bool) :=
  onStorage (Storage.steps (Memory.renameSteps path name) fun f =>
    Effect.settled f (f.rename path name))

/-- Drops a file, or a directory with everything inside it. -/
def deleteEntrySteps (path : Bytes) (isDirectory : Bool) : Call Unit :=
  onStorage <|
    if isDirectory then
      Storage.steps (Memory.deleteDirectorySteps path) fun f =>
        Effect.settled f ((f.deleteDirectory path).map ((), ·))
    else
      Storage.steps (Memory.deleteFileSteps path) fun f =>
        Effect.settled f ((f.deleteFile path).map ((), ·))

/-- Makes a file or directory. -/
def makeEntrySteps (path : Bytes) (isDirectory : Bool) : Call Unit :=
  onStorage <|
    if isDirectory then
      Storage.steps (Memory.makeDirectorySteps path) fun f =>
        ((f.makeDirectory path).2.elim (.ok ()) .error, (f.makeDirectory path).1)
    else
      Storage.steps (Memory.writeSteps path []) fun f =>
        Effect.settled f ((f.write path []).map ((), ·))

/-- What an effect does in memory, it does in a session that is kept in memory. -/
theorem does_inMemory {α : Type} (hm : s.storage = .memory m) {c : Effect Memory Storage.Error α}
    {r : Except Storage.Error (α × Memory)} (h : c.Does m r)
    (onDisk : Storage.Folder → Except Storage.Error α × Storage.Folder) :
    (onStorage (Storage.steps c onDisk)).Does s
      ((ofStorage r).map fun p => (p.1, s.withStorage (.memory p.2))) := by
  have hdoes : (Storage.steps c onDisk).Does s.storage (r.map fun p => (p.1, .memory p.2)) := by
    rw [hm]
    exact Storage.does_steps h onDisk
  refine (does_onStorage hdoes).congr ?_
  cases r <;> rfl

section InMemory

variable (hm : s.storage = .memory m) (path : Bytes)
include hm

theorem does_readSteps :
    (readSteps path).Does s ((ofStorage (s.storage.read path)).map (·, s)) := by
  refine (does_inMemory hm (Memory.does_readSteps m path) _).congr ?_
  rw [hm, Storage.read]
  cases m.read path with
  | error e => rfl
  | ok text =>
    have hsame : s.withStorage (.memory m) = s := by rw [← hm]; rfl
    simp only [Except.map, ofStorage, Except.mapError, hsame]

theorem does_writeSteps (text : Bytes) : (writeSteps path text).Does s
    ((ofStorage (s.storage.write path text)).map fun storage => ((), s.withStorage storage)) := by
  refine (does_inMemory hm (Memory.does_writeSteps m path text) _).congr ?_
  rw [hm, Storage.write]
  cases m.write path text <;> rfl

theorem does_renameEntrySteps (name : Bytes) : (renameEntrySteps path name).Does s
    ((ofStorage (s.storage.rename path name)).map fun r => (r.1, s.withStorage r.2)) := by
  refine (does_inMemory hm (Memory.does_renameSteps m path name) _).congr ?_
  rw [hm, Storage.rename]
  cases m.rename path name <;> rfl

theorem does_deleteEntrySteps (isDirectory : Bool) : (deleteEntrySteps path isDirectory).Does s
    ((ofStorage (if isDirectory then s.storage.deleteDirectory path
      else s.storage.deleteFile path)).map fun storage => ((), s.withStorage storage)) := by
  rw [hm]
  cases isDirectory with
  | true =>
    refine (does_inMemory hm (Memory.does_deleteDirectorySteps m path) _).congr ?_
    rw [if_pos rfl, Storage.deleteDirectory]
    cases m.deleteDirectory path <;> rfl
  | false =>
    refine (does_inMemory hm (Memory.does_deleteFileSteps m path) _).congr ?_
    rw [if_neg (by decide), Storage.deleteFile]
    cases m.deleteFile path <;> rfl

theorem does_makeEntrySteps (isDirectory : Bool) : (makeEntrySteps path isDirectory).Does s
    ((ofStorage (withEntry s.storage path isDirectory)).map fun storage =>
      ((), s.withStorage storage)) := by
  rw [hm]
  cases isDirectory with
  | true =>
    refine (does_inMemory hm (Memory.does_makeDirectorySteps m path) _).congr ?_
    rw [withEntry, if_pos rfl, Storage.makeDirectory]
    cases m.makeDirectory path <;> rfl
  | false =>
    refine (does_inMemory hm (Memory.does_writeSteps m path []) _).congr ?_
    rw [withEntry, if_neg (by decide), Storage.write]
    cases m.write path [] <;> rfl

end InMemory

/-! ## Calls -/

/-- Makes a file or directory: in the storage, then in the tree, and then reads it. -/
def createSteps (name : Bytes) (parent : BlobId) (isDirectory : Bool) : Call Tree := do
  require (isNewName name) (.badName name)
  let s ← get
  let name := s.entryName name isDirectory
  let directory ← look (·.directoryPath parent)
  require (!(s.childrenOf parent).any fun id => s.nameOf id = name) (.present name)
  makeEntrySteps (Storage.child directory name) isDirectory
  let id ← modifyGet (·.alloc name parent isDirectory)
  modify (·.filled id)
  return (← get).tree id

/-- Gives a blob another name: in the storage, then in its directory, and then new paths to the
sources of everything in it. -/
def renameSteps (id : BlobId) (name : Bytes) : Call Tree := do
  let b ← look (·.blob id)
  let s ← get
  let name := s.entryName name b.isDirectory
  let _ ← renameEntrySteps (s.storagePath b) name
  modify (·.mapChildren b.parent (·.filter (· != id)))
  modify (·.mapBlob id fun b => { b with name })
  modify fun s => s.mapChildren b.parent (s.insertSorted id name)
  each repath ((← get).everythingIn id)
  return (← get).tree id

/-- Deletes a blob: in the storage, then from its directory, and then everything in it. -/
def deleteSteps (id : BlobId) : Call Unit := do
  let b ← look (·.blob id)
  let s ← get
  deleteEntrySteps (s.storagePath b) b.isDirectory
  modify (·.mapChildren b.parent (·.filter (· != id)))
  each drop (s.everythingIn id)

/-- Reads a text in place of that of a file. -/
def recompileSteps (id : BlobId) (text : Bytes) : Call Unit := do
  let b ← look (·.fileBlob id)
  modify fun s => s.install id (s.readText b text)

/-- Writes a text to the storage and reads it. -/
def saveSteps (id : BlobId) (text : Bytes) : Call Unit := do
  let b ← look (·.fileBlob id)
  writeSteps ((← get).storagePath b) text
  modify fun s => s.install id (s.readText b text)

/-- Reads the text of a file from the storage again. -/
def reloadSteps (id : BlobId) : Call Unit := do
  let b ← look (·.fileBlob id)
  let text ← readSteps ((← get).storagePath b)
  modify fun s => s.install id (s.readText b text)

/-- The session with one more blob, which is read if it is a file, and the tree of the blob. -/
def added (s : Session) (name : Bytes) (parent : BlobId) (isDirectory : Bool) : Tree × Session :=
  let (id, t) := s.alloc name parent isDirectory
  ((t.filled id).tree id, t.filled id)

/-- The session with another name for a blob, and the tree of the blob. -/
def renamed (s : Session) (id parent : BlobId) (name : Bytes) : Tree × Session :=
  let t := (s.relabelled id parent name).repathed id
  (t.tree id, t)

theorem create_eq (s : Session) (name : Bytes) (parent : BlobId) (isDirectory : Bool) :
    s.create name parent isDirectory = if isNewName name then
      s.directoryPath parent >>= fun directory =>
        if !(s.childrenOf parent).any fun id => s.nameOf id = s.entryName name isDirectory then
          (ofStorage (withEntry s.storage
            (Storage.child directory (s.entryName name isDirectory)) isDirectory)).map fun storage =>
              (s.withStorage storage).added (s.entryName name isDirectory) parent isDirectory
        else .error (.present (s.entryName name isDirectory))
      else .error (.badName name) := by
  rw [create, ← entryName]
  cases isNewName name with
  | false => rfl
  | true =>
    refine congrArg (s.directoryPath parent >>= ·) (funext fun directory => ?_)
    cases (s.childrenOf parent).any fun id => s.nameOf id = s.entryName name isDirectory with
    | true => rfl
    | false =>
      simp only [Bool.not_false, if_true, Bool.false_eq_true, if_false]
      generalize ofStorage (withEntry s.storage _ isDirectory) = r
      cases r with
      | error e => rfl
      | ok storage =>
        have hfilled := filled_alloc (s.withStorage storage) (s.entryName name isDirectory) parent
          isDirectory
        exact congrArg (fun t => Except.ok (t.tree (s.blobs.size + 1), t)) hfilled.symm

section InMemory

variable (hm : s.storage = .memory m)
include hm

theorem does_createSteps (name : Bytes) (parent : BlobId) (isDirectory : Bool) :
    (createSteps name parent isDirectory).Does s (s.create name parent isDirectory) := by
  refine (Effect.Does.require_bind _ fun _ => .get_bind (.look_bind fun directory _ =>
    .require_bind _ fun _ => .bind_sure (does_makeEntrySteps hm _ isDirectory)
      (g := fun _ t => t.added (s.entryName name isDirectory) parent isDirectory)
      fun _ t => rfl)).congr ?_
  rw [create_eq]
  refine if_congr Iff.rfl (congrArg (s.directoryPath parent >>= ·) (funext fun directory => ?_)) rfl
  split
  · cases ofStorage (withEntry s.storage _ isDirectory) <;> rfl
  · rfl

theorem does_renameSteps (id : BlobId) (name : Bytes) :
    (renameSteps id name).Does s (s.rename id name) := by
  refine (Effect.Does.look_bind fun b _ => .get_bind (.bind_sure
    (does_renameEntrySteps hm (s.storagePath b) (s.entryName name b.isDirectory))
      (g := fun _ t => t.renamed id b.parent (s.entryName name b.isDirectory))
      fun _ t => ?_)).congr ?_
  · simp only [Effect.on_bind, Effect.on_modify, Effect.on_get, Effect.on_each, Effect.on_pure]
    rfl
  · refine congrArg (s.blob id >>= ·) (funext fun b => ?_)
    rw [← entryName]
    dsimp only
    generalize ofStorage (s.storage.rename _ _) = r
    cases r <;> rfl

theorem does_deleteSteps (id : BlobId) :
    (deleteSteps id).Does s ((s.delete id).map ((), ·)) := by
  refine (Effect.Does.look_bind fun b _ => .get_bind (.bind_sure
    (does_deleteEntrySteps hm (s.storagePath b) b.isDirectory)
      (g := fun _ t => ((), (s.everythingIn id).foldl drop
        (t.mapChildren b.parent (·.filter (· != id))))) fun _ t => ?_)).congr ?_
  · simp only [Effect.on_bind, Effect.on_modify, Effect.on_each]
  · rw [delete]
    cases s.blob id with
    | error e => rfl
    | ok b =>
      simp only [bind, Except.bind]
      generalize ofStorage (if b.isDirectory then _ else _) = r
      cases r <;> rfl

omit hm in
theorem does_recompileSteps (s : Session) (id : BlobId) (text : Bytes) :
    (recompileSteps id text).Does s ((s.recompile id text).map ((), ·)) := by
  have hdoes : (recompileSteps id text).Does s
      (s.fileBlob id >>= fun b => .ok ((), s.install id (s.readText b text))) :=
    .look_bind fun b _ => Effect.on_modify _ s
  refine hdoes.congr ?_
  rw [recompile]
  cases s.fileBlob id <;> rfl

theorem does_saveSteps (id : BlobId) (text : Bytes) :
    (saveSteps id text).Does s ((s.save id text).map ((), ·)) := by
  refine (Effect.Does.look_bind fun b _ => .get_bind (.bind_sure
    (does_writeSteps hm (s.storagePath b) text)
      (g := fun _ t => ((), t.install id (t.readText b text))) fun _ t => rfl)).congr ?_
  rw [save]
  cases hb : s.fileBlob id with
  | error e => rfl
  | ok b =>
    have hfile : ∀ storage, ({ s with storage } : Session).fileBlob id = .ok b := fun _ => hb
    simp only [bind, Except.bind, recompile, hfile]
    generalize ofStorage (s.storage.write _ text) = r
    cases r <;> rfl

theorem does_reloadSteps (id : BlobId) :
    (reloadSteps id).Does s ((s.reload id).map ((), ·)) := by
  refine (Effect.Does.look_bind fun b _ => .get_bind (.bind_sure
    (does_readSteps hm (s.storagePath b))
      (g := fun text t => ((), t.install id (t.readText b text))) fun _ t => rfl)).congr ?_
  rw [reload]
  cases hb : s.fileBlob id with
  | error e => rfl
  | ok b =>
    simp only [bind, Except.bind, recompile, hb]
    generalize ofStorage (s.storage.read _) = r
    cases r <;> rfl

end InMemory

/-! ## Events -/

/-- An event as a call. -/
def Event.call : Event → Call Unit
  | .edit (.create name parent isDirectory) => do let _ ← createSteps name parent isDirectory
  | .edit (.rename id name) => do let _ ← renameSteps id name
  | .edit (.delete id) => deleteSteps id
  | .edit (.save id text) => saveSteps id text
  | .recompile id text => recompileSteps id text
  | .reload id => reloadSteps id
  | .elsewhere storage => modify (·.withStorage storage)

/-- Whether an event leaves a project in memory. -/
def Event.StaysInMemory : Event → Prop
  | .elsewhere storage => ∃ m, storage = .memory m
  | _ => True

/-- The session after calls, one after the other; what a call changed before it failed stays. -/
def afterCalls (s : Session) (events : List Event) : Session :=
  events.foldl (fun s e => (e.call.on s).2) s

/-- In memory a call does what the session says of the event. -/
theorem does_call (hm : s.storage = .memory m) (e : Event) :
    e.call.Does s ((s.outcome e).map ((), ·)) := by
  cases e with
  | edit e =>
    cases e with
    | create name parent isDirectory =>
      refine ((does_createSteps hm name parent isDirectory).bind_sure (g := fun _ t => ((), t))
        fun _ t => rfl).congr ?_
      rw [outcome, applied]
      cases s.create name parent isDirectory <;> rfl
    | rename id name =>
      refine ((does_renameSteps hm id name).bind_sure (g := fun _ t => ((), t))
        fun _ t => rfl).congr ?_
      rw [outcome, applied]
      cases s.rename id name <;> rfl
    | delete id => exact does_deleteSteps hm id
    | save id text => exact does_saveSteps hm id text
  | recompile id text => exact does_recompileSteps s id text
  | reload id => exact does_reloadSteps hm id
  | elsewhere storage => rfl

theorem inMemory_of_map {x : Except Storage.Error Memory} {storage : Storage}
    (h : x.map Storage.memory = .ok storage) : ∃ m, storage = .memory m := by
  obtain ⟨m, -, rfl⟩ := map_eq_ok_iff.mp h
  exact ⟨m, rfl⟩

theorem inMemory_of_withEntry {path : Bytes} {storage : Storage}
    (h : withEntry (.memory m) path isDirectory = .ok storage) : ∃ m', storage = .memory m' := by
  cases isDirectory with
  | true =>
    rw [withEntry, if_pos rfl, Storage.makeDirectory] at h
    cases hmade : m.makeDirectory path with
    | error e => simp [hmade] at h
    | ok m' => exact ⟨m', by simpa [hmade, eq_comm] using h⟩
  | false => exact inMemory_of_map h

/-- An event leaves a project where it is kept. -/
theorem inMemory_of_outcome {e : Event} {t : Session} (hm : s.storage = .memory m)
    (he : e.StaysInMemory) (h : s.outcome e = .ok t) : ∃ m', t.storage = .memory m' := by
  -- Each event writes through the storage it finds, and only another program can put a different
  -- one there.
  cases e with
  | edit e =>
    cases e with
    | create name parent isDirectory =>
      obtain ⟨r, hr, rfl⟩ := map_eq_ok_iff.mp h
      obtain ⟨-, directory, storage, -, -, hentry, heq⟩ := create_ok hr
      rw [hm] at hentry
      rw [heq, storage_filled]
      exact inMemory_of_withEntry hentry
    | rename id name =>
      obtain ⟨r, hr, rfl⟩ := map_eq_ok_iff.mp h
      obtain ⟨b, moved, storage, -, hmoved, heq⟩ := rename_ok hr
      rw [hm] at hmoved
      rw [heq, repathed, storage_foldl_repath]
      obtain ⟨r', -, heq'⟩ := map_eq_ok_iff.mp hmoved
      exact ⟨r'.2, (congrArg Prod.snd heq').symm⟩
    | delete id =>
      obtain ⟨b, storage, -, hdeleted, rfl⟩ := delete_ok h
      rw [hm] at hdeleted
      split at hdeleted
      · exact inMemory_of_map hdeleted
      · exact inMemory_of_map hdeleted
    | save id text =>
      obtain ⟨b, -, h⟩ := bind_eq_ok_iff.mp h
      obtain ⟨storage, hwritten, h⟩ := bind_eq_ok_iff.mp h
      rw [ofStorage_eq_ok_iff, hm] at hwritten
      obtain ⟨b', -, h⟩ := bind_eq_ok_iff.mp h
      obtain rfl := Except.ok.inj h
      exact inMemory_of_map hwritten
  | recompile id text =>
    obtain ⟨b, -, h⟩ := bind_eq_ok_iff.mp h
    obtain rfl := Except.ok.inj h
    exact ⟨m, hm⟩
  | reload id =>
    obtain ⟨b, -, h⟩ := bind_eq_ok_iff.mp h
    obtain ⟨text, -, h⟩ := bind_eq_ok_iff.mp h
    obtain ⟨b', -, h⟩ := bind_eq_ok_iff.mp h
    obtain rfl := Except.ok.inj h
    exact ⟨m, hm⟩
  | elsewhere storage =>
    obtain rfl := Except.ok.inj h
    exact he

theorem afterCalls_eq {events : List Event} (hm : s.storage = .memory m)
    (hevents : ∀ e ∈ events, e.StaysInMemory) :
    s.afterCalls events = s.afterEvents events ∧ ∃ m', (s.afterEvents events).storage = .memory m' := by
  induction events generalizing s m with
  | nil => exact ⟨rfl, m, hm⟩
  | cons e events ih =>
    obtain ⟨he, hevents⟩ := List.forall_mem_cons.mp hevents
    have hcall : (e.call.on s).2 = s.afterEvent e := by
      rw [does_call hm e, afterEvent]
      cases s.outcome e <;> rfl
    have hstep : ∃ m', (s.afterEvent e).storage = .memory m' := by
      rw [afterEvent]
      cases houtcome : s.outcome e with
      | error error => exact ⟨m, hm⟩
      | ok t => exact inMemory_of_outcome hm he houtcome
    obtain ⟨m', hm'⟩ := hstep
    rw [afterCalls, List.foldl_cons, hcall, afterEvents, List.foldl_cons]
    exact ih hm' hevents

/-- A call to an open project in memory that fails leaves the session and its storage exactly as
they were, whatever happened before; and it fails as the session says. -/
theorem failed_call_changes_nothing {root : Bytes} {settings : Settings}
    (opened : openProject (.memory m) root settings = .ok s) (events : List Event)
    (kept : ∀ e ∈ events, e.StaysInMemory) (e : Event) (error : Error) (t : Session)
    (failed : e.call.on (s.afterCalls events) = (.error error, t)) :
    t = s.afterCalls events ∧ (s.afterCalls events).outcome e = .error error := by
  obtain ⟨s₀, k, hstart, hscan, hload⟩ := openProject_eq_ok_iff.mp opened
  have hm : s.storage = .memory m := by
    obtain ⟨place, rfl⟩ := start_ok hstart
    rw [storage_of_loaded hload, scan_storage hscan]
  obtain ⟨hrun, m', hm'⟩ := afterCalls_eq hm kept
  rw [← hrun] at hm'
  obtain ⟨hsame, houtcome⟩ := (does_call hm' e).eq_of_error failed
  refine ⟨hsame, ?_⟩
  cases h : (s.afterCalls events).outcome e with
  | error error' =>
    rw [h] at houtcome
    exact congrArg _ (Except.error.inj houtcome)
  | ok u =>
    rw [h] at houtcome
    cases houtcome

/-- A file was renamed, and then all is gone from the storage: neither can the file be read again,
nor can the other one be deleted, and both calls leave the session with its two files. -/
theorem failed_calls_twoFiles :
    let s := (twoOpened "A\n" "B\n").afterCalls
      [.edit (.rename 1 "c"), .elsewhere (.memory {})]
    ∀ e ∈ [Event.reload 1, .edit (.delete 2)], ∃ error, e.call.on s = (.error error, s) := by
  intro s e he
  have hfails : ∀ e ∈ [Event.reload 1, .edit (.delete 2)], (e.call.on s).1.toBool = false := by
    decide
  cases hcall : e.call.on s with
  | mk r t =>
    cases r with
    | ok u => exact absurd (hfails e he) (by simp [hcall, Except.toBool])
    | error error =>
      have hkept := failed_call_changes_nothing (open_twoFiles _ _) _ ?_ e error t hcall
      · exact ⟨error, by rw [hkept.1]⟩
      · simp [Event.StaysInMemory]

end Storyline.Session
