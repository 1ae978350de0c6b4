import Replica.Checkpoint.Handle
import Replica.Clone
import Replica.InitialSync.State
import Replica.Window

/-!
# Initial sync

An initial sync makes a member a consistent copy of a source, whatever it held before:

1. The member counts as inconsistent, a source is selected, and the tail of its log is read.
2. The checkpoint goes back to its start, the databases of users are dropped, the databases that are
   replicated are copied, and the checkpoint is set to the tail that was read.
3. The window of the log from there to the tail by now is applied, and then the window that came up
   meanwhile. The copy may contain effects of these entries already, so they are replayed leniently.
4. Indexes are rebuilt, and the member counts as consistent.

A failure that may pass starts all of it again, with waits that grow by a step; any other one ends
it.
-/

namespace Replica

/-- How an initial sync ended. -/
inductive SyncOutcome where
  /-- The member is a consistent copy after so many attempts. -/
  | finished (attempts : Nat)
  /-- It was given up after so many attempts. -/
  | failed (attempts : Nat) (e : ReplicationError)
  deriving DecidableEq

/-- What makes a member a copy of a source. -/
structure InitialSync where
  /-- How often it is attempted, and how the waits grow. -/
  settings : SyncSettings := {}
  /-- What applies the windows. -/
  pipeline : Pipeline := {}

/-- Steps of an initial sync; a step that fails leaves what it has done. -/
abbrev SyncM := ExceptT ReplicationError (StateM SyncState)

namespace InitialSync

/-- Starts a call on another member. -/
def start (kind : CallKind) (argument : String) : SyncM Unit :=
  fun s => s.startCall kind argument

/-- Fails if the sync was told to stop. -/
def checkStopped : SyncM Unit :=
  fun s => (if s.stopped then .error .cancelled else .ok (), s)

/-- Goes on to a phase. -/
def enter (phase : SyncPhase) : SyncM Unit := fun s => (.ok (), { s with phase := phase })

/-- Does something with the source. -/
def onRemote (f : Remote → Except ReplicationError α × Remote) : SyncM α := fun s =>
  let (result, remote) := f s.remote
  (result, { s with remote := remote })

/-- Does something with the store of the member. -/
def onStore (f : Store → Except ReplicationError α × Store) : SyncM α := fun s =>
  let (result, store) := f s.store
  (result, s.setStore store)

/-- Changes the checkpoint. -/
def onCheckpoint (request : CheckpointCall) : SyncM Unit := fun s =>
  let (result, checkpoint, store) := request.run s.applied.checkpoint s.store
  let s := s.setStore store
  (result, { s with applied := { s.applied with checkpoint := checkpoint } })

/-- Sets the consistency flag. -/
def setConsistent (value : Bool) : SyncM Unit := fun s =>
  let (result, consistent, store) := Consistency.set value s.consistent s.store
  (result, { s.setStore store with consistent := consistent })

/-- Forgets what was read and executed before. -/
def begin : SyncM Unit := fun s => (.ok (), { s with tails := [], executed := [] })

/-- Reads the tail of the source's log. -/
def lastEntry : SyncM Entry := do
  start .lastEntry ""
  let tail ← onRemote Remote.lastEntry
  fun s => (.ok tail, { s with tails := s.tails ++ [tail] })

/-- Reads the replicated collections of a database of the source. -/
def scanAll : List Namespace → SyncM Unit
  | [] => pure ()
  | ns :: rest => do
    start .scan ns.text
    scanAll rest

/-- Clones a database of the source. -/
def cloneDatabase (x : InitialSync) (database : String) : SyncM Unit := do
  start .clone database
  let filters := x.pipeline.filters
  let data := (← get).remote.data
  fun s =>
    match scanAll (Clone.collections filters data database) s with
    | (.error e, s) => (.error (Clone.failure database e), s)
    | (.ok (), s) => onStore (Clone.run filters true data database) s

/-- Clones those of the databases that are replicated. -/
def cloneAll (x : InitialSync) : List String → SyncM Unit
  | [] => pure ()
  | database :: rest => do
    if x.pipeline.filters.acceptsDatabase database then
      checkStopped
      x.cloneDatabase database
    x.cloneAll rest

/-- Replaces the data of the member by a copy of the source's, whose log was at `tail` before. -/
def replaceData (x : InitialSync) (tail : Mark) : SyncM Unit := do
  onCheckpoint .reset
  onStore fun store => store.commit (Clone.dropUserDatabases store)
  start .databases ""
  x.cloneAll (← get).remote.data.databaseNames
  onCheckpoint (.force tail)

/-- Applies the window of the source's log behind one position up to another. -/
def applyWindow (x : InitialSync) (first last : Position) : SyncM Unit := do
  start .window (first.text ++ " " ++ last.text)
  let remote := (← get).remote
  let window : Window :=
    { inner := remote.read first last, start := first, address := remote.address }
  fun s =>
    let work := { s.applied.work with cancel := { fired := s.stopped } }
    let (result, applied) :=
      x.pipeline.run .recovery {} window.toSource { s.applied with work := work }
    (result, { s with applied := applied, executed := s.executed ++ applied.executed })

/-- Synchronises with the source that is connected. -/
def syncFrom (x : InitialSync) : SyncM Unit := do
  let first ← lastEntry
  checkStopped
  enter .cloning
  x.replaceData first.mark
  checkStopped
  enter .applyingFirstWindow
  let second ← lastEntry
  x.applyWindow first.position second.position
  checkStopped
  enter .applyingSecondWindow
  let third ← lastEntry
  x.applyWindow second.position third.position
  checkStopped
  enter .rebuildingIndexes
  start .rebuild ""
  setConsistent true

/-- Closes the connection; that never fails. -/
def close : SyncM Unit := fun s => (.ok (), (s.startCall .close "").2)

/-- Makes one attempt. -/
def attempt (x : InitialSync) : SyncM Unit := do
  begin
  checkStopped
  enter .inconsistent
  setConsistent false
  checkStopped
  enter .selectingSource
  start .select ""
  let address ← onRemote Remote.select
  start .connect address
  onRemote fun r => r.connect address
  fun s =>
    let (result, s) := x.syncFrom s
    (result, (close s).2)

/-- Gives up after some attempts. -/
def giveUp (attempts : Nat) (e : ReplicationError) (s : SyncState) : SyncOutcome × SyncState :=
  (.failed attempts e, { s with phase := .failed })

/-- Makes the attempt with the number `number`, and up to `more` further ones. A sync that was told
to stop does not wait. -/
def attempts (x : InitialSync) : (more number : Nat) → SyncState → SyncOutcome × SyncState
  | more, number, s =>
    if linearDelay x.settings.step number ≠ 0 ∧ s.stopped then giveUp (number - 1) .cancelled s
    else
      match x.attempt s with
      | (.ok (), s) => (.finished number, { s with phase := .finished })
      | (.error e, s) =>
        match more with
        | 0 => giveUp number e s
        | more + 1 => if e.isRetryable then x.attempts more (number + 1) s else giveUp number e s

/-- Synchronises, with as many attempts as the settings allow. -/
def run (x : InitialSync) (s : SyncState) : SyncOutcome × SyncState :=
  x.attempts (max x.settings.maxAttempts 1 - 1) 1 s

end InitialSync

end Replica
