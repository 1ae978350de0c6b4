import Replica.Consistency
import Replica.Pipeline.Run
import Replica.Remote

/-!
# The state of an initial sync

What an initial sync works on, the calls that it makes on other members, and what can happen while
it makes them. Each call is recorded with the phase in which it is made. Incidents take effect when
a call starts, before it does its work.
-/

namespace Replica

/-- How far an initial sync has come. -/
inductive SyncPhase where
  /-- Not started. -/
  | idle
  /-- The member counts as inconsistent. -/
  | inconsistent
  /-- A source is selected and connected to. -/
  | selectingSource
  /-- Databases are copied. -/
  | cloning
  /-- The window behind the clone is applied. -/
  | applyingFirstWindow
  /-- The window that came up meanwhile is applied. -/
  | applyingSecondWindow
  /-- Indexes are rebuilt. -/
  | rebuildingIndexes
  /-- The member is consistent. -/
  | finished
  /-- The sync was given up. -/
  | failed
  deriving DecidableEq

namespace SyncPhase

/-- The name of a phase. -/
def name : SyncPhase → String
  | idle => "Idle"
  | inconsistent => "Inconsistent"
  | selectingSource => "SelectingSource"
  | cloning => "Cloning"
  | applyingFirstWindow => "ApplyingFirstWindow"
  | applyingSecondWindow => "ApplyingSecondWindow"
  | rebuildingIndexes => "RebuildingIndexes"
  | finished => "Finished"
  | failed => "Failed"

/-- Whether a phase is an end. -/
def isTerminal (p : SyncPhase) : Bool := p = finished || p = failed

end SyncPhase

/-- The kinds of calls. -/
inductive CallKind where
  /-- Selecting a source. -/
  | select
  /-- Connecting to a source. -/
  | connect
  /-- Listing the databases of the source. -/
  | databases
  /-- Reading a collection of the source. -/
  | scan
  /-- Reading the tail of the log. -/
  | lastEntry
  /-- Reading a window of the log. -/
  | window
  /-- Cloning a database. -/
  | clone
  /-- Rebuilding indexes. -/
  | rebuild
  /-- Closing the connection. -/
  | close
  deriving DecidableEq

/-- A call that was made. -/
structure Call where
  /-- Its kind. -/
  kind : CallKind
  /-- What it is about. -/
  argument : String
  /-- The phase in which it was made. -/
  phase : SyncPhase
  deriving DecidableEq

/-- What can happen when a call starts. -/
inductive Incident where
  /-- The sync is told to stop. -/
  | stop
  /-- The coming commits of the member fail with a request to do them again. -/
  | refuseCommits (count : Nat)
  /-- Commits to a collection of the member fail. -/
  | failWrites (ns : Namespace)
  /-- Commits to all collections of the member succeed again. -/
  | clearFailures
  /-- The source writes entries to its log. -/
  | append (entries : List Entry)
  /-- The source forgets the entries before a position. -/
  | truncateBefore (p : Position)
  /-- The call fails. -/
  | fail (e : ReplicationError)

/-- An incident, and the call at which it happens. -/
structure ScheduledIncident where
  /-- The kind of the call. -/
  kind : CallKind
  /-- Which of the calls of that kind, counted from one. -/
  nth : Nat
  /-- What happens. -/
  incident : Incident

/-- The state of an initial sync. -/
structure SyncState where
  /-- The source. -/
  remote : Remote
  /-- The store of the member, its checkpoint, and what was counted. -/
  applied : Applied
  /-- The consistency flag in memory. -/
  consistent : Bool := false
  /-- How far the sync has come. -/
  phase : SyncPhase := .idle
  /-- Whether it was told to stop. -/
  stopped : Bool := false
  /-- The calls that were made. -/
  calls : List Call := []
  /-- What is going to happen. -/
  incidents : List ScheduledIncident := []
  /-- The tails of the source's log that the attempt has read. -/
  tails : List Entry := []
  /-- The batches that the attempt has handed to the executor, the last one possibly without
  success. -/
  executed : List Batch := []

namespace SyncState

/-- The store of the member. -/
def store (s : SyncState) : Store := s.applied.work.store

/-- Replaces the store of the member. -/
def setStore (s : SyncState) (store : Store) : SyncState :=
  { s with applied := { s.applied with work := { s.applied.work with store := store } } }

/-- What an incident does; a failure it brings about is left to the call. -/
def happen (s : SyncState) : Incident → SyncState
  | .stop => { s with stopped := true }
  | .refuseCommits count => s.setStore (s.store.injectRollbacks count)
  | .failWrites ns => s.setStore (s.store.failWritesTo ns)
  | .clearFailures => s.setStore s.store.clearWriteFailures
  | .append entries => { s with remote := s.remote.append entries }
  | .truncateBefore p => { s with remote := s.remote.truncateBefore p }
  | .fail _ => s

/-- The incidents of the next call of a kind. -/
def due (s : SyncState) (kind : CallKind) : List Incident :=
  let nth := (s.calls.filter fun c => c.kind == kind).length + 1
  (s.incidents.filter fun i => i.kind == kind && i.nth == nth).map ScheduledIncident.incident

/-- Records a call and lets its incidents happen; the failure that they bring about. -/
def startCall (s : SyncState) (kind : CallKind) (argument : String) :
    Except ReplicationError Unit × SyncState :=
  let due := s.due kind
  let s := due.foldl happen { s with calls := s.calls ++ [⟨kind, argument, s.phase⟩] }
  let failure := due.findSome? fun
    | .fail e => some e
    | _ => none
  match failure with
  | some e => (.error e, s)
  | none => (.ok (), s)

end SyncState

end Replica
