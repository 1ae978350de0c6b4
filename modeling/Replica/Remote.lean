import Replica.Fetcher
import Replica.Store.Basic

/-!
# A sync source

A member that serves its data and its log. The data and the log are set apart, so the data may run
ahead of the log. Its faults are part of it: selections and connections can be told to fail, and the
tails it reports can be chosen.
-/

namespace Replica

/-- A sync source. -/
structure Remote where
  /-- The address. -/
  address : String
  /-- The data. -/
  data : Store := {}
  /-- The log. -/
  log : List Entry := []
  /-- The positions that are reported as the next tails; the newest entry after the last of them. -/
  tails : List Position := []
  /-- How many of the coming selections find no source. -/
  missingSources : Nat := 0
  /-- How many of the coming connections are refused. -/
  refusedConnections : Nat := 0

namespace Remote

/-- The number of entries in a batch of a window. -/
def windowBatchSize : Nat := 128

/-- Selects the source: its address. -/
def select (r : Remote) : Except ReplicationError String × Remote :=
  match r.missingSources with
  | 0 => (.ok r.address, r)
  | n + 1 => (.error .noSyncSource, { r with missingSources := n })

/-- Connects to the member with an address. -/
def connect (r : Remote) (address : String) : Except ReplicationError Unit × Remote :=
  if address ≠ r.address then (.error (.unreachable address "unknown member"), r)
  else
    match r.refusedConnections with
    | 0 => (.ok (), r)
    | n + 1 =>
      (.error (.unreachable address "connection refused"), { r with refusedConnections := n })

/-- The entry at the tail of the log. -/
def lastEntry (r : Remote) : Except ReplicationError Entry × Remote :=
  let found := match r.tails with
    | [] => r.log.getLast?
    | p :: _ => r.log.find? fun e => e.position == p
  let r := { r with tails := r.tails.tail }
  match found with
  | some e => (.ok e, r)
  | none => (.error (.fetch "sync source has no oplog entry at its tail" true), r)

/-- The entries of the log from one position to another, both included. -/
def window (r : Remote) (start stop : Position) : List Entry :=
  r.log.filter fun e => decide (start ≤ e.position) && decide (e.position ≤ stop)

/-- Reads the entries of the log from one position to another, both included. -/
def read (r : Remote) (start stop : Position) : Source :=
  .ofEntries (r.window start stop) windowBatchSize

/-- Appends entries to the log. -/
def append (r : Remote) (entries : List Entry) : Remote := { r with log := r.log ++ entries }

/-- Forgets the entries before a position. -/
def truncateBefore (r : Remote) (p : Position) : Remote :=
  { r with log := r.log.filter fun e => decide (p ≤ e.position) }

end Remote

end Replica
