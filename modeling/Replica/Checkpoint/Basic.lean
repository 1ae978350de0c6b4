import Replica.Backoff
import Replica.RawBatch
import Replica.StateRow

/-!
# The checkpoint

The checkpoint is the mark of the last entry whose effects are in the store. It is kept in memory
and in a document. A change is stored first, and only when that succeeded does the value in memory
change, so both always agree.
-/

namespace Replica

/-- The mark before anything was applied. -/
def Mark.initial : Mark := ⟨0, .epoch⟩

/-- The checkpoint as it is held in memory. -/
structure Checkpoint where
  /-- The mark of the last entry that was applied. -/
  current : Mark
  /-- How often storing is attempted. -/
  attempts : Nat

namespace Checkpoint

/-- The document of the checkpoint. -/
def row : StateRow := ⟨"oplog.replication", "lastAppliedOplogEntry"⟩

/-- What the document of a mark holds. -/
def content (m : Mark) : Json.Members :=
  [("hash", .ofInt64 m.hash), ("position", m.position.toJson)]

/-- The mark that a document holds. -/
def ofDocument? (doc : Json) : Option Mark := do
  let _ ← (← doc.member? idField).text?
  return ⟨← (← doc.member? "hash").int64?, ← Position.ofJson? (← doc.member? "position")⟩

/-- The stored mark, and the initial one if none is stored. -/
def load (s : Store) : Except ReplicationError Mark :=
  match row.load? s with
  | none => .ok .initial
  | some doc =>
    match ofDocument? doc with
    | none => .error (.ofPersisting .codec)
    | some m => .ok m

/-- The checkpoint that a store holds. -/
def ofStore (s : Store) (attempts : Nat) : Except ReplicationError Checkpoint :=
  (load s).map fun m => ⟨m, attempts⟩

/-- Stores a mark, and tries again up to `retries` times while the store asks for that. -/
def store (m : Mark) : (retries : Nat) → Store → Except ReplicationError Unit × Store
  | 0, s => persisted (row.save (content m) s)
  | retries + 1, s =>
    match row.save (content m) s with
    | (.error (.rollback _), s) => store m retries s
    | outcome => persisted outcome
where
  /-- Says of a failure that it concerns the state of replication. -/
  persisted (outcome : Except ReplicationError Unit × Store) :
      Except ReplicationError Unit × Store :=
    (outcome.1.mapError .ofPersisting, outcome.2)

/-- Moves the checkpoint to a mark. -/
def force (c : Checkpoint) (m : Mark) (s : Store) :
    Except ReplicationError Unit × Checkpoint × Store :=
  match store m (c.attempts - 1) s with
  | (.ok (), s) => (.ok (), { c with current := m }, s)
  | (.error e, s) => (.error e, c, s)

/-- Moves the checkpoint to a mark that does not lie before it. -/
def advance (c : Checkpoint) (m : Mark) (s : Store) :
    Except ReplicationError Unit × Checkpoint × Store :=
  if m.position < c.current.position then
    (.error (.nonMonotonicCheckpoint c.current.position m.position), c, s)
  else c.force m s

/-- Moves the checkpoint to its start. -/
def reset (c : Checkpoint) (s : Store) : Except ReplicationError Unit × Checkpoint × Store :=
  c.force .initial s

end Checkpoint

end Replica
