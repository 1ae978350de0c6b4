import Replica.Document
import Replica.Position

/-!
# What can go wrong while replicating

The errors of the engine, their texts, and whether a new initial sync may succeed after them.
-/

namespace Replica

/-- An operation whose target is missing. -/
structure Mismatch where
  /-- The key of the missing document. -/
  key : DocKey
  /-- The kind of the operation. -/
  kind : String
  deriving DecidableEq

/-- The text of a mismatch. -/
def Mismatch.text (m : Mismatch) : String :=
  m.kind ++ " of _id " ++ m.key.text ++ " matched no document"

/-- Why replication failed. -/
inductive ReplicationError where
  /-- The store asks for the transaction to be done again. -/
  | rollback (reason : String)
  /-- The store refuses a write. -/
  | user (reason : String)
  /-- An insert meets a document with the same identifier or the same values of a unique index. -/
  | duplicateKey (ns key : String)
  /-- Operations of a job that need their targets do not find them. -/
  | jobMismatch (database collection : String) (mismatches : List Mismatch)
  /-- A handle of the checkpoint is used after it was closed. -/
  | closedHandle
  /-- The state of replication cannot be stored or loaded. -/
  | persist (reason : String)
  /-- An advance would move the checkpoint back. -/
  | nonMonotonicCheckpoint (current requested : Position)
  /-- An entry cannot be applied. -/
  | unsupportedOperation (reason : String)
  /-- The log cannot be read from its source. -/
  | fetch (reason : String) (retryable : Bool)
  /-- The source has no entries of the window. -/
  | windowMissing (source : String) (start : Position)
  /-- The window does not start where it should. -/
  | windowMismatch (expected found : Position)
  /-- No member can serve as source. -/
  | noSyncSource
  /-- The source cannot be reached. -/
  | unreachable (address reason : String)
  /-- A database cannot be cloned. -/
  | cloning (database reason : String)
  /-- The work was cancelled. -/
  | cancelled
  /-- The worker pool lost or refused work. -/
  | workerPool (reason : String)
  /-- A stage of the pipeline ended with a failure of its own. -/
  | stageFailed (stage reason : String)
  /-- A stage of the pipeline ended abnormally. -/
  | stageLost (stage : String)
  /-- An entry cannot be interpreted. -/
  | entry (error : EntryError)
  /-- A stored value does not have the expected form. -/
  | codec
  deriving DecidableEq

namespace ReplicationError

/-- The text of an error. -/
def message : ReplicationError → String
  | rollback reason => "rollback required: " ++ reason
  | user reason => "user error: " ++ reason
  | duplicateKey ns key => "duplicate key " ++ key ++ " in " ++ ns
  | jobMismatch database collection mismatches =>
    "namespace job on " ++ database ++ "." ++ collection ++ " failed: " ++
      Json.integerText mismatches.length ++ " operation(s) matched no document"
  | closedHandle => "checkpoint handle is closed"
  | persist reason => "failed to persist replication state: " ++ reason
  | nonMonotonicCheckpoint current requested =>
    "checkpoint cannot move back from " ++ current.text ++ " to " ++ requested.text
  | unsupportedOperation reason => "unsupported operation: " ++ reason
  | fetch reason _ => "fetch error: " ++ reason
  | windowMissing source start =>
    "oplog window starting at " ++ start.text ++ " is missing on " ++ source
  | windowMismatch expected found =>
    "remote oplog starts at " ++ found.text ++ ", expected " ++ expected.text
  | noSyncSource => "no sync source available"
  | unreachable address reason => "sync source " ++ address ++ " is unreachable: " ++ reason
  | cloning database reason => "cloning database " ++ database ++ " failed: " ++ reason
  | cancelled => "operation cancelled"
  | workerPool reason => "worker pool error: " ++ reason
  | stageFailed stage reason => stage ++ " stage failed: " ++ reason
  | stageLost stage => stage ++ " stage failed"
  | entry error => error.message
  | codec => "codec error"

/-- Whether the error is the result of a cancellation. -/
def isCancellation : ReplicationError → Bool
  | cancelled => true
  | _ => false

/-- Whether a new initial sync may succeed after the error: the source may recover, and a later
start may lie past an entry that cannot be applied. -/
def isRetryable : ReplicationError → Bool
  | rollback _ | unsupportedOperation _ | windowMissing .. | windowMismatch .. | noSyncSource
  | unreachable .. | cloning .. => true
  | fetch _ retryable => retryable
  | entry error => error.isUnsupported
  | _ => false

/-- The failure to store the state of replication, for the given cause. -/
def ofPersisting (cause : ReplicationError) : ReplicationError := persist cause.message

/-- Of two failures of parallel work, a real one counts rather than a cancellation, and otherwise
the first. -/
def first? (earlier : Option ReplicationError) (later : ReplicationError) : ReplicationError :=
  match earlier with
  | none => later
  | some e => if e.isCancellation && !later.isCancellation then later else e

end ReplicationError

end Replica
