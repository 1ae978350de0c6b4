import Replica.Checkpoint.Basic

/-!
# Handles of the checkpoint

Who works with the checkpoint holds a handle. A handle that was closed refuses every call, and
closing it again is harmless.
-/

namespace Replica

/-- A handle of the checkpoint. -/
structure CheckpointHandle where
  /-- The checkpoint that it gives access to. -/
  checkpoint : Checkpoint
  /-- Whether it still gives access. -/
  isOpen : Bool := true

/-- A call on a handle that may change the checkpoint. -/
inductive CheckpointCall where
  /-- Moves on to a mark that does not lie before the current one. -/
  | advance (target : Mark)
  /-- Moves to a mark, wherever it lies. -/
  | force (target : Mark)
  /-- Moves to the start. -/
  | reset
  deriving DecidableEq

/-- What a call makes of the checkpoint and the store. -/
def CheckpointCall.run (call : CheckpointCall) (c : Checkpoint) (s : Store) :
    Except ReplicationError Unit × Checkpoint × Store :=
  match call with
  | advance m => c.advance m s
  | force m => c.force m s
  | reset => c.reset s

namespace CheckpointHandle

/-- The mark that an open handle sees. -/
def read (h : CheckpointHandle) : Except ReplicationError Mark :=
  if h.isOpen then .ok h.checkpoint.current else .error .closedHandle

/-- Makes a call on a handle. -/
def call (h : CheckpointHandle) (request : CheckpointCall) (s : Store) :
    Except ReplicationError Unit × CheckpointHandle × Store :=
  if h.isOpen then
    let (result, c, s) := request.run h.checkpoint s
    (result, { h with checkpoint := c }, s)
  else (.error .closedHandle, h, s)

/-- Closes a handle; the checkpoint keeps its value. -/
def close (h : CheckpointHandle) : CheckpointHandle := { h with isOpen := false }

end CheckpointHandle

end Replica
