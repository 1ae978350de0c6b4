import Replica.RawBatch
import Replica.ReplicationError

/-!
# Reading the log from a source

A source is known by what its fetches answer, one after another. After the last answer of the list
it is at its end.
-/

namespace Replica

/-- The answer to a fetch. -/
inductive Fetch where
  /-- A batch. It is late if it took longer than a batch is held back. -/
  | batch (b : RawBatch) (late : Bool)
  /-- The end of the log, as far as it was known. -/
  | finish
  /-- A failure. -/
  | failure (e : ReplicationError)
  /-- No answer: the reader was lost. -/
  | lost

/-- The answers to the coming fetches. -/
abbrev Source := List Fetch

namespace Source

/-- The next answer, and the source behind it. -/
def next : Source → Fetch × Source
  | [] => (.finish, [])
  | f :: fs => (f, fs)

/-- Batches of `size` entries; all but the last are ready for more. `fuel` bounds their number. -/
def batches (size : Nat) : Nat → List Entry → Source
  | 0, _ => []
  | _, [] => []
  | fuel + 1, entries =>
    let rest := entries.drop size
    .batch (.ofEntries (entries.take size) (!rest.isEmpty)) false :: batches size fuel rest

/-- Serves entries in batches of a given size, of one at least. -/
def ofEntries (entries : List Entry) (size : Nat) : Source :=
  batches (max size 1) entries.length entries

/-- Fails once when `count` batches were served. -/
def failAfter (s : Source) (count : Nat) (e : ReplicationError) : Source :=
  if count ≤ s.length then s.take count ++ .failure e :: s.drop count else s

end Source

end Replica
