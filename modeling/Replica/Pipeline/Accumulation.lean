import Replica.Fetcher
import Replica.Filters
import Replica.Settings

/-!
# Accumulating batches

Fetched batches are filtered, checked and joined until there is enough to execute: when the batch
that is held back is full, when the source has no more to deliver at once, or when it was held back
long enough. `flushes` says into which batches a source is joined, and how that ends. Nothing is
lost, doubled or reordered, and a batch that carries nothing is not handed on.
-/

namespace Replica.Accumulation

/-- How accumulation ends. -/
inductive Ending where
  /-- The source was at its end, and everything was handed on. -/
  | finished
  /-- Fetching or checking failed, and what was held back is given up. -/
  | failed (e : ReplicationError)
  deriving DecidableEq

/-- What is handed on of the batch that is held back. -/
def flush (pending : Option RawBatch) : List RawBatch := pending.toList.filter fun b => !b.isVoid

/-- Joins a batch to the one that is held back. -/
def join (pending : Option RawBatch) (b : RawBatch) : RawBatch :=
  match pending with
  | none => b
  | some p => p ++ b

/-- Whether a batch is not held back any longer. -/
def isDue (limits : PipelineLimits) (b : RawBatch) : Bool :=
  limits.maxBatchSize ≤ b.size || !b.ready

/-- The batches that are handed on, `pending` being the one that is held back. -/
def flushes (limits : PipelineLimits) (filters : Filters) :
    (pending : Option RawBatch) → Source → List RawBatch × Ending
  | pending, [] => (flush pending, .finished)
  | pending, .finish :: _ => (flush pending, .finished)
  | _, .failure e :: _ => ([], .failed e)
  | _, .lost :: _ => ([], .failed (.stageLost "source"))
  | pending, .batch b late :: rest =>
    -- What is held back when its time is up is handed on before the late batch arrives.
    let early := if late then flush pending else []
    let pending := if late then none else pending
    let b := filters.apply b
    match b.check with
    | .error e => (early, .failed (.entry e))
    | .ok () =>
      let joined := join pending b
      let (ready, pending) :=
        if isDue limits joined then (flush (some joined), none) else ([], some joined)
      let (later, ending) := flushes limits filters pending rest
      (early ++ ready ++ later, ending)

end Replica.Accumulation
