import Replica.Position

/-!
# Metrics

What the executors and the pipeline count. Averages are kept in whole microseconds.
-/

namespace Replica

/-- Adds a sample to an average that forgets a fifth at every step; a sample counts as one
microsecond at least. -/
def blend (average : Option Nat) (micros : Nat) : Option Nat :=
  let sample := max micros 1
  match average with
  | none => some sample
  | some old => some ((old * 4 + sample) / 5)

/-- What the executors count. -/
structure ExecutorMetrics where
  /-- Jobs that were executed. -/
  jobs : Nat := 0
  /-- Sub-batches that were executed. -/
  subBatches : Nat := 0
  /-- Operations that were executed. -/
  ops : Nat := 0
  /-- Transactions that were done again. -/
  rollbacks : Nat := 0
  /-- Commands that were applied. -/
  commands : Nat := 0
  /-- Sub-batches that are submitted and not finished. -/
  inFlight : Nat := 0
  /-- How long a sub-batch takes, in microseconds, once that was observed. -/
  latency : Option Nat := none
  /-- How long a sub-batch waits for a worker, in microseconds, once that was observed. -/
  queueWait : Option Nat := none
  deriving DecidableEq

namespace ExecutorMetrics

/-- Counts a job of the given number of operations. -/
def recordJob (m : ExecutorMetrics) (ops : Nat) : ExecutorMetrics :=
  { m with jobs := m.jobs + 1, ops := m.ops + ops }

/-- Counts a transaction that is done again. -/
def recordRollback (m : ExecutorMetrics) : ExecutorMetrics :=
  { m with rollbacks := m.rollbacks + 1 }

/-- Counts a command. -/
def recordCommand (m : ExecutorMetrics) : ExecutorMetrics := { m with commands := m.commands + 1 }

/-- Counts sub-batches as submitted. -/
def submit (m : ExecutorMetrics) (count : Nat) : ExecutorMetrics :=
  { m with inFlight := m.inFlight + count }

/-- Counts sub-batches as finished. -/
def finish (m : ExecutorMetrics) (count : Nat) : ExecutorMetrics :=
  { m with inFlight := m.inFlight - count }

/-- Counts a sub-batch that took the given time. -/
def recordSubBatch (m : ExecutorMetrics) (micros : Nat) : ExecutorMetrics :=
  { m with subBatches := m.subBatches + 1, latency := blend m.latency micros }

/-- Notes how long sub-batches waited. -/
def recordQueueWait (m : ExecutorMetrics) (micros : Nat) : ExecutorMetrics :=
  { m with queueWait := blend m.queueWait micros }

/-- The value of the counts; of the times only whether some were observed. -/
def toJson (m : ExecutorMetrics) : Json :=
  .object [("jobs", .ofNat m.jobs), ("sub_batches", .ofNat m.subBatches), ("ops", .ofNat m.ops),
    ("rollbacks", .ofNat m.rollbacks), ("commands", .ofNat m.commands),
    ("in_flight", .ofNat m.inFlight), ("has_latency", .bool m.latency.isSome)]

end ExecutorMetrics

/-- What the pipeline counts. -/
structure PipelineMetrics where
  /-- Flushed batches that were executed. -/
  batches : Nat := 0
  /-- Entries of them. -/
  appliedOps : Nat := 0
  /-- The size of the last one. -/
  lastBatchSize : Nat := 0
  /-- The size of the largest one. -/
  maxBatchSize : Nat := 0
  /-- The position up to which was applied. -/
  lastApplied : Position := Position.epoch
  deriving DecidableEq

namespace PipelineMetrics

/-- Counts an executed batch of the given size, and notes the position it reaches. -/
def record (m : PipelineMetrics) (size : Nat) (reached : Option Position) :
    PipelineMetrics where
  batches := m.batches + 1
  appliedOps := m.appliedOps + size
  lastBatchSize := size
  maxBatchSize := max m.maxBatchSize size
  lastApplied := reached.getD m.lastApplied

/-- The value of the counts. -/
def toJson (m : PipelineMetrics) : Json :=
  .object [("batches", .ofNat m.batches), ("applied_ops", .ofNat m.appliedOps),
    ("last_batch_size", .ofNat m.lastBatchSize), ("max_batch_size", .ofNat m.maxBatchSize),
    ("last_applied", .str m.lastApplied.text)]

end PipelineMetrics

end Replica
