import Replica.Backoff

/-!
# Settings

The limits of accumulating batches, the sizes of sub-batches, the way of execution, and the patience
of checkpoint and initial sync.
-/

namespace Replica

/-- The limits of accumulation. -/
structure PipelineLimits where
  /-- The number of entries from which on a batch is flushed. -/
  maxBatchSize : Nat := 1000
  /-- How long a batch is held back at most. -/
  period : Duration := Duration.ofMillis 100
  /-- How many fetched batches wait to be accumulated. -/
  bufferCapacity : Nat := 64
  /-- How many flushed batches wait to be executed. -/
  stageCapacity : Nat := 2

namespace PipelineLimits

/-- Sets the batch size, one at least. -/
def withMaxBatchSize (l : PipelineLimits) (size : Nat) : PipelineLimits :=
  { l with maxBatchSize := max size 1 }

/-- Sets the number of fetched batches that wait, one at least. -/
def withBufferCapacity (l : PipelineLimits) (capacity : Nat) : PipelineLimits :=
  { l with bufferCapacity := max capacity 1 }

/-- Sets the number of flushed batches that wait, one at least. -/
def withStageCapacity (l : PipelineLimits) (capacity : Nat) : PipelineLimits :=
  { l with stageCapacity := max capacity 1 }

end PipelineLimits

/-- The sizes of sub-batches. -/
structure SubBatchSizes where
  /-- The smallest size. -/
  least : Nat := 16
  /-- The size before any latency was observed. -/
  target : Nat := 300
  /-- The largest size. -/
  greatest : Nat := 2000
  /-- How long a sub-batch should take. -/
  latency : Duration := Duration.ofMillis 50

/-- The way of execution. -/
structure ExecutorSettings where
  /-- Whether sub-batches run on a worker pool. -/
  concurrent : Bool := true
  /-- The number of workers. -/
  workers : Nat := 4
  /-- The sizes of sub-batches. -/
  sizes : SubBatchSizes := {}

/-- Sets the number of workers, one at least. -/
def ExecutorSettings.withWorkers (x : ExecutorSettings) (workers : Nat) : ExecutorSettings :=
  { x with workers := max workers 1 }

/-- The patience of initial sync. -/
structure SyncSettings where
  /-- The number of attempts. -/
  maxAttempts : Nat := 10
  /-- The step by which the wait before an attempt grows. -/
  step : Duration := Duration.ofMillis 1000

/-- Sets the number of attempts, one at least. -/
def SyncSettings.withMaxAttempts (s : SyncSettings) (attempts : Nat) : SyncSettings :=
  { s with maxAttempts := max attempts 1 }

/-- All settings. -/
structure Settings where
  /-- The limits of accumulation. -/
  pipeline : PipelineLimits := {}
  /-- The way of execution. -/
  executor : ExecutorSettings := {}
  /-- The attempts at storing the checkpoint. -/
  checkpoint : Backoff := Backoff.ofAttempts 5
  /-- The patience of initial sync. -/
  sync : SyncSettings := {}

end Replica
