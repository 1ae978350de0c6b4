import Replica.Execution.Command
import Replica.Execution.Job
import Replica.Execution.Sizing

/-!
# Executors

A sequential executor runs the jobs of a batch one after another. A concurrent executor splits them
into sub-batches and hands these to a worker pool. Sub-batches never share a document, so in every
order in which all of them succeed, the documents come out the same; here they run in the order in
which they are handed over.
-/

namespace Replica

/-- The way an executor runs the jobs of a batch. -/
inductive Dispatch where
  /-- One job after another. -/
  | sequential
  /-- Sub-batches on a pool of workers, which may have been stopped. -/
  | concurrent (workers : Nat) (sizing : Sizing) (running : Bool)

/-- What applies batches to a store. -/
structure Executor where
  /-- The way it runs jobs. -/
  dispatch : Dispatch := .sequential
  /-- What is replicated. -/
  filters : Filters := {}

namespace Executor

/-- The name of the pool of a concurrent executor. -/
def poolName : String := "relodb-apply"

/-- The time in microseconds that a sub-batch is taken to need and to wait: it is not measured. -/
def unmeasured : Nat := 0

/-- Runs sub-batches until the token fires: the failure to report, whether some were not started,
and the state afterwards. -/
def runSubBatches (strictness : Strictness) :
    List Job → Option ReplicationError → Workplace →
    Option ReplicationError × Bool × Workplace
  | [], failure, w => (failure, false, w)
  | job :: jobs, failure, w =>
    if w.cancel.fired then
      (failure, true, { w with metrics := w.metrics.finish (jobs.length + 1) })
    else
      let (result, w) := job.apply strictness w
      let w := { w with metrics := (w.metrics.recordSubBatch unmeasured).finish 1 }
      match result with
      | .ok () => runSubBatches strictness jobs failure w
      | .error e => runSubBatches strictness jobs (some (ReplicationError.first? failure e)) w

/-- Runs the jobs of a batch in sub-batches. -/
def runConcurrently (sizing : Sizing) (strictness : Strictness) (jobs : List Job)
    (w : Workplace) : Except ReplicationError Unit × Workplace :=
  let size := sizing.size w.metrics
  let subBatches := jobs.flatMap fun job => job.split size
  let w := { w with metrics := w.metrics.submit subBatches.length }
  match runSubBatches strictness subBatches none w with
  | (failure, interrupted, after) =>
    let started := after.metrics.subBatches - w.metrics.subBatches
    let after :=
      if started = 0 then after
      else { after with metrics := after.metrics.recordQueueWait unmeasured }
    match failure with
    | some e => (.error e, after)
    | none => (if interrupted then .error .cancelled else .ok (), after)

/-- Runs the jobs of a batch. -/
def runJobs (x : Executor) (c : Context) (jobs : List Job) (w : Workplace) :
    Except ReplicationError Unit × Workplace :=
  match x.dispatch with
  | .sequential => Job.applyAll c.strictness jobs w
  | .concurrent _ sizing true => runConcurrently sizing c.strictness jobs w
  | .concurrent _ _ false =>
    (.error (.workerPool ("pool " ++ poolName ++ " is not running")), w)

/-- Applies a batch. -/
def apply (x : Executor) (c : Context) (b : Batch) (w : Workplace) :
    Except ReplicationError Unit × Workplace :=
  match b with
  | .jobs jobs => x.runJobs c jobs w
  | .command entry => entry.applyCommand x.filters c w
  | .noop => (.ok (), w)

/-- Applies batches in order, up to the first that fails: the result, how many succeeded, and the
state afterwards. -/
def applyAll (x : Executor) (c : Context) :
    List Batch → Workplace → Except ReplicationError Unit × Nat × Workplace
  | [], w => (.ok (), 0, w)
  | b :: bs, w =>
    match x.apply c b w with
    | (.error e, w) => (.error e, 0, w)
    | (.ok (), w) =>
      let (result, done, w) := applyAll x c bs w
      (result, done + 1, w)

/-- Interprets entries and applies their batches. -/
def applyEntries (x : Executor) (c : Context) (entries : List Entry) (w : Workplace) :
    Except ReplicationError Unit × Workplace :=
  match Batch.ofEntries c entries with
  | .error e => (.error (.entry e), w)
  | .ok batches =>
    let (result, _, w) := x.applyAll c batches w
    (result, w)

/-- The executor that the settings ask for. -/
def ofSettings (settings : ExecutorSettings) (filters : Filters) : Executor where
  dispatch :=
    if settings.concurrent then .concurrent settings.workers (.adaptive settings.sizes) true
    else .sequential
  filters := filters

end Executor

end Replica
