import Replica.Checkpoint.Basic
import Replica.Execution.Executor
import Replica.Pipeline.Accumulation

/-!
# The pipeline

A run reads a source, joins its batches, interprets and executes them in order, and moves the
checkpoint to the tail of each joined batch once all that came of it was applied. It stops at the
first failure, and where the token fires; the checkpoint then lies behind a batch that was applied
completely.
-/

namespace Replica

/-- What applies the log to a store. -/
structure Pipeline where
  /-- When batches are handed on. -/
  limits : PipelineLimits := {}
  /-- What is replicated. -/
  filters : Filters := {}
  /-- What applies batches. -/
  executor : Executor := {}

/-- What a run changes. -/
structure Applied where
  /-- The store, what the executor counted, and the token. -/
  work : Workplace
  /-- The checkpoint. -/
  checkpoint : Checkpoint
  /-- What the pipeline counted. -/
  metrics : PipelineMetrics := {}
  /-- The batches that were handed to the executor in this run, the last one possibly without
  success. -/
  executed : List Batch := []

/-- What happens to a run from outside, counted in batches of the executor. -/
structure Disturbance where
  /-- The token fires as soon as so many batches were applied. -/
  cancelAfter : Option Nat := none
  /-- The executor is lost at the batch with this number, counted from one. -/
  lostAt : Option Nat := none

namespace Pipeline

/-- Applies a batch, unless the token has fired. -/
def applyBatch (p : Pipeline) (c : Context) (d : Disturbance) (b : Batch) (s : Applied) :
    Except ReplicationError Unit × Applied :=
  if s.work.cancel.fired then (.error .cancelled, s)
  else
    let s := { s with executed := s.executed ++ [b] }
    if d.lostAt = some s.executed.length then (.error (.stageLost "execute"), s)
    else
      let (result, work) := p.executor.apply c b s.work
      let work :=
        if d.cancelAfter = some s.executed.length then { work with cancel := work.cancel.fire }
        else work
      (result, { s with work := work })

/-- Applies batches in order, up to the first that fails. -/
def applyBatches (p : Pipeline) (c : Context) (d : Disturbance) :
    List Batch → Applied → Except ReplicationError Unit × Applied
  | [], s => (.ok (), s)
  | b :: bs, s =>
    match p.applyBatch c d b s with
    | (.ok (), s) => applyBatches p c d bs s
    | failed => failed

/-- Moves the checkpoint to the tail of a batch that was applied, and counts it. -/
def complete (b : RawBatch) (s : Applied) : Except ReplicationError Unit × Applied :=
  let counted (s : Applied) : Applied :=
    { s with metrics := s.metrics.record b.size (b.tail.map Mark.position) }
  match b.tail with
  | none => (.ok (), counted s)
  | some tail =>
    match s.checkpoint.advance tail s.work.store with
    | (.ok (), checkpoint, store) =>
      (.ok (), counted { s with checkpoint := checkpoint, work := { s.work with store := store } })
    | (.error e, checkpoint, store) =>
      (.error e, { s with checkpoint := checkpoint, work := { s.work with store := store } })

/-- Interprets, applies and completes a batch that was handed on. -/
def execute (p : Pipeline) (c : Context) (d : Disturbance) (b : RawBatch) (s : Applied) :
    Except ReplicationError Unit × Applied :=
  if s.work.cancel.fired then (.error .cancelled, s)
  else
    match Batch.ofEntries c b.entries with
    | .error e => (.error (.entry e), s)
    | .ok batches =>
      match p.applyBatches c d batches s with
      | (.ok (), s) => complete b s
      | failed => failed

/-- Executes batches in order, up to the first that fails. -/
def executeAll (p : Pipeline) (c : Context) (d : Disturbance) :
    List RawBatch → Applied → Except ReplicationError Unit × Applied
  | [], s => (.ok (), s)
  | b :: bs, s =>
    match p.execute c d b s with
    | (.ok (), s) => executeAll p c d bs s
    | failed => failed

/-- Applies what a source delivers. A run whose token has fired counts as cancelled, also if nothing
was left to do. -/
def run (p : Pipeline) (c : Context) (d : Disturbance) (source : Source) (s : Applied) :
    Except ReplicationError Unit × Applied :=
  let fired := s.work.cancel.fired || d.cancelAfter = some 0
  let cancel : Cancellation := { s.work.cancel with fired := fired }
  let s := { s with work := { s.work with cancel := cancel }, executed := [] }
  let (handedOn, ending) := Accumulation.flushes p.limits p.filters none source
  match p.executeAll c d handedOn s with
  | (.error e, s) => (.error e, s)
  | (.ok (), s) =>
    if s.work.cancel.fired then (.error .cancelled, s)
    else
      match ending with
      | .finished => (.ok (), s)
      | .failed e => (.error e, s)

end Pipeline

end Replica
