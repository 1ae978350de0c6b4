import Replica.Analysis.Batch
import Replica.Execution.State

/-!
# Executing a job

A job runs in one transaction. It finds the targets of its operations, reports those that are
missing, loads the documents that are modified, removes what is changed or deleted, and inserts the
results.
-/

namespace Replica.Job

/-- The numbers of the targets that are there. -/
def targets (job : Job) (s : Store) : Table DocKey Did :=
  let keys := (job.ops.filter fun op => op.effect.needsTarget).map NetOp.key
  if keys.isEmpty then ∅ else s.findDids job.ns keys

/-- The operations whose required targets are missing. -/
def mismatches (job : Job) (dids : Table DocKey Did) : List Mismatch :=
  (job.ops.filter fun op => op.requiresMatch && !dids.contains op.key).map NetOp.mismatch

/-- The contents of the targets that are modified. -/
def loaded (job : Job) (dids : Table DocKey Did) (s : Store) : Table Did Json :=
  let wanted := (job.ops.filter fun op => op.effect.needsContent).filterMap fun op =>
    dids.get? op.key
  if wanted.isEmpty then ∅ else s.fetch job.ns wanted

/-- The numbers of the targets that are removed. -/
def removed (job : Job) (dids : Table DocKey Did) : List Did :=
  (job.ops.filter fun op => op.effect.removesTarget).filterMap fun op => dids.get? op.key

/-- The documents that are inserted, or the first operation that cannot be applied. -/
def inserted (job : Job) (dids : Table DocKey Did) (docs : Table Did Json) :
    Except EntryError (List Json) := do
  let results ← job.ops.mapM fun op =>
    let did := dids.get? op.key
    op.result did.isSome (did.bind docs.get?)
  return results.filterMap id

/-- The writes of a job whose targets were found and loaded. -/
def writes (job : Job) (dids : Table DocKey Did) (docs : Table Did Json) :
    Except ReplicationError Transaction :=
  match job.inserted dids docs with
  | .error e => .error (.entry e)
  | .ok results =>
    .ok ((Transaction.delete [] job.ns (job.removed dids)).insert job.ns results)

/-- The writes of a job on a store. -/
def plan (job : Job) (strictness : Strictness) (s : Store) :
    Except ReplicationError Transaction :=
  let dids := job.targets s
  let missing := job.mismatches dids
  if strictness = .strict ∧ ¬ missing.isEmpty then
    .error (.jobMismatch job.ns.database job.ns.collection missing)
  else job.writes dids (job.loaded dids s)

/-- Executes a job. -/
def apply (job : Job) (strictness : Strictness) (w : Workplace) :
    Except ReplicationError Unit × Workplace :=
  w.perform (job.plan strictness) fun m => m.recordJob job.ops.length

/-- Executes jobs one after another, up to the first that fails. -/
def applyAll (strictness : Strictness) :
    List Job → Workplace → Except ReplicationError Unit × Workplace
  | [], w => (.ok (), w)
  | job :: jobs, w =>
    match job.apply strictness w with
    | (.ok (), w) => applyAll strictness jobs w
    | outcome => outcome

end Replica.Job
