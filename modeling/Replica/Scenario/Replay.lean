import Replica.Pipeline.Run
import Replica.Scenario.Comparison
import Replica.WorkerPool

/-!
# Replaying a scenario

A scenario is replayed into a new replica, and the report says how that ended, what the replica
holds, and in what that differs from what the scenario expects.
-/

namespace Replica

/-- How a scenario is replayed. -/
structure ReplayOptions where
  /-- Whether sub-batches run on a worker pool. -/
  concurrent : Bool := false
  /-- The number of workers, if it is given. -/
  workers : Option Nat := none
  /-- Whether the log is replayed as over cloned data. -/
  reapplying : Bool := false
  /-- The number of entries from which on a batch is flushed. -/
  maxBatchSize : Nat := 1000
  /-- The number of entries of a fetch. -/
  fetchSize : Nat := 100

/-- What came of a replay. -/
structure Report where
  /-- The name of the scenario. -/
  name : String
  /-- The checkpoint afterwards. -/
  checkpoint : Mark
  /-- The number of entries that were applied. -/
  applied : Nat
  /-- The number of batches they came in. -/
  batches : Nat
  /-- The failure with which the replay stopped. -/
  error : Option String
  /-- In what the outcome differs from what was expected. -/
  differences : List String
  /-- What the replica holds afterwards. -/
  state : CollectionState

namespace ReplayOptions

/-- The executor that the options ask for. -/
def executor (o : ReplayOptions) : Executor :=
  let settings : ExecutorSettings := { concurrent := o.concurrent }
  .ofSettings ((o.workers.map settings.withWorkers).getD settings) {}

/-- Whether the options ask for a pool that has more workers than it can count. -/
def overcrowded (o : ReplayOptions) : Bool :=
  o.concurrent && o.workers.any fun n => WorkerPool.limit < n

/-- The pipeline that the options ask for. -/
def pipeline (o : ReplayOptions) : Pipeline where
  limits := PipelineLimits.withMaxBatchSize {} o.maxBatchSize
  executor := o.executor

/-- How the entries are interpreted. -/
def context (o : ReplayOptions) : Context := if o.reapplying then .recovery else .steady

end ReplayOptions

/-- Whether a text occurs in another one. -/
def occursIn (part : List Char) : List Char → Bool
  | [] => part.isEmpty
  | c :: cs => part.isPrefixOf (c :: cs) || occursIn part cs

namespace Scenario

/-- In what the end of a replay differs from what is expected. -/
def unexpectedEnd (s : Scenario) (error : Option String) : List String :=
  match error, s.expectedError with
  | none, none => []
  | none, some part => ["expected an error containing '" ++ part ++ "'"]
  | some message, none => ["replay failed: " ++ message]
  | some message, some part =>
    if occursIn part.toList message.toList then []
    else ["expected an error containing '" ++ part ++ "', got '" ++ message ++ "'"]

/-- In what a state differs from what is expected. -/
def unexpectedState (s : Scenario) (state : CollectionState) : Except EntryError (List String) :=
  match s.expected with
  | none => .ok []
  | some expected => (CollectionState.ofDatabases expected).map (·.differences state)

/-- Puts documents into collections. -/
def seedAll : List (Namespace × List Json) → Store → Except ReplicationError Store
  | [], store => .ok store
  | (ns, docs) :: rest, store =>
    match store.seed ns docs with
    | (.ok (), store) => seedAll rest store
    | (.error e, _) => .error e

/-- The replica that holds the initial state of a scenario. -/
def replica (s : Scenario) : Except ScenarioError Applied :=
  match s.initialCollections with
  | .error e => .error (.content e)
  | .ok collections =>
    match seedAll collections {} with
    | .error e => .error (.setup e)
    | .ok store =>
      match Checkpoint.ofStore store (Settings.checkpoint {}).maxAttempts with
      | .error e => .error (.setup e)
      | .ok checkpoint => .ok { work := { store := store }, checkpoint := checkpoint }

/-- Replays the log of a scenario on a replica that holds its initial state. -/
def replayOn (s : Scenario) (o : ReplayOptions) (start : Applied) : Except EntryError Report := do
  let (outcome, after) := o.pipeline.run o.context {} (Source.ofEntries s.log o.fetchSize) start
  let error := match outcome with
    | .ok () => none
    | .error e => some e.message
  let state := after.work.store.dump
  let differences ← s.unexpectedState state
  return {
    name := s.name
    checkpoint := after.checkpoint.current
    applied := after.metrics.appliedOps
    batches := after.metrics.batches
    error := error
    differences := s.unexpectedEnd error ++ differences
    state := state }

/-- Replays a scenario. -/
def replay (s : Scenario) (o : ReplayOptions) : Except ScenarioError Report := do
  let start ← s.replica
  if o.overcrowded then throw .overcrowded
  (s.replayOn o start).mapError .content

end Scenario

namespace Report

/-- Whether the replay ended as the scenario expects. -/
def passed (r : Report) : Bool := r.differences.isEmpty

/-- The value of a report. What there is not is left out; the members have the order of the
report. -/
def toJson (r : Report) : Json :=
  let error : Json.Members := r.error.toList.map fun e => ("error", .str e)
  let differences : Json.Members :=
    if r.differences.isEmpty then [] else [("differences", .ofTexts r.differences)]
  .obj ([("name", .str r.name), ("passed", .bool r.passed), ("checkpoint", r.checkpoint.toJson),
    ("applied_ops", .ofNat r.applied), ("batches", .ofNat r.batches)] ++ error ++ differences ++
    [("state", .obj (r.state.toList.map fun b => (b.1, .arr b.2)))])

/-- The lines of a report. -/
def lines (r : Report) : List String :=
  let documents := r.state.toList.flatMap fun (text, docs) =>
    (text ++ " (" ++ Json.integerText docs.length ++ " documents)") ::
      docs.map fun doc => "  " ++ doc.render
  ["Scenario: " ++ r.name,
    "Checkpoint: hash " ++ Json.integerText r.checkpoint.hash.toInt ++ " at " ++
      r.checkpoint.position.text,
    "Applied " ++ Json.integerText r.applied ++ " entries in " ++ Json.integerText r.batches ++
      " batches"] ++
    r.error.toList.map ("Stopped with: " ++ ·) ++ documents ++
    r.differences.map ("MISMATCH " ++ ·) ++
    ["Result: " ++ if r.passed then "PASS" else "FAIL"]

end Report

end Replica
