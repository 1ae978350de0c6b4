import Replica.Analysis.View
import Replica.InitialSync.Run
import Replica.Main
import Replica.Store.View
import Replica.WorkerPool
import Replica.Proofs.Decimal.Faithful
import Replica.Proofs.Json.Unambiguous
import Replica.Proofs.Json.Canonical
import Replica.Proofs.Json.Alike
import Replica.Proofs.Json.Records
import Replica.Proofs.Store.Collection
import Replica.Proofs.Store.Documents
import Replica.Proofs.Store.Staging
import Replica.Proofs.Store.Reachable
import Replica.Proofs.Store.Layout
import Replica.Proofs.Store.Schema
import Replica.Proofs.Store.Indexes
import Replica.Proofs.Store.Twins
import Replica.Proofs.Store.Numbers
import Replica.Proofs.Store.Sessions
import Replica.Proofs.Analysis.Effect
import Replica.Proofs.Analysis.Fold
import Replica.Proofs.Analysis.Identity
import Replica.Proofs.Analysis.Batches
import Replica.Proofs.Analysis.Stretches
import Replica.Proofs.Execution.Perform
import Replica.Proofs.Execution.Refusals
import Replica.Proofs.Execution.JobEffect
import Replica.Proofs.Execution.BatchEffect
import Replica.Proofs.Execution.Cutting
import Replica.Proofs.Execution.SubBatches
import Replica.Proofs.Execution.Commits
import Replica.Proofs.Execution.CommandEffect
import Replica.Proofs.Execution.Schema
import Replica.Proofs.Execution.Twins
import Replica.Proofs.Execution.Pointwise
import Replica.Proofs.Execution.Interleaving
import Replica.Proofs.Execution.Schedules
import Replica.Proofs.Execution.AnyOrder
import Replica.Proofs.Execution.DuplicateInserts
import Replica.Proofs.Execution.AllOrNothing
import Replica.Proofs.Update.Replay
import Replica.Proofs.Update.Obstacles
import Replica.Proofs.Update.Idempotence
import Replica.Proofs.Analysis.Reapplication
import Replica.Proofs.Analysis.Stopping
import Replica.Proofs.Execution.CatchUp
import Replica.Proofs.Execution.SecondPass
import Replica.Proofs.Execution.CommandsAgain
import Replica.Proofs.StateRow
import Replica.Proofs.Checkpoint.Agreement
import Replica.Proofs.Pipeline.Carried
import Replica.Proofs.Pipeline.Stages
import Replica.Proofs.Pipeline.Simulation
import Replica.Proofs.Pipeline.Exact
import Replica.Proofs.Pipeline.Runs
import Replica.Proofs.Window
import Replica.Proofs.Log
import Replica.Proofs.InitialSync.Frame
import Replica.Proofs.InitialSync.Coverage
import Replica.Proofs.Pipeline.Writes
import Replica.Proofs.Pipeline.Twins
import Replica.Proofs.Consistency
import Replica.Proofs.Pipeline.Excluded
import Replica.Proofs.InitialSync.Moments
import Replica.Proofs.InitialSync.Passage
import Replica.Proofs.InitialSync.Copy
import Replica.Proofs.InitialSync.Replacement
import Replica.Proofs.InitialSync.Twins
import Replica.Proofs.InitialSync.Losses
import Replica.Proofs.InitialSync.Refusal
import Replica.Proofs.InitialSync.Reserved
import Replica.Proofs.Namespace
import Replica.Proofs.Position
import Replica.Proofs.Entry.RoundTrip
import Replica.Proofs.Update.Grammar
import Replica.Proofs.Analysis.Validation
import Replica.Proofs.Filters
import Replica.Proofs.Pipeline.Sizes
import Replica.Proofs.Scenario.Comparison
import Replica.Proofs.Scenario.Seeding
