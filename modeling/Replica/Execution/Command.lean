import Replica.Context
import Replica.Execution.State

/-!
# Applying commands

Each command runs in a transaction of its own. Dropping what is not there succeeds: a replay meets
drops of what is already dropped.
-/

namespace Replica.Command

/-- The writes of a command on a collection. -/
def plan (command : Command) (ns : Namespace) (filters : Filters) (c : Context) (s : Store) :
    Except ReplicationError Transaction :=
  match command with
  | create => .ok [.createCollection ns]
  | drop => .ok [.dropCollection ns]
  | dropDatabase => .ok [.dropDatabase ns.database]
  | createIndexes indexes =>
    let accepted := indexes.filter fun index =>
      index.name ≠ IndexSpec.idIndex && filters.acceptsIndex ns index.name
    .ok (accepted.map fun index => .createIndex ns index)
  | dropIndexes index =>
    if index = "*" then .ok ((s.indexes ns).map fun index => .dropIndex ns index.name)
    else if index = IndexSpec.idIndex then .ok []
    else .ok [.dropIndex ns index]
  | renameCollection target dropTarget =>
    -- A source that is missing was renamed before, when the window was applied first.
    if !s.hasCollection ns && c.reapplying then .ok []
    else Transaction.rename [] ns (ns.sibling target) dropTarget
  | unsupported command => .error (.unsupportedOperation ("command " ++ command))

end Replica.Command

namespace Replica.Entry

/-- Applies the command of an entry. -/
def applyCommand (e : Entry) (filters : Filters) (c : Context) (w : Workplace) :
    Except ReplicationError Unit × Workplace :=
  match e.action with
  | .command (.unsupported command) =>
    (.error (.unsupportedOperation ("command " ++ command ++ " at " ++ e.position.text)), w)
  | .command command => w.perform (command.plan e.ns filters c) ExecutorMetrics.recordCommand
  | _ =>
    (.error (.unsupportedOperation
      (e.kindName ++ " at " ++ e.position.text ++ " is not a command")), w)

end Replica.Entry
