import Replica.Analysis.Batch
import Replica.Entry.Codec

/-!
# Executable batches as values

The form in which executable batches are shown: a job by its collection and operations, an operation
by its identifier, its key and its effect.
-/

namespace Replica

/-- The value of a modifier. -/
def Modifier.toJson : Modifier → Json
  | set path value => .object [("set", .str path), ("value", value)]
  | unset path => .object [("unset", .str path)]

/-- The members that show what an effect works with. -/
def Effect.toMembers : Effect → Json.Members
  | insert doc | replace doc | deleteCreate doc => [("doc", doc)]
  | update modifiers _ => [("modifiers", .arr (modifiers.map Modifier.toJson))]
  | noop | delete => []

/-- The value of a net operation. -/
def NetOp.toJson (op : NetOp) : Json :=
  .object ([("kind", .str op.effect.name), ("id", op.id), ("key", .str op.key.text),
    ("requires_match", .bool op.requiresMatch)] ++ op.effect.toMembers)

/-- The value of a job. -/
def Job.toJson (job : Job) : Json :=
  .object [("ns", .str job.ns.text), ("ops", .arr (job.ops.map NetOp.toJson))]

/-- The value of a batch. -/
def Batch.toJson : Batch → Json
  | noop => .str "noop"
  | command e => .object [("command", e.toJson)]
  | jobs l => .object [("cud", .arr (l.map Job.toJson)), ("op_count", .ofNat (Job.count l))]

end Replica
