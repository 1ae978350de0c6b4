import Replica.StateRow

/-!
# The consistency flag

The flag says whether the data of a member is a consistent copy of the data of its source. Like the
checkpoint it is stored before it changes in memory. A member that never stored it is inconsistent.
-/

namespace Replica.Consistency

/-- The document of the flag. -/
def row : StateRow := ⟨"repl.state", "consistent"⟩

/-- The stored flag. -/
def load (s : Store) : Bool :=
  match (row.load? s).bind (·.member? "value") with
  | some (.bool b) => b
  | _ => false

/-- Stores the flag. -/
def save (consistent : Bool) (s : Store) : Except ReplicationError Unit × Store :=
  let (result, s) := row.save [("value", .bool consistent)] s
  (result.mapError .ofPersisting, s)

/-- Stores the flag; the value in memory follows if that succeeded. -/
def set (consistent cached : Bool) (s : Store) : Except ReplicationError Unit × Bool × Store :=
  match save consistent s with
  | (.ok (), s) => (.ok (), consistent, s)
  | (.error e, s) => (.error e, cached, s)

end Replica.Consistency
