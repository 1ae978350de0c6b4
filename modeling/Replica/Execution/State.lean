import Replica.Metrics
import Replica.Store.Commit

/-!
# What execution works on

Jobs and commands change a store and count what they do. A cancellation may arrive while they run:
it is told by the write transaction at whose opening it arrives.
-/

namespace Replica

/-- A token that tells running work to stop. -/
structure Cancellation where
  /-- Whether the token has fired. -/
  fired : Bool := false
  /-- Which of the write transactions still to be opened fires the token, counted from one; none of
  them if it is zero. -/
  fuse : Nat := 0
  deriving DecidableEq

namespace Cancellation

/-- Fires the token. -/
def fire (c : Cancellation) : Cancellation := { c with fired := true }

/-- Notes that a write transaction is opened. -/
def burn (c : Cancellation) : Cancellation :=
  match c.fuse with
  | 0 => c
  | 1 => ⟨true, 0⟩
  | n + 2 => { c with fuse := n + 1 }

end Cancellation

/-- What execution works on. -/
structure Workplace where
  /-- The store. -/
  store : Store
  /-- What was counted. -/
  metrics : ExecutorMetrics := {}
  /-- The token that the work watches. -/
  cancel : Cancellation := {}

namespace Workplace

/-- How often a transaction is done again when the store asks for it. -/
def retries : Nat := 1

/-- Opens a write transaction, lets `plan` decide on its writes by what can be read, and commits
them. -/
def transact (w : Workplace) (plan : Store → Except ReplicationError Transaction) :
    Except ReplicationError Unit × Workplace :=
  let w := { w with cancel := w.cancel.burn }
  match plan w.store with
  | .error e => (.error e, w)
  | .ok writes =>
    let (result, store) := w.store.commit writes
    (result, { w with store := store })

/-- Transacts, and does it again up to `n` times while the store asks for that. -/
def transactRetrying (plan : Store → Except ReplicationError Transaction) :
    (n : Nat) → Workplace → Except ReplicationError Unit × Workplace
  | 0, w => w.transact plan
  | n + 1, w =>
    match w.transact plan with
    | (.error (.rollback _), w) =>
      transactRetrying plan n { w with metrics := w.metrics.recordRollback }
    | outcome => outcome

/-- Transacts with the usual number of retries, and counts the success with `record`. -/
def perform (w : Workplace) (plan : Store → Except ReplicationError Transaction)
    (record : ExecutorMetrics → ExecutorMetrics) : Except ReplicationError Unit × Workplace :=
  match transactRetrying plan retries w with
  | (.ok (), w) => (.ok (), { w with metrics := record w.metrics })
  | outcome => outcome

end Workplace

end Replica
