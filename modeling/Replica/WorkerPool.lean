import Replica.Json.Printer
import Replica.ReplicationError

/-!
# Worker pools

A pool runs tasks, a bounded number at a time. It is created stopped. Once the token fires no
further task is started, and those that run are left to finish. The results of the tasks that were
started come in the order in which they finish, which is not told here: the tasks are taken one
after another.
-/

namespace Replica

/-- A pool of workers. -/
structure WorkerPool where
  /-- The name of the pool. -/
  name : String
  /-- How many tasks run at a time. -/
  workers : Nat
  /-- Whether the pool takes tasks. -/
  running : Bool := false

/-- What a task does. -/
inductive Task where
  /-- Ends with a value. -/
  | value (v : Json)
  /-- Ends abnormally. -/
  | crash
  /-- Fires the token of the run and ends with a value. -/
  | cancel (v : Json)

/-- What a run of tasks gave. -/
structure Completed where
  /-- The results of the tasks that were started. -/
  results : List (Except ReplicationError Json)
  /-- Whether some tasks were not started. -/
  interrupted : Bool

namespace WorkerPool

/-- The largest number of workers that a pool can count. -/
def limit : Nat := Nat.pow 2 61 - 1

/-- A stopped pool, with one worker at least. -/
def ofWorkers (name : String) (workers : Nat) : WorkerPool := ⟨name, max workers 1, false⟩

/-- Lets the pool take tasks. -/
def start (p : WorkerPool) : WorkerPool := { p with running := true }

/-- Lets the pool take no more tasks. -/
def stop (p : WorkerPool) : WorkerPool := { p with running := false }

/-- Runs tasks until the token fires. -/
def runTasks (p : WorkerPool) : (cancelled : Bool) → List Task → Completed
  | _, [] => ⟨[], false⟩
  | true, _ :: _ => ⟨[], true⟩
  | false, task :: tasks =>
    let (result, cancelled) : Except ReplicationError Json × Bool := match task with
      | .value v => (.ok v, false)
      | .crash => (.error (.workerPool ("task on pool " ++ p.name ++ " failed")), false)
      | .cancel v => (.ok v, true)
    let later := runTasks p cancelled tasks
    ⟨result :: later.results, later.interrupted⟩

/-- Runs tasks, which a stopped pool refuses. -/
def run (p : WorkerPool) (cancelled : Bool) (tasks : List Task) :
    Except ReplicationError Completed :=
  if p.running then .ok (p.runTasks cancelled tasks)
  else .error (.workerPool ("pool " ++ p.name ++ " is not running"))

end WorkerPool

end Replica
