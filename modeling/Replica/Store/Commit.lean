import Replica.Store.Write

/-!
# Transactions

A transaction is the list of the writes that were issued on it. What it reads is the committed
state. When it is committed, its writes are applied in order to copies of the databases they change
(`Write.stageAll`), and the copies take the place of these databases only if every write succeeds.
-/

namespace Replica

/-- The writes of an open transaction, in the order in which they were issued. -/
abbrev Transaction := List Write

namespace Transaction

/-- Removes documents. -/
def delete (t : Transaction) (ns : Namespace) (dids : List Did) : Transaction :=
  if dids.isEmpty then t else t ++ [.delete ns dids]

/-- Inserts documents. -/
def insert (t : Transaction) (ns : Namespace) (docs : List Json) : Transaction :=
  if docs.isEmpty then t else t ++ [.insert ns docs]

/-- Renames a collection, which stays in its database. -/
def rename (t : Transaction) (source target : Namespace) (dropTarget : Bool) :
    Except ReplicationError Transaction :=
  if source.database ≠ target.database then
    .error (.user ("cannot rename " ++ source.text ++ " to " ++ target.text ++
      " across databases"))
  else .ok (t ++ [.rename source target dropTarget])

end Transaction

namespace Databases

/-- Copies of the databases with the given names; one that is not there is copied as one without
collections. -/
def copies (s : Databases) (names : List String) : Databases :=
  Table.ofList (names.map fun name => (name, s.database name))

/-- Puts staged databases in the place of those with their names. -/
def install (s staged : Databases) : Databases :=
  staged.toList.foldl (fun s copy => s.setDatabase copy.1 copy.2) s

end Databases

namespace Write

/-- Applies a write to the staged database that it changes, which may be left without collections. -/
def stage (w : Write) (next : Did) (staged : Databases) :
    Except ReplicationError Databases × Did :=
  match w.onDatabase next (staged.database w.database) with
  | (.error e, next) => (.error e, next)
  | (.ok db, next) => (.ok (staged.insert w.database db), next)

/-- Applies writes to staged databases in order, up to the first that fails. -/
def stageAll : List Write → Did → Databases → Except ReplicationError Databases × Did
  | [], next, staged => (.ok staged, next)
  | w :: ws, next, staged =>
    match w.stage next staged with
    | (.error e, next) => (.error e, next)
    | (.ok staged, next) => stageAll ws next staged

end Write

namespace Store

/-- Makes the next `count` commits fail with a request to do them again. -/
def injectRollbacks (s : Store) (count : Nat) : Store :=
  { s with refusals := ⟨0, count⟩ }

/-- Makes every commit to a collection fail. -/
def failWritesTo (s : Store) (ns : Namespace) : Store := { s with failing := s.failing ++ [ns] }

/-- Lets commits to all collections succeed again. -/
def clearWriteFailures (s : Store) : Store := { s with failing := [] }

/-- The failing collection that some of the writes are about. -/
def failingTarget? (s : Store) (t : Transaction) : Option Namespace :=
  s.failing.find? fun ns => t.any fun w => w.touches ns

/-- Commits a transaction. One without writes succeeds and counts as none. -/
def commit (s : Store) (t : Transaction) : Except ReplicationError Unit × Store :=
  if t.isEmpty then (.ok (), s)
  else
    let (refused, refusals) := s.refusals.next
    let s := { s with refusals := refusals }
    if refused then (.error (.rollback "injected rollback"), s)
    else
      match s.failingTarget? t with
      | some ns => (.error (.user ("injected write failure on " ++ ns.text)), s)
      | none =>
        match Write.stageAll t s.nextDid (s.databases.copies (t.map Write.database)) with
        | (.error e, next) => (.error e, { s with nextDid := next })
        | (.ok staged, next) =>
          (.ok (), { s with
            databases := s.databases.install staged, nextDid := next, commits := s.commits + 1 })

/-- Inserts documents in a transaction of their own. -/
def seed (s : Store) (ns : Namespace) (docs : List Json) : Except ReplicationError Unit × Store :=
  s.commit (Transaction.insert [] ns docs)

/-- Creates an index in a transaction of its own. -/
def createIndex (s : Store) (ns : Namespace) (index : IndexSpec) :
    Except ReplicationError Unit × Store :=
  s.commit [.createIndex ns index]

end Store

end Replica
