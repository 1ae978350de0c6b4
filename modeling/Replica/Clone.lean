import Replica.Store.Commit

/-!
# Cloning a database

A database is copied in one transaction: each collection that is replicated is created, filled with
all its documents, and given those of its indexes that are replicated. The index on the identifier
comes with the collection.
-/

namespace Replica.Clone

/-- The collections of a database of `data` that are copied. -/
def collections (filters : Filters) (data : Store) (database : String) : List Namespace :=
  ((data.collectionNames database).map fun name => ⟨database, name⟩).filter
    filters.acceptsNamespace

/-- The indexes of a collection of `data` that are copied. -/
def indexes (filters : Filters) (data : Store) (ns : Namespace) : List IndexSpec :=
  (data.indexes ns).filter fun index =>
    index.name ≠ IndexSpec.idIndex && filters.acceptsIndex ns index.name

/-- The writes that copy a collection of `data`. -/
def writes (filters : Filters) (withIndexes : Bool) (data : Store) (ns : Namespace) :
    Transaction :=
  Transaction.insert [.createCollection ns] ns (data.scan ns) ++
    if withIndexes then (indexes filters data ns).map (.createIndex ns) else []

/-- The writes that copy a database of `data`. -/
def plan (filters : Filters) (withIndexes : Bool) (data : Store) (database : String) :
    Transaction :=
  (collections filters data database).flatMap (writes filters withIndexes data)

/-- Says of a failure that it concerns cloning a database. -/
def failure (database : String) (cause : ReplicationError) : ReplicationError :=
  .cloning database cause.message

/-- Copies a database of `data` into the store `s`. -/
def run (filters : Filters) (withIndexes : Bool) (data : Store) (database : String) (s : Store) :
    Except ReplicationError Unit × Store :=
  let (result, s) := s.commit (plan filters withIndexes data database)
  (result.mapError (failure database), s)

/-- The writes that drop the databases of users: all but the member's own data and the state of
replication. -/
def dropUserDatabases (s : Store) : Transaction :=
  (s.databaseNames.filter fun name => name ≠ reservedDatabase && name ≠ localDatabase).map
    .dropDatabase

end Replica.Clone
