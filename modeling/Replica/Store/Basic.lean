import Replica.Filters
import Replica.ReplicationError

/-!
# The document store

A store holds databases of collections of documents. A collection finds a document by its key and by
an internal number that is never given out twice (`Did`); it also has secondary indexes. This module
has the state and what can be read from it. The writes are in `Store/Write.lean` and transactions in
`Store/Commit.lean`.
-/

namespace Replica

/-- The internal number of a document. -/
abbrev Did := Nat

/-- A collection of documents. -/
structure Collection where
  /-- The documents by number. -/
  docs : Table Did Json
  /-- The numbers by document key. -/
  ids : Table DocKey Did
  /-- The secondary indexes by name. -/
  indexes : Table String IndexSpec

/-- The collection without documents and indexes. -/
def Collection.empty : Collection := ⟨∅, ∅, ∅⟩

/-- A database: its collections by name. -/
abbrev Database := Table String Collection

/-- What a store holds: its databases by name. -/
abbrev Databases := Table String Database

/-- Which of the coming commits are refused with a request to do them again: first some are spared,
then some are refused, and none after them. -/
structure Refusals where
  /-- How many commits are spared. -/
  spared : Nat := 0
  /-- How many commits are refused behind them. -/
  refused : Nat := 0
  deriving DecidableEq

namespace Refusals

/-- Whether the next commit is refused, and what is left for those behind it. -/
def next : Refusals → Bool × Refusals
  | ⟨n + 1, refused⟩ => (false, ⟨n, refused⟩)
  | ⟨0, n + 1⟩ => (true, ⟨0, n⟩)
  | ⟨0, 0⟩ => (false, ⟨0, 0⟩)

end Refusals

/-- A store. Its faults are part of it: commits can be told to fail. -/
structure Store where
  /-- The committed databases; none of them is without collections. -/
  databases : Databases := ∅
  /-- The number that the next document gets. -/
  nextDid : Did := 0
  /-- Which of the coming commits are refused. -/
  refusals : Refusals := {}
  /-- The collections to which no commit succeeds. -/
  failing : List Namespace := []
  /-- How many commits succeeded. -/
  commits : Nat := 0

namespace Databases

/-- The database with a name; one that is not there has no collections. -/
def database (s : Databases) (name : String) : Database := (s.get? name).getD ∅

/-- Puts a database in place; one without collections is left out. -/
def setDatabase (s : Databases) (name : String) (db : Database) : Databases :=
  if db.isEmpty then s.erase name else s.insert name db

/-- The collection that a namespace names. -/
def collection? (s : Databases) (ns : Namespace) : Option Collection :=
  (s.database ns.database).get? ns.collection

end Databases

namespace Collection

/-- The documents in the order of their keys. -/
def contents (c : Collection) : List Json := c.ids.values.filterMap c.docs.get?

/-- The document with a key. -/
def document? (c : Collection) (key : DocKey) : Option Json := (c.ids.get? key).bind c.docs.get?

end Collection

namespace Store

/-- The store without databases. -/
def empty : Store := {}

/-- The collection that a namespace names. -/
def collection? (s : Store) (ns : Namespace) : Option Collection := s.databases.collection? ns

/-- The numbers of the documents with the given keys; keys without a document are left out. -/
def findDids (s : Store) (ns : Namespace) (keys : List DocKey) : Table DocKey Did :=
  match s.collection? ns with
  | none => ∅
  | some c => Table.ofList (keys.filterMap fun key => (c.ids.get? key).map fun did => (key, did))

/-- The documents with the given numbers; numbers without a document are left out. -/
def fetch (s : Store) (ns : Namespace) (dids : List Did) : Table Did Json :=
  match s.collection? ns with
  | none => ∅
  | some c => Table.ofList (dids.filterMap fun did => (c.docs.get? did).map fun doc => (did, doc))

/-- The documents of a collection in the order of their numbers. -/
def scan (s : Store) (ns : Namespace) : List Json :=
  (s.collection? ns).elim [] fun c => c.docs.values

/-- The documents of a collection in the order of their keys. -/
def contents (s : Store) (ns : Namespace) : List Json :=
  (s.collection? ns).elim [] Collection.contents

/-- The names of the databases. -/
def databaseNames (s : Store) : List String := s.databases.keys

/-- The names of the collections of a database. -/
def collectionNames (s : Store) (database : String) : List String :=
  (s.databases.database database).keys

/-- The secondary indexes of a collection, by name. -/
def indexes (s : Store) (ns : Namespace) : List IndexSpec :=
  (s.collection? ns).elim [] fun c => c.indexes.values

/-- Whether a collection is there. -/
def hasCollection (s : Store) (ns : Namespace) : Bool := (s.collection? ns).isSome

/-- The namespaces of the collections, by database and collection. -/
def namespaces (s : Store) : List Namespace :=
  s.databases.toList.flatMap fun (name, db) => db.keys.map fun collection => ⟨name, collection⟩

/-- The documents of every collection by the text of its namespace, the state of replication left
out. -/
def dump (s : Store) : Table String (List Json) :=
  Table.ofList ((s.namespaces.filter fun ns => ns.database ≠ reservedDatabase).map fun ns =>
    (ns.text, s.contents ns))

end Store

end Replica
