import Replica.Store.Basic
import Replica.Text.Quoted

/-!
# Writes

A write changes one database. `Write.onDatabase` says what it makes of it, and which number is the
next free document number afterwards: a failing insert has used up numbers as far as it came. How
writes are committed is in `Store/Commit.lean`.
-/

namespace Replica

/-- A change of a store. -/
inductive Write where
  /-- Removes documents by number. -/
  | delete (ns : Namespace) (dids : List Did)
  /-- Inserts documents, and the collection if it is missing. -/
  | insert (ns : Namespace) (docs : List Json)
  /-- Creates a collection if it is missing. -/
  | createCollection (ns : Namespace)
  /-- Drops a collection if it is there. -/
  | dropCollection (ns : Namespace)
  /-- Drops all collections of a database. -/
  | dropDatabase (database : String)
  /-- Gives a collection another name, dropping one that has it if `dropTarget` is set. -/
  | rename (source target : Namespace) (dropTarget : Bool)
  /-- Creates an index, or puts it in place of one with its name. -/
  | createIndex (ns : Namespace) (index : IndexSpec)
  /-- Drops an index if it is there. -/
  | dropIndex (ns : Namespace) (name : String)

namespace IndexSpec

/-- The texts of the values that a document has in the fields of an index; a missing field counts
as null. -/
def tuple (index : IndexSpec) (doc : Json) : List String :=
  index.keys.map fun path => ((doc.follow? (pathSegments path)).getD .null).render

end IndexSpec

namespace Collection

/-- The unique index, if there is one, in which a document would collide with one that is there. -/
def collision? (c : Collection) (doc : Json) : Option IndexSpec :=
  c.indexes.values.find? fun index =>
    index.unique && c.docs.values.any fun other => index.tuple other == index.tuple doc

/-- Inserts a document under the number `did`. -/
def insert (c : Collection) (ns : Namespace) (did : Did) (doc : Json) :
    Except ReplicationError Collection :=
  match DocKey.ofDocument doc with
  | .error e => .error (.entry e)
  | .ok key =>
    if c.ids.contains key then .error (.duplicateKey ns.text key.text)
    else
      match c.collision? doc with
      | some index =>
        .error (.duplicateKey ns.text (index.name ++ " " ++ Text.quotedList (index.tuple doc)))
      | none => .ok { c with docs := c.docs.insert did doc, ids := c.ids.insert key did }

/-- Inserts documents under the numbers from `next` on, up to the first that fails: the collection
afterwards, and the next free number. -/
def insertAll (ns : Namespace) :
    (docs : List Json) → (next : Did) → Collection → Except ReplicationError Collection × Did
  | [], next, c => (.ok c, next)
  | doc :: docs, next, c =>
    match c.insert ns next doc with
    | .error e => (.error e, next)
    | .ok c => insertAll ns docs (next + 1) c

/-- Removes the document with a number, and its key. -/
def delete (c : Collection) (did : Did) : Collection :=
  match c.docs.get? did with
  | none => c
  | some doc =>
    { c with
      docs := c.docs.erase did
      ids := match DocKey.ofDocument doc with
        | .ok key => c.ids.erase key
        | .error _ => c.ids }

/-- Whether some text list occurs twice. -/
def hasRepetition : List (List String) → Bool
  | [] => false
  | t :: ts => ts.contains t || hasRepetition ts

/-- Creates an index, which must not be unique if documents agree in its fields. -/
def createIndex (c : Collection) (ns : Namespace) (index : IndexSpec) :
    Except ReplicationError Collection :=
  if index.unique && hasRepetition (c.docs.values.map index.tuple) then
    .error (.duplicateKey ns.text index.name)
  else .ok { c with indexes := c.indexes.insert index.name index }

end Collection

namespace Write

/-- The name of the database that a write changes. -/
def database : Write → String
  | delete ns _ | insert ns _ | createCollection ns | dropCollection ns | createIndex ns _
  | dropIndex ns _ => ns.database
  | rename source _ _ => source.database
  | dropDatabase database => database

/-- Whether a write is about a collection. -/
def touches (w : Write) (ns : Namespace) : Bool :=
  match w with
  | delete n _ | insert n _ | createCollection n | dropCollection n | createIndex n _
  | dropIndex n _ => n == ns
  | rename source target _ => source == ns || target == ns
  | dropDatabase database => database == ns.database

/-- Gives a collection of a database another name. -/
def renameIn (db : Database) (source target : Namespace) (dropTarget : Bool) :
    Except ReplicationError Database :=
  if db.contains target.collection && !dropTarget then
    .error (.user ("rename target " ++ target.text ++ " already exists"))
  else
    let db := db.erase target.collection
    match db.get? source.collection with
    | none => .error (.user ("rename source " ++ source.text ++ " does not exist"))
    | some c => .ok ((db.erase source.collection).insert target.collection c)

/-- What a write makes of its database, `next` being the next free document number. -/
def onDatabase (w : Write) (next : Did) (db : Database) :
    Except ReplicationError Database × Did :=
  match w with
  | delete ns dids =>
    match db.get? ns.collection with
    | none => (.ok db, next)
    | some c => (.ok (db.insert ns.collection (dids.foldl Collection.delete c)), next)
  | insert ns docs =>
    let c := (db.get? ns.collection).getD .empty
    match Collection.insertAll ns docs next c with
    | (.error e, next) => (.error e, next)
    | (.ok c, next) => (.ok (db.insert ns.collection c), next)
  | createCollection ns =>
    (.ok (db.insert ns.collection ((db.get? ns.collection).getD .empty)), next)
  | dropCollection ns => (.ok (db.erase ns.collection), next)
  | dropDatabase _ => (.ok ∅, next)
  | rename source target dropTarget => (renameIn db source target dropTarget, next)
  | createIndex ns index =>
    let c := (db.get? ns.collection).getD .empty
    ((c.createIndex ns index).map fun c => db.insert ns.collection c, next)
  | dropIndex ns name =>
    match db.get? ns.collection with
    | none => (.ok db, next)
    | some c => (.ok (db.insert ns.collection { c with indexes := c.indexes.erase name }), next)

end Write

end Replica
