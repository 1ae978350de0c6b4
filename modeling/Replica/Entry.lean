import Replica.Namespace
import Replica.Position
import Replica.Update

/-!
# Log entries

An entry of the log changes one document, changes the schema by a command, or does nothing but
advance the log.
-/

namespace Replica

/-- The definition of a secondary index. -/
structure IndexSpec where
  /-- The name, unique within the collection. -/
  name : String
  /-- The paths of the indexed fields. -/
  keys : List String
  /-- Whether no two documents may agree in all indexed fields. -/
  unique : Bool
  deriving DecidableEq

/-- The name of the index on the identifier, which every collection has. -/
def IndexSpec.idIndex : String := "_id_"

/-- A command of the log. -/
inductive Command where
  /-- Creates the collection. -/
  | create
  /-- Drops the collection. -/
  | drop
  /-- Drops the database. -/
  | dropDatabase
  /-- Creates indexes of the collection. -/
  | createIndexes (indexes : List IndexSpec)
  /-- Drops an index by name, or all of them with `*`. -/
  | dropIndexes (index : String)
  /-- Gives the collection another name within its database. -/
  | renameCollection (target : String) (dropTarget : Bool)
  /-- A command that cannot be applied. -/
  | unsupported (command : String)
  deriving DecidableEq

/-- The name of a command in the log. -/
def Command.name : Command → String
  | create => "create"
  | drop => "drop"
  | dropDatabase => "dropDatabase"
  | createIndexes _ => "createIndexes"
  | dropIndexes _ => "dropIndexes"
  | renameCollection _ _ => "renameCollection"
  | unsupported command => command

/-- What an entry does. -/
inductive Action where
  /-- Inserts a document. -/
  | insert (doc : Json)
  /-- Updates the document with the identifier; an upsert creates it if it is missing. -/
  | update (id update : Json) (upsert : Bool)
  /-- Deletes the document with the identifier. -/
  | delete (id : Json)
  /-- Does nothing. -/
  | noop
  /-- Changes the schema. -/
  | command (command : Command)
  deriving DecidableEq

/-- An entry of the log. -/
structure Entry where
  /-- Where the entry stands in the log. -/
  position : Position
  /-- The hash that the entry was given when it was written. -/
  hash : Int64
  /-- The collection that the entry is about. -/
  ns : Namespace
  /-- What the entry does. -/
  action : Action
  deriving DecidableEq

namespace Entry

/-- Whether the entry changes a document. -/
def isCrud (e : Entry) : Bool :=
  match e.action with
  | .insert _ | .update .. | .delete _ => true
  | .noop | .command _ => false

/-- Whether the entry is a command. -/
def isCommand (e : Entry) : Bool :=
  match e.action with
  | .command _ => true
  | _ => false

/-- The name of what the entry does. -/
def kindName (e : Entry) : String :=
  match e.action with
  | .insert _ => "insert"
  | .update .. => "update"
  | .delete _ => "delete"
  | .noop => "noop"
  | .command command => command.name

/-- The identifier of the document that the entry changes. -/
def documentId? (e : Entry) : Except EntryError (Option Json) :=
  match e.action with
  | .insert doc => (documentId doc).map some
  | .update id _ _ | .delete id =>
    if id = .null then
      .error (.invalidDocument (e.kindName ++ " at " ++ e.position.text ++ " has a null _id"))
    else .ok (some id)
  | .noop | .command _ => .ok none

/-- The key of the document that the entry changes. -/
def docKey? (e : Entry) : Except EntryError (Option DocKey) :=
  e.documentId?.map (·.map DocKey.ofId)

/-- Refuses an entry that cannot be applied: one without a usable identifier, with a malformed
update or with a command that is not supported. -/
def checkSupported (e : Entry) : Except EntryError Unit := do
  let _ ← e.documentId?
  match e.action with
  | .update _ update _ =>
    let _ ← Update.parse update
  | .command (.unsupported command) => throw (.unsupportedCommand command)
  | _ => return ()

end Entry

end Replica
