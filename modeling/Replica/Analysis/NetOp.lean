import Replica.Context
import Replica.Entry
import Replica.ReplicationError

/-!
# Net operations

A net operation is what one entry, or several entries on one document folded together, does to that
document: `NetOp.ofEntry?` reads it off an entry, and `NetOp.result` says which document is there
afterwards.
-/

namespace Replica

/-- The effect of one or more entries on a document. -/
inductive Effect where
  /-- Nothing. -/
  | noop
  /-- A document is inserted that must not be there yet. -/
  | insert (doc : Json)
  /-- The document is removed if it is there. -/
  | delete
  /-- The document is replaced if it is there. -/
  | replace (doc : Json)
  /-- The document is removed if it is there, and then this one is inserted. -/
  | deleteCreate (doc : Json)
  /-- The document is modified; an upsert starts from the bare identifier if it is missing. -/
  | update (modifiers : List Modifier) (upsert : Bool)
  deriving DecidableEq

namespace Effect

/-- The name of an effect. -/
def name : Effect → String
  | noop => "noop"
  | insert _ => "insert"
  | delete => "delete"
  | replace _ => "replace"
  | deleteCreate _ => "delete-create"
  | update _ true => "upsert"
  | update _ false => "update"

/-- Whether the executor has to look the target up. -/
def needsTarget : Effect → Bool
  | noop | insert _ => false
  | _ => true

/-- Whether the executor has to load the target. -/
def needsContent : Effect → Bool
  | update .. => true
  | _ => false

/-- Whether a target that is there is removed. -/
def removesTarget : Effect → Bool
  | noop | insert _ => false
  | _ => true

end Effect

/-- The effect of one or more entries on the document with an identifier. -/
structure NetOp where
  /-- The identifier. -/
  id : Json
  /-- The effect. -/
  effect : Effect
  /-- Whether a missing target is an error. -/
  requiresMatch : Bool
  deriving DecidableEq

namespace NetOp

/-- The key of the target. -/
def key (op : NetOp) : DocKey := DocKey.ofId op.id

/-- What is reported if the target is missing. -/
def mismatch (op : NetOp) : Mismatch := ⟨op.key, op.effect.name⟩

/-- The document that holds an identifier and nothing else. -/
def bareDocument (id : Json) : Json := .obj [(idField, id)]

/-- The effect of an entry in a context; nothing for an entry that changes no document. -/
def ofEntry? (c : Context) (e : Entry) : Except EntryError (Option NetOp) :=
  match e.action with
  | .insert doc => do
    let id ← documentId doc
    return some ⟨id, if c.reapplying then .deleteCreate doc else .insert doc, false⟩
  | .update id update upsert => do
    let _ ← e.documentId?
    let upsert := upsert || c.upserts
    match ← Update.parse update with
    | .replace doc =>
      let doc ← withId doc id
      return some (if upsert then ⟨id, .deleteCreate doc, false⟩ else ⟨id, .replace doc, true⟩)
    | .modify modifiers => return some ⟨id, .update modifiers upsert, !upsert⟩
  | .delete id => do
    let _ ← e.documentId?
    return some ⟨id, .delete, true⟩
  | .noop | .command _ => return none

/-- The document to insert once the target was removed: `found` says whether there is a target, and
`content` is what it holds if it was loaded. -/
def result (op : NetOp) (found : Bool) (content : Option Json) :
    Except EntryError (Option Json) :=
  match op.effect with
  | .noop | .delete => .ok none
  | .insert doc | .deleteCreate doc => .ok (some doc)
  | .replace doc => .ok (if found then some doc else none)
  | .update modifiers upsert =>
    match found, content with
    | true, some doc => (Modifier.applyAll modifiers doc).map some
    | _, _ =>
      if upsert then (Modifier.applyAll modifiers (bareDocument op.id)).map some else .ok none

end NetOp

end Replica
