import Replica.Store.Commit

/-!
# The stored state of replication

What a member knows about its own replication is kept as documents of the reserved database, one for
each kind of knowledge. Storing a new value puts its document in place of the old one in one
transaction, so what is loaded is always the value that was stored last.
-/

namespace Replica

/-- The place of a piece of stored state: a collection, and the identifier of the document. -/
structure StateRow where
  /-- The collection in the reserved database. -/
  collection : String
  /-- The identifier. -/
  id : String

namespace StateRow

/-- The collection of a row. -/
def ns (row : StateRow) : Namespace := ⟨reservedDatabase, row.collection⟩

/-- The key of a row. -/
def key (row : StateRow) : DocKey := .ofId (.str row.id)

/-- The stored document. -/
def load? (row : StateRow) (s : Store) : Option Json :=
  (s.collection? row.ns).bind fun c => c.document? row.key

/-- The document that holds `content`. -/
def document (row : StateRow) (content : Json.Members) : Json :=
  .object ((idField, .str row.id) :: content)

/-- Puts the document that holds `content` in place of the stored one. -/
def save (row : StateRow) (content : Json.Members) (s : Store) :
    Except ReplicationError Unit × Store :=
  s.commit ((Transaction.delete [] row.ns (s.findDids row.ns [row.key]).values).insert row.ns
    [row.document content])

end StateRow

end Replica
