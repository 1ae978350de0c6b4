import Replica.Entry.Codec
import Replica.Store.Basic

/-!
# A store as a value

What an observer of a store is shown: the documents of every collection but those with the state of
replication, and the secondary indexes of every collection that has some.
-/

namespace Replica.Store

/-- The secondary indexes of the collections that have some. -/
def indexesToJson (s : Store) : Json :=
  .object (s.namespaces.filterMap fun ns =>
    match s.indexes ns with
    | [] => none
    | indexes => some (ns.text, .arr (indexes.map IndexSpec.toJson)))

/-- The value of a store. -/
def toJson (s : Store) : Json :=
  .object [("docs", .obj (s.dump.toList.map fun b => (b.1, .arr b.2))),
    ("indexes", s.indexesToJson)]

end Replica.Store
