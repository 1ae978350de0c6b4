/-!
# Namespaces

A namespace names a collection of a database. Its text is split at the first dot, so the name of a
collection may contain dots and that of a database may not.
-/

namespace Replica

/-- A collection of a database. -/
structure Namespace where
  /-- The name of the database. -/
  database : String
  /-- The name of the collection. -/
  collection : String
  deriving DecidableEq

namespace Namespace

instance : Inhabited Namespace := ⟨⟨"", ""⟩⟩

/-- The text of a namespace: both names with a dot between them. -/
def text (ns : Namespace) : String := ns.database ++ "." ++ ns.collection

/-- Splits a text at its first dot; without a dot the collection has no name. -/
def ofText (s : String) : Namespace :=
  ⟨String.ofList (s.toList.takeWhile (· ≠ '.')),
    String.ofList ((s.toList.dropWhile (· ≠ '.')).drop 1)⟩

/-- The namespace that a text names; both names have to be there. -/
def parse? (s : String) : Option Namespace :=
  let ns := ofText s
  if ns.database.isEmpty || ns.collection.isEmpty then none else some ns

/-- Another collection of the same database. -/
def sibling (ns : Namespace) (collection : String) : Namespace := ⟨ns.database, collection⟩

/-- The order by database and then by collection. -/
def le (a b : Namespace) : Bool :=
  a.database < b.database || (a.database == b.database && a.collection ≤ b.collection)

/-- Namespaces in ascending order. -/
def sort (l : List Namespace) : List Namespace := l.mergeSort le

end Namespace

end Replica
