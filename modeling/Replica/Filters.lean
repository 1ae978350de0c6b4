import Replica.Table
import Replica.RawBatch

/-!
# What is replicated

A rule gives a database a list of patterns for its collections; an empty list stands for the whole
database, and a pattern that ends in `*` for all names that start with what is before it. Without
rules of inclusion every database is included. The databases `local` and `relodb` hold what belongs
to one member alone and are never replicated.
-/

namespace Replica

/-- The database with the data of the member itself. -/
def localDatabase : String := "local"

/-- The database with the state of replication. -/
def reservedDatabase : String := "relodb"

/-- The rules of replication. -/
structure Filters where
  /-- What is replicated; everything if there is no rule. -/
  included : Table String (List String) := ∅
  /-- What is not replicated. -/
  excluded : Table String (List String) := ∅
  /-- The names of indexes that are not created. -/
  excludedIndexes : Table String Unit := ∅

namespace Filters

/-- Whether a name has the form that a pattern asks for. -/
def matchesPattern (name pattern : String) : Bool :=
  if pattern.toList.getLast? = some '*' then pattern.toList.dropLast.isPrefixOf name.toList
  else pattern == name

/-- Whether a rule is about a collection. -/
def covers (patterns : List String) (collection : String) : Bool :=
  patterns.isEmpty || patterns.any (matchesPattern collection)

/-- Adds the pattern to the rule for a database. -/
def addPattern (rules : Table String (List String)) (database pattern : String) :
    Table String (List String) :=
  rules.insert database ((rules.get? database).getD [] ++ [pattern])

/-- Includes a database, whatever was said about its collections. -/
def includeDatabase (f : Filters) (database : String) : Filters :=
  { f with included := f.included.insert database [] }

/-- Includes the collections of a database that have the form of a pattern. -/
def includeCollection (f : Filters) (database pattern : String) : Filters :=
  { f with included := addPattern f.included database pattern }

/-- Excludes a database, whatever was said about its collections. -/
def excludeDatabase (f : Filters) (database : String) : Filters :=
  { f with excluded := f.excluded.insert database [] }

/-- Excludes the collections of a database that have the form of a pattern. -/
def excludeCollection (f : Filters) (database pattern : String) : Filters :=
  { f with excluded := addPattern f.excluded database pattern }

/-- Excludes the indexes with a name. -/
def excludeIndex (f : Filters) (name : String) : Filters :=
  { f with excludedIndexes := f.excludedIndexes.insert name () }

/-- Whether some part of a database may be replicated. -/
def acceptsDatabase (f : Filters) (database : String) : Bool :=
  database != localDatabase && database != reservedDatabase &&
    (f.included.isEmpty || f.included.contains database) &&
    (f.excluded.get? database != some [])

/-- Whether a collection is replicated. -/
def acceptsNamespace (f : Filters) (ns : Namespace) : Bool :=
  f.acceptsDatabase ns.database &&
    (match f.included.get? ns.database with
      | none => f.included.isEmpty
      | some patterns => covers patterns ns.collection) &&
    (match f.excluded.get? ns.database with
      | none => true
      | some patterns => !covers patterns ns.collection)

/-- Whether an index of a collection is created. -/
def acceptsIndex (f : Filters) (ns : Namespace) (name : String) : Bool :=
  f.acceptsNamespace ns && !f.excludedIndexes.contains name

/-- Whether an entry is applied. -/
def acceptsEntry (f : Filters) (e : Entry) : Bool :=
  match e.action with
  | .command .dropDatabase => f.acceptsDatabase e.ns.database
  | .noop => true
  | _ => f.acceptsNamespace e.ns

/-- Takes the entries out of a batch that are not applied; the tail stays. -/
def apply (f : Filters) (b : RawBatch) : RawBatch := b.filter f.acceptsEntry

/-- The value of a set of rules. -/
def rulesToJson (rules : Table String (List String)) : Json :=
  .obj (rules.toList.map fun r => (r.1, .ofTexts r.2))

/-- The value of the filters. -/
def toJson (f : Filters) : Json :=
  .object [("include", rulesToJson f.included), ("exclude", rulesToJson f.excluded),
    ("excludeIndexes", .ofTexts f.excludedIndexes.keys)]

/-- Reads a set of rules. -/
def rulesOfJson? (value : Json) : Option (Table String (List String)) :=
  (value.map? (Json.list? Json.text?)).map Table.ofList

/-- Reads filters; what is missing holds no rule. -/
def ofJson? (value : Json) : Option Filters := do
  match ← value.record? ["include", "exclude", "excludeIndexes"] with
  | [included, excluded, indexes] =>
    let names ← (indexes.getD (.arr [])).list? Json.text?
    return ⟨← rulesOfJson? (included.getD (.obj [])), ← rulesOfJson? (excluded.getD (.obj [])),
      Table.ofList (names.map fun name => (name, ()))⟩
  | _ => none

end Filters

end Replica
