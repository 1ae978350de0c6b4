import Replica.Scenario.Basic

/-!
# Comparing states

The documents of a scenario are brought into the form in which a store tells its contents: by the
text of the namespace, and in the order of their keys. `differences` is empty exactly when both
sides hold the same documents; a collection without documents counts as missing.
-/

namespace Replica

/-- The documents of each collection by the text of its namespace, in the order of their keys. -/
abbrev CollectionState := Table String (List Json)

namespace CollectionState

/-- Documents in the order of their keys; those with one key stay in their order. -/
def sorted (docs : List Json) : Except EntryError (List Json) := do
  let keyed ← docs.mapM fun doc => do return (← DocKey.ofDocument doc, doc)
  return (keyed.mergeSort fun a b => decide (a.1 ≤ b.1)).map Prod.snd

/-- Brings the documents of databases into the form of a store's contents. -/
def ofDatabases (state : DatabaseState) : Except EntryError CollectionState := do
  let kept ← (state.collections.filter fun b => !b.2.isEmpty).mapM fun (text, docs) => do
    return (text, ← sorted docs)
  return Table.ofList kept

/-- Whether two lists hold the same documents in the same order. -/
def sameDocuments (a b : List Json) : Bool := Json.sameItems a b

/-- How many documents of a list do not occur in another one. -/
def countMissing (docs other : List Json) : Nat :=
  (docs.filter fun doc => !other.any fun o => doc.same o).length

/-- How a collection differs from what is expected of it. -/
def difference? (text : String) (expected : List Json) (actual : Option (List Json)) :
    Option String :=
  match actual with
  | none =>
    some (text ++ ": missing, expected " ++ Json.integerText expected.length ++ " documents")
  | some got =>
    if sameDocuments got expected then none
    else
      some (text ++ ": " ++ Json.integerText (countMissing expected got) ++
        " expected documents missing, " ++ Json.integerText (countMissing got expected) ++
        " unexpected documents")

/-- How a state differs from what is expected: the collections that are expected, then the
others. -/
def differences (expected actual : CollectionState) : List String :=
  let present := actual.toList.filter fun b => !b.2.isEmpty
  let known := expected.toList.filterMap fun (text, docs) =>
    difference? text docs (Assoc.get? text present)
  let other := (present.filter fun b => !expected.contains b.1).map fun (text, docs) =>
    text ++ ": unexpected, holds " ++ Json.integerText docs.length ++ " documents"
  known ++ other

end CollectionState

end Replica
