import Replica.Document
import Replica.Entry.Codec
import Replica.Json.Parser
import Replica.ReplicationError
import Replica.Table

/-!
# Scenarios

A scenario is what a replica holds, the log that it replays, and what it should hold afterwards or
how the replay should fail. It is read from the text of a file.
-/

namespace Replica

/-- The documents of each collection of each database, in the order of the file. -/
abbrev DatabaseState := Table String (Table String (List Json))

/-- The collections of a state by the texts of their namespaces, database by database. -/
def DatabaseState.collections (state : DatabaseState) : List (String × List Json) :=
  state.toList.flatMap fun (database, collections) =>
    collections.toList.map fun (collection, docs) => (database ++ "." ++ collection, docs)

/-- A scenario. -/
structure Scenario where
  /-- The name. -/
  name : String
  /-- What the replica holds before. -/
  initial : DatabaseState
  /-- The entries to replay. -/
  log : List Entry
  /-- What the replica should hold afterwards; nothing is asked if it is missing. -/
  expected : Option DatabaseState
  /-- A part of the text of the failure with which the replay should end. -/
  expectedError : Option String

/-- Why a scenario is of no use. -/
inductive ScenarioError where
  /-- The file cannot be read. -/
  | unreadable
  /-- The file does not hold a scenario. -/
  | malformed
  /-- The scenario names what cannot be. -/
  | content (e : EntryError)
  /-- The replica cannot be set up. -/
  | setup (e : ReplicationError)
  /-- A pool is asked for that has more workers than it can count. -/
  | overcrowded

namespace ScenarioError

/-- The text of an error. -/
def message : ScenarioError → String
  | unreadable => "cannot read scenario"
  | malformed => "invalid scenario"
  | content e => "invalid scenario content: " ++ e.message
  | setup e => e.message
  | overcrowded => "too many workers"

end ScenarioError

namespace Scenario

/-- Reads the documents of databases. -/
def stateOfJson? (value : Json) : Option DatabaseState := do
  let document (value : Json) : Option Json := some value.canonical
  let databases ← value.map? fun collections => collections.map? (Json.list? document)
  return Table.ofList (databases.map fun d => (d.1, Table.ofList d.2))

/-- Reads a member that may be null. -/
def optional? (decode : Json → Option α) : Option Json → Option (Option α)
  | none | some .null => some none
  | some value => (decode value).map some

/-- The members of a scenario. -/
def memberNames : List String :=
  ["name", "initialState", "oplog", "expectedState", "expectedError"]

/-- The form of a scenario without what does not matter in it and in the positions of its log. -/
def essential (form : Json.Form) : Json.Form :=
  (form.only memberNames).modifyField memberNames "oplog" (.modifyItems Entry.essential)

/-- Reads a scenario. -/
def ofJson? (value : Json) : Option Scenario := do
  match ← value.record? memberNames with
  | [name, initial, some log, expected, error] =>
    return {
      name := ← (name.getD (.str "")).text?
      initial := ← stateOfJson? (initial.getD (.obj []))
      log := ← log.list? Entry.ofJson?
      expected := ← optional? stateOfJson? expected
      expectedError := ← optional? Json.text? error }
  | _ => none

/-- The last name of a path: what follows the last slash, trailing slashes and points left out. -/
def fileName (path : List Char) : List Char :=
  let parts := (path.splitBy fun a b => (a == '/') == (b == '/')).filter fun part =>
    part.head? ≠ some '/' && part ≠ ['.']
  match parts.getLast? with
  | none => []
  | some part => if part = ['.', '.'] then [] else part

/-- The name of a file without its ending: a dot in front does not start an ending. -/
def fileStem (path : String) : String :=
  let name := fileName path.toList
  let stem := ((name.reverse.dropWhile (· ≠ '.')).drop 1).reverse
  String.ofList (if stem.isEmpty then name else stem)

/-- Reads the scenario that a text holds; what does not matter is checked by the grammar alone. -/
def ofText? (text : String) : Option Scenario := do
  ofJson? (← Json.ofForm? (essential (← Json.Form.ofText? text)))

/-- The scenario that a file with a text holds. One without a name is called like its file. -/
def ofFile (path : String) (text : Option String) : Except ScenarioError Scenario :=
  match text with
  | none => .error .unreadable
  | some text =>
    match ofText? text with
    | none => .error .malformed
    | some s => .ok (if s.name.isEmpty then { s with name := fileStem path } else s)

/-- The collections that the replica holds before, and their documents. -/
def initialCollections (s : Scenario) : Except EntryError (List (Namespace × List Json)) :=
  s.initial.collections.mapM fun (text, docs) =>
    match Namespace.parse? text with
    | none => .error (.invalidNamespace text)
    | some ns => .ok (ns, docs)

end Scenario

end Replica
