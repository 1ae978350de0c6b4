import Replica.Entry

/-!
# The written form of entries

The fields of what an entry does stand beside its position, hash and namespace. What is written
names every field; a hash, an upsert, a drop of the target and a uniqueness that are missing are
read as zero and as false.
-/

namespace Replica

namespace IndexSpec

/-- The value of an index definition. -/
def toJson (i : IndexSpec) : Json :=
  .object [("name", .str i.name), ("keys", .ofTexts i.keys), ("unique", .bool i.unique)]

/-- Reads an index definition. -/
def ofJson? (value : Json) : Option IndexSpec := do
  match ← value.record? ["name", "keys", "unique"] with
  | [some name, some keys, unique] =>
    return ⟨← name.text?, ← keys.list? Json.text?, ← (unique.getD (.bool false)).bool?⟩
  | _ => none

end IndexSpec

namespace Command

/-- The tags of the commands. -/
def tags : List String :=
  ["create", "drop", "dropDatabase", "createIndexes", "dropIndexes", "renameCollection",
    "unsupported"]

/-- The value of a command. -/
def toJson : Command → Json
  | create => .object [("name", .str "create")]
  | drop => .object [("name", .str "drop")]
  | dropDatabase => .object [("name", .str "dropDatabase")]
  | createIndexes indexes =>
    .object [("name", .str "createIndexes"), ("indexes", .arr (indexes.map IndexSpec.toJson))]
  | dropIndexes index => .object [("name", .str "dropIndexes"), ("index", .str index)]
  | renameCollection target dropTarget =>
    .object
      [("name", .str "renameCollection"), ("to", .str target), ("dropTarget", .bool dropTarget)]
  | unsupported command => .object [("name", .str "unsupported"), ("command", .str command)]

/-- Reads a variant without fields, which may stand beside other members. -/
def bare? (command : Command) (content : Json) : Option Command :=
  (content.record? []).map fun _ => command

/-- Reads the fields of the variant with the given tag. -/
def ofTagged? (tag : String) (content : Json) : Option Command :=
  match tag with
  | "create" => bare? create content
  | "drop" => bare? drop content
  | "dropDatabase" => bare? dropDatabase content
  | "createIndexes" => do
    match ← content.record? ["indexes"] with
    | [some indexes] => return createIndexes (← indexes.list? IndexSpec.ofJson?)
    | _ => none
  | "dropIndexes" => do
    match ← content.record? ["index"] with
    | [some index] => return dropIndexes (← index.text?)
    | _ => none
  | "renameCollection" => do
    match ← content.record? ["to", "dropTarget"] with
    | [some target, dropTarget] =>
      return renameCollection (← target.text?) (← (dropTarget.getD (.bool false)).bool?)
    | _ => none
  | "unsupported" => do
    match ← content.record? ["command"] with
    | [some command] => return unsupported (← command.text?)
    | _ => none
  | _ => none

/-- Reads a command. -/
def ofJson? (value : Json) : Option Command := do
  let (tag, content) ← value.tagged? "name"
  ofTagged? (← tag.variant? tags) content

end Command

namespace Action

/-- The tags of what an entry does. -/
def tags : List String := ["insert", "update", "delete", "noop", "command"]

/-- The members that say what an entry does. -/
def toMembers : Action → Json.Members
  | insert doc => [("op", .str "insert"), ("doc", doc)]
  | update id change upsert =>
    [("op", .str "update"), ("id", id), ("update", change), ("upsert", .bool upsert)]
  | delete id => [("op", .str "delete"), ("id", id)]
  | noop => [("op", .str "noop")]
  | command c => [("op", .str "command"), ("command", c.toJson)]

/-- Reads the fields of the variant with the given tag; documents are taken in canonical form. -/
def ofTagged? (tag : String) (content : Json) : Option Action :=
  match tag with
  | "insert" => do
    match ← content.record? ["doc"] with
    | [some doc] => return insert doc.canonical
    | _ => none
  | "update" => do
    match ← content.record? ["id", "update", "upsert"] with
    | [some id, some change, upsert] =>
      return update id.canonical change.canonical (← (upsert.getD (.bool false)).bool?)
    | _ => none
  | "delete" => do
    match ← content.record? ["id"] with
    | [some id] => return delete id.canonical
    | _ => none
  | "noop" => (content.record? []).map fun _ => noop
  | "command" => do
    match ← content.record? ["command"] with
    | [some c] => return command (← Command.ofJson? c)
    | _ => none
  | _ => none

/-- Reads what an entry does. -/
def ofJson? (value : Json) : Option Action := do
  let (tag, content) ← value.tagged? "op"
  ofTagged? (← tag.variant? tags) content

end Action

namespace Entry

/-- The value of an entry. -/
def toJson (e : Entry) : Json :=
  .object ([("position", e.position.toJson), ("hash", .ofInt64 e.hash), ("ns", .str e.ns.text)] ++
    e.action.toMembers)

/-- The keys that an entry has whatever it does. -/
def ownKeys : List String := ["position", "hash", "ns"]

/-- The form of an entry without what does not matter in its position. -/
def essential : Json.Form → Json.Form := .modifyField ownKeys "position" Position.essential

/-- Reads an entry, which has to be an object. -/
def ofJson? (value : Json) : Option Entry := do
  let members ← value.members?
  match ← value.record? ownKeys with
  | [some position, hash, some ns] =>
    let position ← Position.ofJson? position
    let hash ← (hash.getD (.int 0)).int64?
    let ns ← Namespace.parse? (← ns.text?)
    let action ← Action.ofJson? (.obj (members.filter fun m => m.1 ∉ ownKeys))
    return ⟨position, hash, ns, action⟩
  | _ => none

end Entry

end Replica
