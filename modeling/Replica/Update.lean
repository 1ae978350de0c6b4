import Replica.Document

/-!
# Updates

An update either replaces a document or modifies some of its fields. Only modifiers that change
nothing when they are applied again are accepted: a part of the log may be replayed over documents
that already hold its effect. Fields are named by dotted paths; setting one creates the objects on
the way to it.
-/

namespace Replica

/-- A change of one field. -/
inductive Modifier where
  /-- Sets a field to a value. -/
  | set (path : String) (value : Json)
  /-- Removes a field if it is there. -/
  | unset (path : String)
  deriving DecidableEq

/-- What an update does. -/
inductive Update where
  /-- The document is replaced and keeps its identifier. -/
  | replace (doc : Json)
  /-- The modifiers are applied in order. -/
  | modify (modifiers : List Modifier)
  deriving DecidableEq

/-- Splits characters at every dot. -/
def splitDots : List Char → List (List Char)
  | [] => [[]]
  | c :: r =>
    match c, splitDots r with
    | '.', parts => [] :: parts
    | c, [] => [[c]]
    | c, part :: parts => (c :: part) :: parts

/-- The parts of a path between its dots. -/
def pathSegments (path : String) : List String := (splitDots path.toList).map String.ofList

namespace Modifier

/-- The path of the field that is changed. -/
def path : Modifier → String
  | set path _ => path
  | unset path => path

/-- Sets the field at a path of keys. The second component is the obstacle, if there is one: a key
before the last that holds something other than an object, and what it holds. The objects made on
the way stay. -/
def setAt (value : Json) : List String → Json.Members → Json.Members × Option (String × Json)
  | [], members => (members, none)
  | [leaf], members => (Assoc.put leaf value members, none)
  | key :: path, members =>
    match Assoc.get? key members with
    | none =>
      let (inner, obstacle) := setAt value path []
      (Assoc.put key (.obj inner) members, obstacle)
    | some (.obj inner) =>
      let (inner, obstacle) := setAt value path inner
      (Assoc.put key (.obj inner) members, obstacle)
    | some other => (members, some (key, other))

/-- Removes the field at a path of keys, if every key before the last holds an object. -/
def unsetAt : List String → Json.Members → Json.Members
  | [], members => members
  | [leaf], members => Assoc.erase leaf members
  | key :: path, members =>
    match Assoc.get? key members with
    | some (.obj inner) => Assoc.put key (.obj (unsetAt path inner)) members
    | _ => members

/-- Applies a modifier to the members of a document: the members afterwards, and the error if there
is one. -/
def step : Modifier → Json.Members → Json.Members × Option EntryError
  | set path value, members =>
    match setAt value (pathSegments path) members with
    | (members, none) => (members, none)
    | (members, some (key, found)) =>
      (members, some (.typeMismatch path ("'" ++ key ++ "' holds non-object " ++ found.render)))
  | unset path, members => (unsetAt (pathSegments path) members, none)

/-- Applies modifiers one after another up to the first error. -/
def runAll : List Modifier → Json.Members → Except EntryError Json.Members
  | [], members => .ok members
  | m :: ms, members =>
    match m.step members with
    | (members, none) => runAll ms members
    | (_, some e) => .error e

/-- The document that modifiers make of a document. -/
def applyAll (modifiers : List Modifier) (doc : Json) : Except EntryError Json :=
  match doc with
  | .obj members => (runAll modifiers members).map .obj
  | other => .error (.invalidDocument ("expected an object, got " ++ other.render))

end Modifier

/-- The replacement with the identifier of the document that it replaces; it must not name another
one. -/
def withId (replacement id : Json) : Except EntryError Json :=
  match replacement with
  | .obj members =>
    match Assoc.get? idField members with
    | some existing =>
      if existing.same id then .ok (.obj (Assoc.put idField id members))
      else
        .error (.invalidUpdate
          ("replacement changes " ++ idField ++ " from " ++ id.render ++ " to " ++ existing.render))
    | none => .ok (.obj (Assoc.put idField id members))
  | other => .error (.invalidDocument ("expected an object, got " ++ other.render))

namespace Update

/-- Whether the key of an update names an operator. -/
def isOperator (key : String) : Bool := key.toList.head? == some '$'

/-- Refuses a path with an empty part and a path to the identifier. -/
def checkPath (path : String) : Except EntryError Unit :=
  let segments := pathSegments path
  if segments.any String.isEmpty then
    .error (.invalidUpdate ("invalid field path '" ++ path ++ "'"))
  else if segments.head? = some idField then
    .error (.invalidUpdate ("field '" ++ path ++ "' is immutable"))
  else .ok ()

/-- The modifier that an operator makes of one member of its argument. -/
def modifierOf (operator path : String) (value : Json) : Except EntryError Modifier := do
  checkPath path
  match operator with
  | "$set" => return .set path value
  | "$unset" => return .unset path
  | other => throw (.unsupportedModifier other)

/-- The modifiers of an operator with its argument. -/
def modifiersOf (operator : String) : Json → Except EntryError (List Modifier)
  | .obj fields => fields.mapM fun field => modifierOf operator field.1 field.2
  | _ => .error (.invalidUpdate ("argument of " ++ operator ++ " must be an object"))

/-- Reads an update: an object without operators replaces, one with nothing but operators modifies,
and the modifiers stand in the order of its members. -/
def parse (update : Json) : Except EntryError Update :=
  match update with
  | .obj members =>
    if members.all fun m => !isOperator m.1 then .ok (.replace update)
    else if members.any fun m => !isOperator m.1 then
      .error (.invalidUpdate "update mixes operators and plain fields")
    else do
      let modifiers ← members.mapM fun m => modifiersOf m.1 m.2
      return .modify modifiers.flatten
  | other => .error (.invalidUpdate ("expected an object, got " ++ other.render))

end Update

end Replica
