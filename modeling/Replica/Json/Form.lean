import Replica.Json.NumberText
import Replica.Json.TextPart

/-!
# Values as they are written

A `Form` is what the grammar alone sees of a value. Its numbers may be of any size, the halves of a
pair may stand alone in its texts, and its lists and objects may be nested to any depth; only
`Form.value?` asks for more. So what does not matter in a record can be left out of its form before
its value is asked for, and is then checked by the grammar alone.
-/

namespace Replica.Json

/-- A value as it is written. -/
inductive Form where
  /-- The null value. -/
  | null
  /-- A truth value. -/
  | bool (b : Bool)
  /-- A number: whether it has a sign, and the rest. -/
  | number (negative : Bool) (text : NumberText)
  /-- A text. -/
  | text (parts : List TextPart)
  /-- A list. -/
  | list (items : List Form)
  /-- An object: keys and what is bound to them. -/
  | object (members : List (List TextPart × Form))

/-- Whether a character may stand between the parts of a value. -/
def isBlank (c : Char) : Bool := c == ' ' || c == '\n' || c == '\t' || c == '\r'

/-- The text from its first character on that is not blank. -/
def skipBlanks (cs : List Char) : List Char := cs.dropWhile isBlank

namespace Form

/-- Reads a number. -/
def number? : List Char → Option (Form × List Char)
  | '-' :: cs => (numberText? cs).map fun (t, r) => (number true t, r)
  | cs => (numberText? cs).map fun (t, r) => (number false t, r)

mutual

/-- Reads a value and gives what follows. `fuel` bounds the number of parts of the value. -/
def read? : (fuel : Nat) → List Char → Option (Form × List Char)
  | 0, _ => none
  | fuel + 1, cs =>
    match skipBlanks cs with
    | 'n' :: 'u' :: 'l' :: 'l' :: r => some (null, r)
    | 't' :: 'r' :: 'u' :: 'e' :: r => some (bool true, r)
    | 'f' :: 'a' :: 'l' :: 's' :: 'e' :: r => some (bool false, r)
    | '"' :: r => (TextPart.list? r).map fun (parts, r) => (text parts, r)
    | '[' :: r =>
      match skipBlanks r with
      | ']' :: r => some (list [], r)
      | r => (readItems? fuel r).map fun (xs, r) => (list xs, r)
    | '{' :: r =>
      match skipBlanks r with
      | '}' :: r => some (object [], r)
      | r => (readMembers? fuel r).map fun (ms, r) => (object ms, r)
    | cs => number? cs

/-- Reads the items of a list up to its bracket. -/
def readItems? : (fuel : Nat) → List Char → Option (List Form × List Char)
  | 0, _ => none
  | fuel + 1, cs => do
    let (x, r) ← read? fuel cs
    match skipBlanks r with
    | ']' :: r => return ([x], r)
    | ',' :: r =>
      let (xs, r) ← readItems? fuel r
      return (x :: xs, r)
    | _ => none

/-- Reads the members of an object up to its brace. -/
def readMembers? : (fuel : Nat) → List Char → Option (List (List TextPart × Form) × List Char)
  | 0, _ => none
  | fuel + 1, cs =>
    match skipBlanks cs with
    | '"' :: r => do
      let (key, r) ← TextPart.list? r
      match skipBlanks r with
      | ':' :: r =>
        let (x, r) ← read? fuel r
        match skipBlanks r with
        | '}' :: r => return ([(key, x)], r)
        | ',' :: r =>
          let (ms, r) ← readMembers? fuel r
          return ((key, x) :: ms, r)
        | _ => none
      | _ => none
    | _ => none

end

/-- The form that a text holds, which holds nothing else but blanks. -/
def ofText? (text : String) : Option Form :=
  let cs := text.toList
  match read? (cs.length + 1) cs with
  | some (form, rest) => if (skipBlanks rest).isEmpty then some form else none
  | none => none

mutual

/-- The value of a form whose lists and objects are nested at most `depth` deep. -/
def value? : (depth : Nat) → Form → Option Json
  | _, null => some .null
  | _, bool b => some (.bool b)
  | _, number negative t => t.value? negative
  | _, text parts => (TextPart.text? parts).map .str
  | 0, list _ => none
  | depth + 1, list items => (itemValues? depth items).map .arr
  | 0, object _ => none
  | depth + 1, object members => (memberValues? depth members).map .obj

/-- The values of a list of forms. -/
def itemValues? : (depth : Nat) → List Form → Option (List Json)
  | _, [] => some []
  | depth, x :: xs => do return (← value? depth x) :: (← itemValues? depth xs)

/-- The values of the members of an object, and their keys. -/
def memberValues? : (depth : Nat) → List (List TextPart × Form) → Option Members
  | _, [] => some []
  | depth, (key, x) :: ms => do
    return (← TextPart.text? key, ← value? depth x) :: (← memberValues? depth ms)

end

/-- The form of a record without the members whose keys are not among the names. -/
def only (names : List String) : Form → Form
  | object members => object (members.filter fun m => (TextPart.text? m.1).all (· ∈ names))
  | form => form

/-- Changes a field of a record with the given names, by its key or by its place. -/
def modifyField (names : List String) (name : String) (f : Form → Form) : Form → Form
  | object members =>
    object (members.map fun m => if TextPart.text? m.1 = some name then (m.1, f m.2) else m)
  | list items => list (items.modify (names.idxOf name) f)
  | form => form

/-- Changes the items of a list. -/
def modifyItems (f : Form → Form) : Form → Form
  | list items => list (items.map f)
  | form => form

end Form

end Replica.Json
