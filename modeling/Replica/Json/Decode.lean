import Replica.Json.Basic

/-!
# Typed reading of values

A record is read from an object by its keys, or from a list by position. Members with other keys are
passed over; a key of the record that occurs twice is refused. A tagged value names its variant in
one member, by name or by number, and holds the fields of the variant beside it.
-/

namespace Replica.Json

/-- The values that are bound to a key. -/
def valuesOf (key : String) (members : Members) : List Json :=
  members.filterMap fun m => if m.1 = key then some m.2 else none

/-- What an object says about a key: nothing if the key is repeated, and otherwise its value, if
there is one. -/
def field? (key : String) (members : Members) : Option (Option Json) :=
  match valuesOf key members with
  | [] => some none
  | [value] => some (some value)
  | _ => none

/-- The values of the fields of a record, each of which may be missing. -/
def record? (names : List String) : Json → Option (List (Option Json))
  | obj members => names.mapM fun name => field? name members
  | arr items =>
    if items.length ≤ names.length then
      some (items.map some ++ List.replicate (names.length - items.length) none)
    else none
  | _ => none

/-- The tag of a tagged value, and the value without it. -/
def tagged? (tag : String) : Json → Option (Json × Json)
  | obj members => do
    let value ← (← field? tag members)
    return (value, obj (members.filter fun m => m.1 ≠ tag))
  | arr (x :: xs) => some (x, arr xs)
  | _ => none

/-- The variant that a tag names, by its name or its number. -/
def variant? (names : List String) : Json → Option String
  | str name => if name ∈ names then some name else none
  | int n => if 0 ≤ n then names[n.toNat]? else none
  | _ => none

/-- A truth value. -/
def bool? : Json → Option Bool
  | bool b => some b
  | _ => none

/-- A text. -/
def text? : Json → Option String
  | str s => some s
  | _ => none

/-- An integer from `-2^63` to `2^63 - 1`. -/
def int64? : Json → Option Int64
  | int n => if -(Nat.pow 2 63) ≤ n ∧ n < Nat.pow 2 63 then some (Int64.ofInt n) else none
  | _ => none

/-- A list whose items are read by `decode`. -/
def list? (decode : Json → Option α) : Json → Option (List α)
  | arr items => items.mapM decode
  | _ => none

/-- An object whose values are read by `decode`; of the bindings of one key the last counts. -/
def map? (decode : Json → Option α) : Json → Option (List (String × α))
  | obj members => do
    let bindings ← members.mapM fun m => do return (m.1, ← decode m.2)
    return Assoc.ofList bindings
  | _ => none

/-- The object with the given members. -/
def object (members : Members) : Json := obj (Assoc.ofList members)

/-- A 64-bit integer as a value. -/
def ofInt64 (n : Int64) : Json := int n.toInt

/-- A natural number as a value. -/
def ofNat (n : Nat) : Json := int n

/-- A list of texts as a value. -/
def ofTexts (texts : List String) : Json := arr (texts.map str)

end Replica.Json
