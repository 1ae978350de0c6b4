import Replica.Assoc
import Replica.Binary64

/-!
# Values

A `Json` is a value of the data format that documents, identifiers and log entries are written in.
Integers and floating-point numbers are kept apart: `1` and `1.0` are different values. The members
of an object are a list of bindings. A value as it is read from a text keeps the order and the
repetitions of the text; `Json.canonical` gives each object ascending members, the last binding of a
key counting, and every document of the library is `Canonical`.
-/

namespace Replica

/-- A value of the data format. -/
inductive Json where
  /-- The null value. -/
  | null
  /-- A truth value. -/
  | bool (b : Bool)
  /-- An integer. -/
  | int (n : Int)
  /-- A floating-point number. -/
  | float (x : Binary64)
  /-- A text. -/
  | str (s : String)
  /-- A list of values. -/
  | arr (items : List Json)
  /-- An object: keys and their values. -/
  | obj (members : List (String × Json))

namespace Json

instance : Inhabited Json := ⟨null⟩

/-- The members of an object. -/
abbrev Members := List (String × Json)

mutual

/-- Decides whether two values are the same. -/
def decEq : (a b : Json) → Decidable (a = b)
  | null, null => isTrue rfl
  | bool a, bool b => if h : a = b then isTrue (by rw [h]) else isFalse (by simp [h])
  | int a, int b => if h : a = b then isTrue (by rw [h]) else isFalse (by simp [h])
  | float a, float b => if h : a = b then isTrue (by rw [h]) else isFalse (by simp [h])
  | str a, str b => if h : a = b then isTrue (by rw [h]) else isFalse (by simp [h])
  | arr a, arr b =>
    match decEqItems a b with
    | isTrue h => isTrue (by rw [h])
    | isFalse h => isFalse (by simp [h])
  | obj a, obj b =>
    match decEqMembers a b with
    | isTrue h => isTrue (by rw [h])
    | isFalse h => isFalse (by simp [h])
  | null, bool _ | null, int _ | null, float _ | null, str _ | null, arr _ | null, obj _
  | bool _, null | bool _, int _ | bool _, float _ | bool _, str _ | bool _, arr _ | bool _, obj _
  | int _, null | int _, bool _ | int _, float _ | int _, str _ | int _, arr _ | int _, obj _
  | float _, null | float _, bool _ | float _, int _ | float _, str _ | float _, arr _
  | float _, obj _
  | str _, null | str _, bool _ | str _, int _ | str _, float _ | str _, arr _ | str _, obj _
  | arr _, null | arr _, bool _ | arr _, int _ | arr _, float _ | arr _, str _ | arr _, obj _
  | obj _, null | obj _, bool _ | obj _, int _ | obj _, float _ | obj _, str _ | obj _, arr _ =>
    isFalse (by simp)

/-- Decides whether two lists of values are the same. -/
def decEqItems : (a b : List Json) → Decidable (a = b)
  | [], [] => isTrue rfl
  | [], _ :: _ => isFalse (by simp)
  | _ :: _, [] => isFalse (by simp)
  | x :: xs, y :: ys =>
    match decEq x y, decEqItems xs ys with
    | isTrue h, isTrue hs => isTrue (by rw [h, hs])
    | isFalse h, _ => isFalse (by simp [h])
    | _, isFalse hs => isFalse (by simp [hs])

/-- Decides whether two member lists are the same. -/
def decEqMembers : (a b : Members) → Decidable (a = b)
  | [], [] => isTrue rfl
  | [], _ :: _ => isFalse (by simp)
  | _ :: _, [] => isFalse (by simp)
  | (k, x) :: xs, (j, y) :: ys =>
    if hk : k = j then
      match decEq x y, decEqMembers xs ys with
      | isTrue h, isTrue hs => isTrue (by rw [hk, h, hs])
      | isFalse h, _ => isFalse (by simp [h])
      | _, isFalse hs => isFalse (by simp [hs])
    else isFalse (by simp [hk])

end

instance : DecidableEq Json := decEq

mutual

/-- Whether two values are equal when numbers are compared by value: `0.0` and `-0.0` are. -/
def same : Json → Json → Bool
  | float a, float b => a.same b
  | arr a, arr b => sameItems a b
  | obj a, obj b => sameMembers a b
  | a, b => a == b

/-- Whether two lists of values are equal item by item. -/
def sameItems : List Json → List Json → Bool
  | [], [] => true
  | x :: xs, y :: ys => same x y && sameItems xs ys
  | _, _ => false

/-- Whether two member lists have the same keys and equal values. -/
def sameMembers : Members → Members → Bool
  | [], [] => true
  | (k, x) :: xs, (j, y) :: ys => k == j && same x y && sameMembers xs ys
  | _, _ => false

end

mutual

/-- The value with the members of every object ascending; of the bindings of one key the last
counts. -/
def canonical : Json → Json
  | arr items => arr (canonicalItems items)
  | obj members => obj (Assoc.ofList (canonicalMembers members))
  | value => value

/-- The canonical forms of a list of values. -/
def canonicalItems : List Json → List Json
  | [] => []
  | x :: xs => canonical x :: canonicalItems xs

/-- The member list with the canonical forms of its values. -/
def canonicalMembers : Members → Members
  | [] => []
  | (k, x) :: xs => (k, canonical x) :: canonicalMembers xs

end

mutual

/-- Every object in the value has ascending members. -/
def Canonical : Json → Prop
  | arr items => CanonicalItems items
  | obj members => Assoc.Ascending members ∧ CanonicalMembers members
  | _ => True

/-- Every value of a list is canonical. -/
def CanonicalItems : List Json → Prop
  | [] => True
  | x :: xs => Canonical x ∧ CanonicalItems xs

/-- Every value of a member list is canonical. -/
def CanonicalMembers : Members → Prop
  | [] => True
  | (_, x) :: xs => Canonical x ∧ CanonicalMembers xs

end

/-- The members of an object. -/
def members? : Json → Option Members
  | obj members => some members
  | _ => none

/-- The member of an object with the given key. -/
def member? (value : Json) (key : String) : Option Json :=
  value.members?.bind (Assoc.get? key)

/-- The value that a path of keys leads to. -/
def follow? (value : Json) : List String → Option Json
  | [] => some value
  | key :: path => (value.member? key).bind (follow? · path)

end Json

end Replica
