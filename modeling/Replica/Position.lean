import Replica.Json.Decode
import Replica.Json.Form
import Replica.Json.Printer

/-!
# Positions

A position is a point of the log. A newer term comes after everything of an older one, and within a
term the time decides.
-/

namespace Replica

/-- A point of the log. -/
structure Position where
  /-- The term of the member that wrote the entry. -/
  term : Int64
  /-- The time of the entry in milliseconds. -/
  time : Int64
  deriving DecidableEq

namespace Position

/-- The position before anything was applied. -/
def epoch : Position := ⟨0, 0⟩

instance : Inhabited Position := ⟨epoch⟩

instance : LT Position := ⟨fun a b => a.term < b.term ∨ (a.term = b.term ∧ a.time < b.time)⟩

instance : LE Position := ⟨fun a b => ¬ b < a⟩

instance (a b : Position) : Decidable (a < b) :=
  inferInstanceAs (Decidable (a.term < b.term ∨ (a.term = b.term ∧ a.time < b.time)))

instance (a b : Position) : Decidable (a ≤ b) := inferInstanceAs (Decidable (¬ b < a))

/-- Positions in ascending order. -/
def sort (l : List Position) : List Position := l.mergeSort fun a b => decide (a ≤ b)

/-- The text of a position. -/
def text (p : Position) : String :=
  "(t:" ++ Json.integerText p.term.toInt ++ ", ts:" ++ Json.integerText p.time.toInt ++ ")"

/-- The value of a position. -/
def toJson (p : Position) : Json :=
  .object [("term", .ofInt64 p.term), ("timestampMillis", .ofInt64 p.time)]

/-- The members of a position. -/
def memberNames : List String := ["term", "timestampMillis"]

/-- The form of a position without what does not matter. -/
def essential : Json.Form → Json.Form := .only memberNames

/-- Reads a position. -/
def ofJson? (value : Json) : Option Position := do
  match ← value.record? memberNames with
  | [some term, some time] => return ⟨← term.int64?, ← time.int64?⟩
  | _ => none

end Position

end Replica
