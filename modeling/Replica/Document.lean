import Replica.Json.Printer
import Replica.EntryError

/-!
# Documents and their keys

A document is an object with an identifier in its member `_id`. Two identifiers name the same
document exactly when their keys are equal; a key is the text of the identifier.
-/

namespace Replica

/-- The key of the member that identifies a document within its collection. -/
def idField : String := "_id"

/-- The key of a document: the text of its identifier. -/
structure DocKey where
  /-- The text. -/
  text : String
  deriving DecidableEq

namespace DocKey

instance : Inhabited DocKey := ⟨⟨""⟩⟩

instance : LT DocKey := ⟨fun a b => a.text < b.text⟩

instance : LE DocKey := ⟨fun a b => a.text ≤ b.text⟩

instance (a b : DocKey) : Decidable (a < b) := inferInstanceAs (Decidable (a.text < b.text))

instance (a b : DocKey) : Decidable (a ≤ b) := inferInstanceAs (Decidable (a.text ≤ b.text))

instance : Std.IsLinearOrder DocKey where
  le_refl a := Std.le_refl a.text
  le_trans a b c := Std.le_trans (a := a.text) (b := b.text) (c := c.text)
  le_antisymm a b h h' := by
    cases a
    cases b
    congr
    exact Std.le_antisymm h h'
  le_total a b := Std.le_total (a := a.text) (b := b.text)

instance : Std.LawfulOrderLT DocKey where
  lt_iff a b := Std.LawfulOrderLT.lt_iff a.text b.text

/-- The key of an identifier. -/
def ofId (id : Json) : DocKey := ⟨id.render⟩

end DocKey

/-- The identifier of a document, which has to be an object with a member `_id` that is not null. -/
def documentId (doc : Json) : Except EntryError Json :=
  match doc with
  | .obj members =>
    match Assoc.get? idField members with
    | none | some .null => .error (.invalidDocument ("document has no " ++ idField))
    | some id => .ok id
  | other => .error (.invalidDocument ("expected an object, got " ++ other.render))

/-- The key of a document. -/
def DocKey.ofDocument (doc : Json) : Except EntryError DocKey :=
  (documentId doc).map DocKey.ofId

end Replica
