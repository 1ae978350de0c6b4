import Replica.Entry

/-!
# Fetched batches

A batch of entries as it comes from the log. Its tail is the last entry that was received into it,
also if a filter took that entry out: the tail is what counts as applied once the batch has been
executed, so entries that were filtered out are not fetched again.
-/

namespace Replica

/-- The identity of an entry: its hash and position. -/
structure Mark where
  /-- The hash. -/
  hash : Int64
  /-- The position. -/
  position : Position
  deriving DecidableEq

/-- The value of a mark. -/
def Mark.toJson (m : Mark) : Json :=
  .object [("hash", .ofInt64 m.hash), ("position", m.position.toJson)]

/-- The mark of an entry. -/
def Entry.mark (e : Entry) : Mark := ⟨e.hash, e.position⟩

/-- A batch of entries in the order of the log. -/
structure RawBatch where
  /-- The entries. -/
  entries : List Entry
  /-- Whether the source can deliver more at once. -/
  ready : Bool
  /-- The last entry received, whether it was kept or not. -/
  tail : Option Mark
  deriving DecidableEq

namespace RawBatch

/-- A batch of the given entries. -/
def ofEntries (entries : List Entry) (ready : Bool) : RawBatch :=
  ⟨entries, ready, entries.getLast?.map Entry.mark⟩

/-- A batch without entries. -/
def empty (ready : Bool) : RawBatch := ⟨[], ready, none⟩

instance : Inhabited RawBatch := ⟨empty false⟩

/-- The number of entries. -/
def size (b : RawBatch) : Nat := b.entries.length

/-- The entries of both batches; readiness is that of the later one, and so is the tail if the later
one has a tail. -/
def append (a b : RawBatch) : RawBatch := ⟨a.entries ++ b.entries, b.ready, b.tail.or a.tail⟩

instance : Append RawBatch := ⟨append⟩

/-- Keeps the entries with a property; the tail stays. -/
def filter (keep : Entry → Bool) (b : RawBatch) : RawBatch :=
  { b with entries := b.entries.filter keep }

/-- Whether the batch carries nothing, not even a tail. -/
def isVoid (b : RawBatch) : Bool := b.entries.isEmpty && b.tail.isNone

/-- Refuses the batch at the first entry that cannot be applied. -/
def check (b : RawBatch) : Except EntryError Unit := b.entries.forM Entry.checkSupported

end RawBatch

end Replica
