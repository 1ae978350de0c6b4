import Replica.Fetcher

/-!
# Windows of the log

The window of the log behind a position is read with the entry at that position in front. That entry
proves that the source still has the log from there on; it has been applied before and is not
served.
-/

namespace Replica

/-- A reader of the window behind `start`. -/
structure Window where
  /-- What the fetches of the log answer. -/
  inner : Source
  /-- The position behind which the window starts. -/
  start : Position
  /-- The address of the source. -/
  address : String
  /-- Whether the start was verified. -/
  verified : Bool := false

namespace Window

/-- The first batch with entries, without the entry at the start. -/
def checkStart (w : Window) (b : RawBatch) : Fetch :=
  match b.entries with
  | [] => .failure (.windowMissing w.address w.start)
  | first :: rest =>
    if first.position ≠ w.start then .failure (.windowMismatch w.start first.position)
    else if rest.isEmpty then .batch (.empty b.ready) false
    else .batch (.ofEntries rest b.ready) false

/-- Looks for the first batch with entries. -/
def findStart (w : Window) : Source → Fetch × Window
  | [] => (.failure (.windowMissing w.address w.start), { w with inner := [] })
  | .batch b late :: rest =>
    if b.entries.isEmpty then findStart w rest
    else
      let answer := match w.checkStart b with
        | .batch b _ => .batch b late
        | other => other
      (answer, { w with inner := rest, verified := true })
  | .finish :: rest => (.failure (.windowMissing w.address w.start), { w with inner := rest })
  | other :: rest => (other, { w with inner := rest })

/-- The next answer, and the window behind it. -/
def next (w : Window) : Fetch × Window :=
  if w.verified then
    let (answer, inner) := w.inner.next
    (answer, { w with inner := inner })
  else w.findStart w.inner

/-- The answers of the window up to its first failure or its end; `fuel` bounds their number. -/
def answers : Nat → Window → Source
  | 0, _ => []
  | fuel + 1, w =>
    match w.next with
    | (.batch b late, w) => .batch b late :: answers fuel w
    | (.finish, _) => []
    | (other, _) => [other]

/-- The window as a source. -/
def toSource (w : Window) : Source := answers (w.inner.length + 1) w

end Window

end Replica
