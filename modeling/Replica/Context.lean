/-!
# How a part of the log is applied

In steady state every target has to be there. A window that is replayed over cloned data may find
its own effect: inserts then overwrite, updates create what is missing, and missing targets are
passed over.
-/

namespace Replica

/-- Whether a missing target is an error. -/
inductive Strictness where
  /-- A missing target fails the job. -/
  | strict
  /-- A missing target is passed over. -/
  | lenient
  deriving DecidableEq

/-- How entries are interpreted. -/
structure Context where
  /-- The entries may have been applied already. -/
  reapplying : Bool := false
  /-- Every update creates a missing document. -/
  upserts : Bool := false
  deriving DecidableEq

namespace Context

/-- The context of steady state. -/
def steady : Context := {}

/-- The context of replaying a window over cloned data. -/
def recovery : Context := ⟨true, true⟩

/-- Whether missing targets are errors. -/
def strictness (c : Context) : Strictness := if c.reapplying then .lenient else .strict

end Context

end Replica
