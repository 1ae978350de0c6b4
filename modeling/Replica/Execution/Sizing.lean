import Replica.Metrics
import Replica.Settings

/-!
# The size of sub-batches

A sub-batch should take about the target latency: a size is scaled by how far the observed latency
is from it, by a factor from a quarter to four, and is halved while sub-batches wait longer than
that for a worker.
-/

namespace Replica

/-- How the size of the sub-batches is chosen. -/
inductive Sizing where
  /-- Always the same size. -/
  | fixed (size : Nat)
  /-- A size that follows the observed latency. -/
  | adaptive (sizes : SubBatchSizes)

namespace Sizing

/-- A number brought between two bounds. -/
def clamp (x low high : Float) : Float := if x < low then low else if high < x then high else x

/-- The size that follows the observed latency. -/
def adaptiveSize (sizes : SubBatchSizes) (m : ExecutorMetrics) : Nat :=
  let least := max sizes.least 1
  let greatest := max sizes.greatest least
  let target := Duration.floatOf sizes.target
  let scaled := match m.latency with
    | none => target
    | some micros =>
      let observed := (Duration.ofMicros micros).seconds
      let observed := if observed < 1e-6 then 1e-6 else observed
      target * clamp (sizes.latency.seconds / observed) 0.25 4.0
  let waiting := m.queueWait.any fun micros => sizes.latency < Duration.ofMicros micros
  let size := (if waiting then scaled / 2.0 else scaled).round.toUInt64.toNat
  min (max size least) greatest

/-- The size of the next sub-batches. -/
def size (s : Sizing) (m : ExecutorMetrics) : Nat :=
  match s with
  | fixed size => size
  | adaptive sizes => adaptiveSize sizes m

end Sizing

end Replica
