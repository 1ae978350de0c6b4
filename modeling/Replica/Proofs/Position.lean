import Replica.Proofs.Json.Records
import Replica.Position

/-!
# Positions

Positions are compared by term and then by time, and they are read back as they were written.
-/

namespace Replica.Position

theorem lt_irrefl (p : Position) : ¬ p < p := by
  have hlt : ¬ (p.term < p.term ∨ p.term = p.term ∧ p.time < p.time) := by
    simp only [Int64.lt_iff_toInt_lt]
    omega
  exact hlt

/-- A position that does not lie before another one is of a newer term, or of the same term and not
older. -/
theorem term_lt_or_of_not_lt {p q : Position} (h : ¬ p < q) :
    q.term < p.term ∨ q.term = p.term ∧ q.time ≤ p.time := by
  have hlt : ¬ (p.term < q.term ∨ p.term = q.term ∧ p.time < q.time) := h
  simp only [Int64.lt_iff_toInt_lt, Int64.le_iff_toInt_le, ← Int64.toInt_inj] at hlt ⊢
  omega

/-- What does not lie before something that does not lie before a position does not lie before it
either. -/
theorem not_lt_trans {p q r : Position} (h : ¬ q < p) (h' : ¬ r < q) : ¬ r < p := by
  have hq := term_lt_or_of_not_lt h
  have hr := term_lt_or_of_not_lt h'
  have hlt : ¬ (r.term < p.term ∨ r.term = p.term ∧ r.time < p.time) := by
    simp only [Int64.lt_iff_toInt_lt, Int64.le_iff_toInt_le, ← Int64.toInt_inj] at hq hr ⊢
    omega
  exact hlt

/-- A position is read back as it was written. -/
theorem ofJson?_toJson (p : Position) : ofJson? p.toJson = some p := by
  have hrecord : p.toJson.record? memberNames =
      some [some (.ofInt64 p.term), some (.ofInt64 p.time)] :=
    Json.record?_object (by simp) _
  rw [ofJson?, hrecord]
  simp [Json.int64?_ofInt64]

end Replica.Position
