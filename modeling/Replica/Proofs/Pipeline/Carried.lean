import Mathlib
import Replica.Pipeline.Accumulation

/-!
# What joined batches carry

Batches are filtered and joined on their way to the executor. What they carry of the fetched batches
(`Carries`) are the entries that are replicated, in order, and the mark of the last entry that was
received. Joining (`carries_join`) and leaving out what is void (`carries_flush`) keep that.
-/

namespace Replica

namespace RawBatch

variable {bs cs : List RawBatch}

theorem entries_append (a b : RawBatch) : (a ++ b).entries = a.entries ++ b.entries := rfl

theorem tail_append (a b : RawBatch) : (a ++ b).tail = b.tail.or a.tail := rfl

/-- The mark of the last entry that was received into some batches. -/
def lastMark : List RawBatch → Option Mark
  | [] => none
  | b :: bs => (lastMark bs).or b.tail

theorem lastMark_append (bs cs : List RawBatch) :
    lastMark (bs ++ cs) = (lastMark cs).or (lastMark bs) := by
  induction bs with
  | nil => simp [lastMark]
  | cons b bs ih =>
    show (lastMark (bs ++ cs)).or b.tail = _
    rw [ih, Option.or_assoc, lastMark]

/-- The last mark of batches that keep all their entries is that of the last entry. -/
theorem lastMark_ofEntries (h : ∀ b ∈ bs, b = ofEntries b.entries b.ready) :
    lastMark bs = (bs.flatMap entries).getLast?.map Entry.mark := by
  induction bs with
  | nil => rfl
  | cons b bs ih =>
    obtain ⟨hb, hbs⟩ := List.forall_mem_cons.1 h
    have htail : b.tail = b.entries.getLast?.map Entry.mark := by
      conv_lhs => rw [hb]
      rfl
    rw [lastMark, ih hbs, htail, List.flatMap_cons, List.getLast?_append]
    cases (bs.flatMap entries).getLast? <;> rfl

end RawBatch

namespace Source

/-- The batches that a source delivers before it ends or fails. -/
def delivered : Source → List RawBatch
  | .batch b _ :: rest => b :: delivered rest
  | _ => []

/-- The source comes to its end without a failure. -/
def EndsWell : Source → Prop
  | [] | .finish :: _ => True
  | .batch _ _ :: rest => EndsWell rest
  | .failure _ :: _ | .lost :: _ => False

end Source

namespace Accumulation

open RawBatch (lastMark)

variable {filters : Filters} {taken taken' done done' : List RawBatch} {pending : Option RawBatch}

/-- Batches carry the entries of fetched batches that are replicated, and their last mark. -/
structure Carries (filters : Filters) (taken done : List RawBatch) : Prop where
  /-- The entries are those that are replicated, in order. -/
  entries : done.flatMap RawBatch.entries =
    (taken.flatMap RawBatch.entries).filter filters.acceptsEntry
  /-- The last entry received is the same, whether it was kept or not. -/
  mark : lastMark done = lastMark taken

theorem carries_nil : Carries filters [] [] := ⟨rfl, rfl⟩

theorem Carries.append (h : Carries filters taken done) (h' : Carries filters taken' done') :
    Carries filters (taken ++ taken') (done ++ done') := by
  constructor
  · rw [List.flatMap_append, h.entries, h'.entries, List.flatMap_append, List.filter_append]
  · rw [RawBatch.lastMark_append, h.mark, h'.mark, RawBatch.lastMark_append]

/-- What is void carries nothing, so nothing is lost where it is not handed on. -/
theorem carries_flush (h : Carries filters taken pending.toList) :
    Carries filters taken (flush pending) := by
  cases pending with
  | none => exact h
  | some b =>
    by_cases hvoid : b.isVoid = true
    · have hflush : flush (some b) = [] := by
        simp [flush, hvoid]
      rw [RawBatch.isVoid, Bool.and_eq_true, List.isEmpty_iff, Option.isNone_iff_eq_none] at hvoid
      rw [hflush]
      constructor
      · rw [← h.entries]
        simp [hvoid.1]
      · rw [← h.mark]
        simp [lastMark, hvoid.2]
    · have hflush : flush (some b) = [b] := by
        simp [flush, hvoid]
      rw [hflush]
      exact h

/-- A fetched batch that is filtered and joined to the one that is held back is carried by it. -/
theorem carries_join (h : Carries filters taken pending.toList) (b : RawBatch) :
    Carries filters (taken ++ [b]) [join pending (filters.apply b)] := by
  have hb : Carries filters [b] [filters.apply b] := by
    constructor
    · simp [Filters.apply, RawBatch.filter]
    · rfl
  have hboth := h.append hb
  cases pending with
  | none => exact hboth
  | some p =>
    constructor
    · rw [← hboth.entries]
      simp [join, RawBatch.entries_append]
    · rw [← hboth.mark]
      simp [join, lastMark, RawBatch.tail_append]

end Accumulation

end Replica
