import Replica.Proofs.Pipeline.Exact

/-!
# Runs that succeed

A run that succeeds cuts what the source delivers and is replicated into parts, interprets them and
hands all that they come to over to the executor, in order and once; the checkpoint is at the last
entry that was delivered then (`run_eq_ok`).
-/

namespace Replica.Pipeline

variable {p : Pipeline} {c : Context} {d : Disturbance} {x y : Stages} {s s' : Applied}
  {b : RawBatch} {batch : Batch} {source : Source}

/-- A batch that is applied with success has been handed to the executor. -/
theorem executed_applyBatch (h : p.applyBatch c d batch s = (.ok (), s')) :
    s'.executed = s.executed ++ [batch] := by
  unfold applyBatch at h
  split_ifs at h
  · cases congrArg Prod.fst h
  · dsimp only at h
    split_ifs at h
    · cases congrArg Prod.fst h
    · rw [← (Prod.mk.inj h).2]
    · rw [← (Prod.mk.inj h).2]

/-- Completing a batch hands nothing to the executor. -/
theorem executed_complete (h : complete b s = (.ok (), s')) : s'.executed = s.executed := by
  unfold complete at h
  cases htail : b.tail with
  | none =>
    rw [htail] at h
    rw [← (Prod.mk.inj h).2]
  | some tail =>
    rw [htail] at h
    dsimp only at h
    split at h
    · rw [← (Prod.mk.inj h).2]
    · cases congrArg Prod.fst h

/-- As long as executing has not failed, what was handed to the executor has succeeded. -/
theorem Step.executed (hstep : p.Step c x y)
    (h : ¬ Failed x.executeEnd → x.applied.executed = x.succeeded)
    (hfailed : ¬ Failed y.executeEnd) : y.applied.executed = y.succeeded := by
  cases hstep with
  | apply running next d answer =>
    show _ = x.succeeded ++ _
    rw [← h (not_failed_of_none running)]
    exact executed_applyBatch answer
  | complete running next answer =>
    exact (executed_complete answer).trans (h (not_failed_of_none running))
  | applyFails running next d answer => exact absurd ⟨_, rfl⟩ hfailed
  | completeFails running next answer => exact absurd ⟨_, rfl⟩ hfailed
  | executeFails running e => exact absurd ⟨_, rfl⟩ hfailed
  | executeEnds running idle empty gone => exact h (not_failed_of_none running)
  | _ => exact h hfailed

/-- As long as executing has not failed, all that was handed to the executor has succeeded. -/
theorem Steps.executed (h : p.Steps c (.start source { s with executed := [] }) x)
    (hfailed : ¬ Failed x.executeEnd) : x.applied.executed = x.succeeded := by
  induction h with
  | refl => rfl
  | tail _ hstep ih => exact hstep.executed ih hfailed

/-- A run that succeeds has come to the end of its source and has executed what it delivers and is
replicated, in parts, in order and once, and its checkpoint is at the last entry that was
delivered. -/
theorem run_eq_ok (h : p.run c d source s = (.ok (), s')) :
    source.EndsWell ∧ ∃ (cuts : List (List Entry)) (readings : List (List Batch)),
      cuts.flatten =
        (source.delivered.flatMap RawBatch.entries).filter p.filters.acceptsEntry ∧
      cuts.map (Batch.ofEntries c) = readings.map .ok ∧
      s'.executed = readings.flatten ∧
      s'.checkpoint.current =
        (RawBatch.lastMark source.delivered).getD s.checkpoint.current := by
  obtain ⟨x, hsteps, happlied, hok⟩ := steps_run p c d source s
  rw [h] at happlied hok
  dsimp only at happlied
  have hwell : x.EndedWell := hok.1 rfl
  obtain ⟨hended, ⟨accepted, held, hcollected⟩, ⟨completed, readings, part, hworked⟩⟩ :=
    hsteps.invariants
  -- All stages have ended well, so nothing is left between two of them.
  obtain ⟨hends, rfl⟩ := hcollected.of_endedWell hended hwell
  obtain ⟨hall, hidle⟩ := hworked.whole hwell.execute
  have hfailed : ¬ Failed x.executeEnd := by
    rintro ⟨e, he⟩
    rw [hwell.execute] at he
    cases he
  refine ⟨hends, completed.map RawBatch.entries, readings, ?_, ?_, ?_, ?_⟩
  · rw [← hcollected.handedOn.entries, hall, List.flatMap_def]
  · rw [List.map_map]
    exact hworked.read
  · rw [← happlied, hsteps.executed hfailed, hworked.succeeded, hworked.idle hidle,
      List.append_nil]
  · rw [← happlied, ← hcollected.handedOn.mark, hall]
    exact hworked.mark

end Replica.Pipeline
