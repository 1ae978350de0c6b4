import Replica.Pipeline.Run
import Replica.Proofs.Checkpoint.Agreement
import Replica.Proofs.Pipeline.Carried

/-!
# The stages of the pipeline

Fetching, accumulating and executing are three stages that work side by side and hand batches to one
another. `Pipeline.Step` is one step of one of them, or something that happens from outside, and
`Pipeline.Steps` any number of steps in any order. A stage may fail at any moment and with any
error: that stands for failures of the source, for cancellations and for stages that are lost.

No step moves the checkpoint back (`Steps.not_lt`), and a stage ends without failure only if the one
before it did (`Ended`).
-/

namespace Replica

open Accumulation (flush join isDue)

/-- The stages of a run of the pipeline, and what is on the way between them. -/
structure Stages where
  /-- The answers to the coming fetches. -/
  source : Source
  /-- How fetching ended. -/
  sourceEnd : Option (Except ReplicationError Unit) := none
  /-- The batches that were fetched and wait to be accumulated. -/
  fetched : List RawBatch := []
  /-- The batch that is held back. -/
  pending : Option RawBatch := none
  /-- How accumulating ended. -/
  accumulateEnd : Option (Except ReplicationError Unit) := none
  /-- The batches that were handed on and wait to be executed. -/
  waiting : List RawBatch := []
  /-- The batch that is executed, and what is left to apply of it. -/
  current : Option (RawBatch × List Batch) := none
  /-- How executing ended. -/
  executeEnd : Option (Except ReplicationError Unit) := none
  /-- The store, the checkpoint and what was counted. -/
  applied : Applied
  /-- All batches that were handed on in this run. -/
  handedOn : List RawBatch := []
  /-- All batches to which the executor answered with success in this run. -/
  succeeded : List Batch := []

namespace Stages

/-- The stages when a run begins. -/
def start (source : Source) (s : Applied) : Stages := { source := source, applied := s }

/-- The mark of the checkpoint. -/
def mark (x : Stages) : Mark := x.applied.checkpoint.current

/-- Hands on the batch that is held back, and nothing is held back then. -/
def handOn (x : Stages) (held : Option RawBatch) : Stages :=
  { x with
    pending := none
    waiting := x.waiting ++ flush held
    handedOn := x.handedOn ++ flush held }

/-- All stages came to their ends without a failure, and the token did not fire. -/
structure EndedWell (x : Stages) : Prop where
  /-- Fetching ended without a failure. -/
  source : x.sourceEnd = some (.ok ())
  /-- Accumulating ended without a failure. -/
  accumulate : x.accumulateEnd = some (.ok ())
  /-- Executing ended without a failure. -/
  execute : x.executeEnd = some (.ok ())
  /-- The token did not fire. -/
  cancel : x.applied.work.cancel.fired = false

end Stages

namespace Pipeline

/-- A step of one of the stages. -/
inductive Step (p : Pipeline) (c : Context) : Stages → Stages → Prop
  /-- A batch is fetched. -/
  | fetch {x : Stages} {b : RawBatch} {late : Bool} {rest : Source} (running : x.sourceEnd = none)
      (next : x.source = .batch b late :: rest) :
      Step p c x { x with source := rest, fetched := x.fetched ++ [b] }
  /-- The source is at its end. -/
  | sourceEnds {x : Stages} (running : x.sourceEnd = none)
      (next : x.source = [] ∨ ∃ rest, x.source = .finish :: rest) :
      Step p c x { x with sourceEnd := some (.ok ()) }
  /-- Nobody is left to take what is fetched. -/
  | sourceLeaves {x : Stages} (running : x.sourceEnd = none)
      (gone : x.accumulateEnd.isSome = true) :
      Step p c x { x with sourceEnd := some (.ok ()) }
  /-- Fetching fails, is cancelled or is lost. -/
  | sourceFails {x : Stages} (running : x.sourceEnd = none) (e : ReplicationError) :
      Step p c x { x with sourceEnd := some (.error e) }
  /-- A batch is received and held back. -/
  | hold {x : Stages} {b : RawBatch} {rest : List RawBatch} (running : x.accumulateEnd = none)
      (next : x.fetched = b :: rest) (checked : (p.filters.apply b).check = .ok ())
      (early : isDue p.limits (join x.pending (p.filters.apply b)) = false) :
      Step p c x { x with fetched := rest, pending := some (join x.pending (p.filters.apply b)) }
  /-- A batch is received, and there is enough to hand on. -/
  | receive {x : Stages} {b : RawBatch} {rest : List RawBatch} (running : x.accumulateEnd = none)
      (next : x.fetched = b :: rest) (checked : (p.filters.apply b).check = .ok ())
      (due : isDue p.limits (join x.pending (p.filters.apply b)) = true)
      (taker : flush (some (join x.pending (p.filters.apply b))) ≠ [] → x.executeEnd = none) :
      Step p c x ({ x with fetched := rest }.handOn (some (join x.pending (p.filters.apply b))))
  /-- The time of the batch that is held back is up. -/
  | expire {x : Stages} (running : x.accumulateEnd = none)
      (taker : flush x.pending ≠ [] → x.executeEnd = none) :
      Step p c x (x.handOn x.pending)
  /-- Everything that was fetched was received, and no more will come. -/
  | inputEnds {x : Stages} (running : x.accumulateEnd = none) (empty : x.fetched = [])
      (gone : x.sourceEnd.isSome = true) (taker : flush x.pending ≠ [] → x.executeEnd = none) :
      Step p c x { x.handOn x.pending with accumulateEnd := some (.ok ()) }
  /-- Nobody is left to take what would be handed on. -/
  | accumulateLeaves {x : Stages} (running : x.accumulateEnd = none)
      (gone : x.executeEnd.isSome = true) :
      Step p c x { x with accumulateEnd := some (.ok ()) }
  /-- Accumulating fails, as at an entry that cannot be applied, is cancelled or is lost. -/
  | accumulateFails {x : Stages} (running : x.accumulateEnd = none) (e : ReplicationError) :
      Step p c x { x with accumulateEnd := some (.error e) }
  /-- A batch that was handed on is interpreted. -/
  | begin {x : Stages} {b : RawBatch} {rest : List RawBatch} {batches : List Batch}
      (running : x.executeEnd = none) (idle : x.current = none) (next : x.waiting = b :: rest)
      (read : Batch.ofEntries c b.entries = .ok batches) :
      Step p c x { x with waiting := rest, current := some (b, batches) }
  /-- A batch of the executor is applied with success. -/
  | apply {x : Stages} {b : RawBatch} {batch : Batch} {batches : List Batch} {s : Applied}
      (running : x.executeEnd = none) (next : x.current = some (b, batch :: batches))
      (d : Disturbance) (answer : p.applyBatch c d batch x.applied = (.ok (), s)) :
      Step p c x { x with
        current := some (b, batches)
        applied := s
        succeeded := x.succeeded ++ [batch] }
  /-- A batch of the executor is applied without success. -/
  | applyFails {x : Stages} {b : RawBatch} {batch : Batch} {batches : List Batch} {s : Applied}
      {e : ReplicationError} (running : x.executeEnd = none)
      (next : x.current = some (b, batch :: batches)) (d : Disturbance)
      (answer : p.applyBatch c d batch x.applied = (.error e, s)) :
      Step p c x { x with executeEnd := some (.error e), applied := s }
  /-- Everything of a batch was applied, and the checkpoint moves. -/
  | complete {x : Stages} {b : RawBatch} {s : Applied} (running : x.executeEnd = none)
      (next : x.current = some (b, [])) (answer : Pipeline.complete b x.applied = (.ok (), s)) :
      Step p c x { x with current := none, applied := s }
  /-- Everything of a batch was applied, but the checkpoint cannot be moved. -/
  | completeFails {x : Stages} {b : RawBatch} {s : Applied} {e : ReplicationError}
      (running : x.executeEnd = none) (next : x.current = some (b, []))
      (answer : Pipeline.complete b x.applied = (.error e, s)) :
      Step p c x { x with executeEnd := some (.error e), applied := s }
  /-- Everything that was handed on was executed, and no more will come. -/
  | executeEnds {x : Stages} (running : x.executeEnd = none) (idle : x.current = none)
      (empty : x.waiting = []) (gone : x.accumulateEnd.isSome = true) :
      Step p c x { x with executeEnd := some (.ok ()) }
  /-- Executing fails, is cancelled or is lost. -/
  | executeFails {x : Stages} (running : x.executeEnd = none) (e : ReplicationError) :
      Step p c x { x with executeEnd := some (.error e) }
  /-- The token fires, or something happens to the store. -/
  | outside {x : Stages} (work : Workplace)
      (fired : x.applied.work.cancel.fired = true → work.cancel.fired = true) :
      Step p c x { x with applied := { x.applied with work := work } }

/-- Any number of steps of the stages, in any order. -/
def Steps (p : Pipeline) (c : Context) : Stages → Stages → Prop := Relation.ReflTransGen (p.Step c)

variable {p : Pipeline} {c : Context} {d : Disturbance} {x y : Stages} {s s' : Applied}
  {b : RawBatch} {batch : Batch} {source : Source} {e : ReplicationError}

/-! ## The checkpoint of single steps -/

/-- Applying a batch leaves the checkpoint. -/
theorem checkpoint_applyBatch {answer : Except ReplicationError Unit}
    (h : p.applyBatch c d batch s = (answer, s')) : s'.checkpoint = s.checkpoint := by
  unfold applyBatch at h
  split_ifs at h
  · rw [← (Prod.mk.inj h).2]
  · dsimp only at h
    split_ifs at h <;> rw [← (Prod.mk.inj h).2]

/-- A batch that is completed moves the checkpoint to its tail, if it has one, and the tail does not
lie before it. -/
theorem complete_eq_ok (h : complete b s = (.ok (), s')) :
    s'.checkpoint.current = b.tail.getD s.checkpoint.current ∧
      ¬ s'.checkpoint.current.position < s.checkpoint.current.position := by
  unfold complete at h
  cases htail : b.tail with
  | none =>
    rw [htail] at h
    obtain ⟨-, rfl⟩ := Prod.mk.inj h
    exact ⟨rfl, Position.lt_irrefl _⟩
  | some tail =>
    rw [htail] at h
    dsimp only at h
    split at h
    · rename_i checkpoint store hadvance
      obtain ⟨-, rfl⟩ := Prod.mk.inj h
      obtain ⟨hback, hforce⟩ := Checkpoint.advance_eq_ok hadvance
      obtain ⟨rfl, -⟩ := Checkpoint.force_eq_ok hforce
      exact ⟨rfl, hback⟩
    · cases congrArg Prod.fst h

/-- A batch that cannot be completed leaves the checkpoint. -/
theorem complete_eq_error (h : complete b s = (.error e, s')) : s'.checkpoint = s.checkpoint := by
  unfold complete at h
  cases htail : b.tail with
  | none =>
    rw [htail] at h
    cases congrArg Prod.fst h
  | some tail =>
    rw [htail] at h
    dsimp only at h
    split at h
    · cases congrArg Prod.fst h
    · rename_i hadvance
      obtain ⟨-, rfl⟩ := Prod.mk.inj h
      have hfailed : (CheckpointCall.advance tail).run s.checkpoint s.work.store = _ := hadvance
      exact (CheckpointCall.run_eq_error hfailed).1

/-- No step moves the checkpoint back. -/
theorem Step.not_lt (h : p.Step c x y) : ¬ y.mark.position < x.mark.position := by
  have hsame : y.applied.checkpoint = x.applied.checkpoint →
      ¬ y.mark.position < x.mark.position := by
    intro heq
    rw [Stages.mark, Stages.mark, heq]
    exact Position.lt_irrefl _
  cases h with
  | apply running next d answer => exact hsame (checkpoint_applyBatch answer)
  | applyFails running next d answer => exact hsame (checkpoint_applyBatch answer)
  | complete running next answer => exact (complete_eq_ok answer).2
  | completeFails running next answer => exact hsame (complete_eq_error answer)
  | _ => exact hsame rfl

/-- No steps move the checkpoint back. -/
theorem Steps.not_lt (h : p.Steps c x y) : ¬ y.mark.position < x.mark.position := by
  induction h with
  | refl => exact Position.lt_irrefl _
  | tail _ hstep ih => exact Position.not_lt_trans ih hstep.not_lt

/-! ## How the stages end -/

/-- A stage failed. -/
def Failed (ending : Option (Except ReplicationError Unit)) : Prop := ∃ e, ending = some (.error e)

/-- A stage that runs did not fail. -/
theorem not_failed_of_none {ending : Option (Except ReplicationError Unit)} (h : ending = none) :
    ¬ Failed ending := by
  rintro ⟨e, he⟩
  rw [h] at he
  cases he

/-- A stage that ended without a failure had nothing left to do, unless a later one failed. -/
structure Ended (source : Source) (x : Stages) : Prop where
  /-- What is left of the source ends well only if the source does. -/
  endsWell : x.source.EndsWell → source.EndsWell
  /-- The source was at its end. -/
  fetching : x.sourceEnd = some (.ok ()) →
    x.source.delivered = [] ∧ x.source.EndsWell ∨ Failed x.accumulateEnd ∨ Failed x.executeEnd
  /-- Fetching had ended before. -/
  accumulating : x.accumulateEnd = some (.ok ()) →
    x.sourceEnd.isSome = true ∨ Failed x.executeEnd
  /-- Accumulating had ended before. -/
  executing : x.executeEnd = some (.ok ()) → x.accumulateEnd.isSome = true

/-- At first no stage has ended. -/
theorem ended_start (source : Source) (s : Applied) : Ended source (.start source s) :=
  ⟨id, (fun h => nomatch h), (fun h => nomatch h), fun h => nomatch h⟩

/-- If accumulating has ended while fetching goes on, a stage failed. -/
theorem Ended.failed_of_accumulateEnd (h : Ended source x) (hrun : x.sourceEnd = none)
    (hend : x.accumulateEnd.isSome = true) : Failed x.accumulateEnd ∨ Failed x.executeEnd := by
  obtain ⟨e | ⟨⟩, he⟩ := Option.isSome_iff_exists.1 hend
  · exact .inl ⟨e, he⟩
  · rcases h.accumulating he with hsome | hfailed
    · rw [hrun] at hsome
      cases hsome
    · exact .inr hfailed

/-- If executing has ended while accumulating goes on, it failed. -/
theorem Ended.failed_of_executeEnd (h : Ended source x) (hrun : x.accumulateEnd = none)
    (hend : x.executeEnd.isSome = true) : Failed x.executeEnd := by
  obtain ⟨e | ⟨⟩, he⟩ := Option.isSome_iff_exists.1 hend
  · exact ⟨e, he⟩
  · have hsome := h.executing he
    rw [hrun] at hsome
    cases hsome

/-- If executing fails, nothing is said of the other stages. -/
theorem Ended.of_failed (h : Ended source x) (hsource : y.source = x.source)
    (hfailed : Failed y.executeEnd) : Ended source y := by
  refine ⟨?_, fun _ => .inr (.inr hfailed), fun _ => .inr hfailed, fun hend => ?_⟩
  · rw [hsource]
    exact h.endsWell
  · obtain ⟨e, he⟩ := hfailed
    rw [he] at hend
    cases hend

/-- Every step keeps the order in which stages end. -/
theorem Ended.step (h : Ended source x) (hstep : p.Step c x y) : Ended source y := by
  -- A stage that leaves because the next one is gone traces its end to the failure of a later one.
  cases hstep with
  | fetch running next =>
    refine ⟨fun hwell => h.endsWell ?_, fun hend => ?_, h.accumulating, h.executing⟩
    · rw [next]
      exact hwell
    · rw [running] at hend
      cases hend
  | sourceEnds running next =>
    refine ⟨h.endsWell, fun _ => .inl ?_, fun _ => .inl rfl, h.executing⟩
    rcases next with hnext | ⟨rest, hnext⟩ <;> exact hnext ▸ ⟨rfl, trivial⟩
  | sourceLeaves running gone =>
    exact ⟨h.endsWell, fun _ => .inr (h.failed_of_accumulateEnd running gone), fun _ => .inl rfl,
      h.executing⟩
  | sourceFails running e =>
    exact ⟨h.endsWell, (fun hend => nomatch hend), fun _ => .inl rfl, h.executing⟩
  | inputEnds running empty gone taker =>
    refine ⟨h.endsWell, fun hend => ?_, fun _ => .inl gone, fun _ => rfl⟩
    rcases h.fetching hend with hwell | hfailed | hfailed
    · exact .inl hwell
    · exact absurd hfailed (not_failed_of_none running)
    · exact .inr (.inr hfailed)
  | accumulateLeaves running gone =>
    have hfailed := h.failed_of_executeEnd running gone
    exact ⟨h.endsWell, fun _ => .inr (.inr hfailed), fun _ => .inr hfailed, fun _ => rfl⟩
  | accumulateFails running e =>
    exact ⟨h.endsWell, fun _ => .inr (.inl ⟨e, rfl⟩), (fun hend => nomatch hend), fun _ => rfl⟩
  | applyFails running next d answer => exact h.of_failed rfl ⟨_, rfl⟩
  | completeFails running next answer => exact h.of_failed rfl ⟨_, rfl⟩
  | executeFails running e => exact h.of_failed rfl ⟨_, rfl⟩
  | executeEnds running idle empty gone =>
    have hnot := not_failed_of_none running
    refine ⟨h.endsWell, fun hend => ?_, fun hend => ?_, fun _ => gone⟩
    · rcases h.fetching hend with hwell | hfailed | hfailed
      · exact .inl hwell
      · exact .inr (.inl hfailed)
      · exact absurd hfailed hnot
    · exact .inl ((h.accumulating hend).resolve_right hnot)
  | _ => exact ⟨h.endsWell, h.fetching, h.accumulating, h.executing⟩

end Pipeline

end Replica
