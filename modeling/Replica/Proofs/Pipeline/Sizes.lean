import Replica.Proofs.Fallible
import Replica.Proofs.Pipeline.Simulation
import Replica.Proofs.Window

/-!
# How large batches become

Whether there is enough to hand on is asked after a fetched batch was joined to what is held back.
So what is held back is never full (`Metered`), and a batch that is handed on is larger than the
limit by as much as the last fetched batch in it adds to that (`handedOn_size`). Where no fetched
batch has more than one entry that is replicated, the limit is kept. In general it is exceeded, by
all but one of the entries that a fetched batch can have (`exists_flush_of_size`).
-/

namespace Replica

namespace RawBatch

theorem size_append (a b : RawBatch) : (a ++ b).size = a.size + b.size := List.length_append

end RawBatch

namespace Accumulation

variable {filters : Filters} {limits : PipelineLimits} {pending : Option RawBatch} {b : RawBatch}

/-- What is handed on is what was held back. -/
theorem eq_some_of_mem_flush (h : b ∈ flush pending) : pending = some b :=
  Option.mem_toList.1 (List.mem_of_mem_filter h)

/-- How many entries are held back. -/
def heldSize (pending : Option RawBatch) : Nat := pending.elim 0 RawBatch.size

/-- A batch that is joined adds its entries to those that are held back. -/
theorem size_join (pending : Option RawBatch) (b : RawBatch) :
    (join pending b).size = heldSize pending + b.size := by
  cases pending with
  | none => exact (Nat.zero_add _).symm
  | some held => exact RawBatch.size_append held b

/-- What is held back of a batch that is not due is not full. -/
theorem size_lt_of_not_due (h : isDue limits b = false) : b.size < limits.maxBatchSize := by
  rw [isDue, Bool.or_eq_false_iff, decide_eq_false_iff_not] at h
  exact Nat.lt_of_not_le h.1

/-- What has entries is handed on. -/
theorem mem_flush_of_size (h : b.size ≠ 0) : b ∈ flush (some b) := by
  refine List.mem_filter.2 ⟨List.mem_singleton.2 rfl, ?_⟩
  have hentries : b.entries.isEmpty = false :=
    List.isEmpty_eq_false_iff.2 (mt List.length_eq_zero_iff.2 h)
  rw [RawBatch.isVoid, hentries]
  rfl

/-! ## How far the limit is exceeded -/

/-- Entries that do nothing, in a batch behind which the source has more. -/
def idle (n : Nat) : RawBatch := .ofEntries (.replicate n ⟨.epoch, 1, ⟨"", ""⟩, .noop⟩) true

theorem size_idle (n : Nat) : (idle n).size = n := List.length_replicate

/-- Nothing keeps back an entry that does nothing. -/
theorem apply_idle (filters : Filters) (n : Nat) : filters.apply (idle n) = idle n := by
  have hall : ∀ e ∈ (idle n).entries, filters.acceptsEntry e = true := by
    intro e he
    rw [List.eq_of_mem_replicate he]
    rfl
  exact congrArg (fun entries => RawBatch.mk entries _ _) (List.filter_eq_self.2 hall)

theorem check_idle (n : Nat) : (idle n).check = .ok () := by
  refine forM_eq_ok.2 fun e he => ?_
  rw [List.eq_of_mem_replicate he]
  rfl

theorem ready_join_idle (pending : Option RawBatch) (n : Nat) :
    (join pending (idle n)).ready = true := by
  cases pending <;> rfl

/-- Whether entries that do nothing are handed on depends on how many there are. -/
theorem isDue_join_idle (pending : Option RawBatch) (n : Nat) :
    isDue limits (join pending (idle n)) = decide (limits.maxBatchSize ≤ heldSize pending + n) := by
  rw [isDue, ready_join_idle, size_join, size_idle, Bool.not_true, Bool.or_false]

/-- Single entries that do nothing, and more of them at once behind these. -/
def idleSource (singles last : Nat) : Source :=
  .serving (.replicate singles (idle 1) ++ [idle last])

/-- While there are too few, entries that do nothing are held back one by one. Then they are handed
on together with all that come at once. -/
theorem exists_flush_of_heldSize (k : Nat) {missing : Nat}
    (hmissing : heldSize pending + missing + 1 = limits.maxBatchSize) :
    ∃ b ∈ (flushes limits filters pending (idleSource missing (k + 1))).1,
      b.size = limits.maxBatchSize + k := by
  induction missing generalizing pending with
  | zero =>
    have hdue : isDue limits (join pending (idle (k + 1))) = true := by
      rw [isDue_join_idle, decide_eq_true_eq]
      omega
    have hsize : (join pending (idle (k + 1))).size = limits.maxBatchSize + k := by
      rw [size_join, size_idle]
      omega
    have hflush := mem_flush_of_size (b := join pending (idle (k + 1))) (by omega)
    refine ⟨join pending (idle (k + 1)), ?_, hsize⟩
    show _ ∈ (flushes limits filters pending [.batch (idle (k + 1)) false]).1
    rw [flushes, apply_idle, check_idle]
    simp [hdue, hflush]
  | succ missing ih =>
    have hearly : isDue limits (join pending (idle 1)) = false := by
      rw [isDue_join_idle, decide_eq_false_iff_not]
      omega
    have hheld : heldSize (some (join pending (idle 1))) + missing + 1 = limits.maxBatchSize := by
      show (join pending (idle 1)).size + missing + 1 = _
      rw [size_join, size_idle]
      omega
    obtain ⟨b, hb, hsize⟩ := ih hheld
    refine ⟨b, ?_, hsize⟩
    show b ∈ (flushes limits filters pending (.batch (idle 1) false :: idleSource missing _)).1
    rw [flushes, apply_idle, check_idle]
    simpa [hearly] using hb

/-- Whatever the limit and the filters are, it is exceeded where more than one entry can be fetched
at once, by all of these but one. -/
theorem exists_flush_of_size (filters : Filters) (hlimit : 1 ≤ limits.maxBatchSize) (k : Nat) :
    ∃ source : Source, (∀ b ∈ source.delivered, b.size ≤ k + 1) ∧
      ∃ b ∈ (flushes limits filters none source).1, b.size = limits.maxBatchSize + k := by
  refine ⟨idleSource (limits.maxBatchSize - 1) (k + 1), fun b hb => ?_,
    exists_flush_of_heldSize k ?_⟩
  · rw [idleSource, Source.delivered_serving] at hb
    rcases List.mem_append.1 hb with hsingle | hlast
    · rw [List.eq_of_mem_replicate hsingle, size_idle]
      exact Nat.le_add_left 1 k
    · rw [List.mem_singleton.1 hlast, size_idle]
  · show 0 + (limits.maxBatchSize - 1) + 1 = limits.maxBatchSize
    omega

end Accumulation

namespace Pipeline

open Accumulation (flush join isDue flushes heldSize)

variable {p : Pipeline} {c : Context} {x y : Stages} {s : Applied} {b : RawBatch}
  {source : Source} {pending : Option RawBatch}

/-- The batch is what was held back, which was not full, and what is replicated of a fetched batch
behind it. -/
def Filled (p : Pipeline) (source : Source) (b : RawBatch) : Prop :=
  ∃ (held : List Entry) (last : RawBatch), last ∈ source.delivered ∧
    b.entries = held ++ (p.filters.apply last).entries ∧
    held.length ≤ p.limits.maxBatchSize - 1

/-- What is held back is not full, and everything that is or was handed on was not full before the
last batch was joined to it. -/
structure Metered (p : Pipeline) (source : Source) (x : Stages) : Prop where
  /-- What is to be fetched is delivered by the source. -/
  coming : ∀ b ∈ x.source.delivered, b ∈ source.delivered
  /-- What was fetched was delivered by the source. -/
  fetched : ∀ b ∈ x.fetched, b ∈ source.delivered
  /-- What is held back is not full. -/
  pending : ∀ b, x.pending = some b → p.Filled source b ∧ b.size < p.limits.maxBatchSize
  /-- What was handed on was not full before. -/
  handedOn : ∀ b ∈ x.handedOn, p.Filled source b

/-- At first nothing is held back. -/
theorem metered_start (p : Pipeline) (source : Source) (s : Applied) :
    Metered p source (.start source s) where
  coming := fun _ hb => hb
  fetched := fun _ hb => nomatch hb
  pending := fun _ hb => nomatch hb
  handedOn := fun _ hb => nomatch hb

/-- What is joined to something that is not full fills it. -/
theorem Metered.filled_join (h : Metered p source x) (hb : b ∈ source.delivered) :
    p.Filled source (join x.pending (p.filters.apply b)) := by
  cases hpending : x.pending with
  | none => exact ⟨[], b, hb, rfl, Nat.zero_le _⟩
  | some held =>
    have hsize : held.entries.length < p.limits.maxBatchSize := (h.pending held hpending).2
    exact ⟨held.entries, b, hb, rfl, by omega⟩

/-- Handing on adds what is handed on. -/
theorem Metered.handOn (h : Metered p source x) {held : Option RawBatch}
    (hheld : ∀ b, held = some b → p.Filled source b) : Metered p source (x.handOn held) where
  coming := h.coming
  fetched := h.fetched
  pending := fun _ hb => nomatch hb
  handedOn := fun b hb => (List.mem_append.1 hb).elim (h.handedOn b) fun hflush =>
    hheld b (Accumulation.eq_some_of_mem_flush hflush)

/-- Every step leaves what is held back not full. -/
theorem Metered.step (h : Metered p source x) (hstep : p.Step c x y) : Metered p source y := by
  cases hstep with
  | @fetch b late rest running next =>
    have hcoming := h.coming
    rw [next] at hcoming
    obtain ⟨hb, hrest⟩ := List.forall_mem_cons.1 hcoming
    refine ⟨hrest, fun b' hb' => ?_, h.pending, h.handedOn⟩
    rcases List.mem_append.1 hb' with hbefore | hnew
    · exact h.fetched b' hbefore
    · rw [List.mem_singleton.1 hnew]
      exact hb
  | @hold b rest running next checked early =>
    have hfetched := h.fetched
    rw [next] at hfetched
    obtain ⟨hb, hrest⟩ := List.forall_mem_cons.1 hfetched
    refine ⟨h.coming, hrest, fun b' hb' => ?_, h.handedOn⟩
    obtain rfl := Option.some.inj hb'
    exact ⟨h.filled_join hb, Accumulation.size_lt_of_not_due early⟩
  | @receive b rest running next checked due taker =>
    have hfetched := h.fetched
    rw [next] at hfetched
    obtain ⟨hb, hrest⟩ := List.forall_mem_cons.1 hfetched
    have hreceived : Metered p source { x with fetched := rest } :=
      ⟨h.coming, hrest, h.pending, h.handedOn⟩
    refine hreceived.handOn fun b' hb' => ?_
    obtain rfl := Option.some.inj hb'
    exact h.filled_join hb
  | expire running taker => exact h.handOn fun b hb => (h.pending b hb).1
  | inputEnds running empty gone taker =>
    have hflushed := h.handOn fun b hb => (h.pending b hb).1
    exact ⟨hflushed.coming, hflushed.fetched, hflushed.pending, hflushed.handedOn⟩
  | _ => exact ⟨h.coming, h.fetched, h.pending, h.handedOn⟩

/-- At every moment what is held back is not full. -/
theorem Steps.metered (h : p.Steps c (.start source s) x) : Metered p source x := by
  induction h with
  | refl => exact metered_start p source s
  | tail _ hstep ih => exact ih.step hstep

/-- However the stages take turns, what is held back is smaller than the limit, and a batch that is
handed on consists of fewer entries than the limit and of those of the last fetched batch in it that
are replicated. So the limit is kept where no fetched batch has more than one of these, and it is
exceeded by one less than a fetched batch has at most. -/
theorem handedOn_size (hlimit : 1 ≤ p.limits.maxBatchSize) (h : p.Steps c (.start source s) x) :
    (∀ b, x.pending = some b → b.size < p.limits.maxBatchSize) ∧
    (∀ b ∈ x.handedOn, ∃ (held : List Entry) (last : RawBatch), last ∈ source.delivered ∧
      b.entries = held ++ (p.filters.apply last).entries ∧
      held.length < p.limits.maxBatchSize) ∧
    ∀ k, (∀ b ∈ source.delivered, (p.filters.apply b).size ≤ k + 1) →
      ∀ b ∈ x.handedOn, b.size ≤ p.limits.maxBatchSize + k := by
  have hmetered := h.metered
  refine ⟨fun b hb => (hmetered.pending b hb).2, fun b hb => ?_, fun k hk b hb => ?_⟩
  · obtain ⟨held, last, hlast, hentries, hheld⟩ := hmetered.handedOn b hb
    exact ⟨held, last, hlast, hentries, by omega⟩
  · obtain ⟨held, last, hlast, hentries, hheld⟩ := hmetered.handedOn b hb
    have hadded : (p.filters.apply last).entries.length ≤ k + 1 := hk last hlast
    calc b.size = held.length + (p.filters.apply last).entries.length := by
          rw [RawBatch.size, hentries, List.length_append]
      _ ≤ (p.limits.maxBatchSize - 1) + (k + 1) := Nat.add_le_add hheld hadded
      _ = p.limits.maxBatchSize + k := by omega

/-- A pipeline that hands on whatever it has. -/
def eagerPipeline : Pipeline := { limits := { maxBatchSize := 1 } }

/-- A source that delivers two entries at once. -/
def pairSource : Source := [.batch (Accumulation.idle 2) false]

/-- The stages when both entries were fetched and received. -/
def pairReceived : Stages :=
  { Stages.start [] { work := { store := .empty }, checkpoint := ⟨.initial, 1⟩ } with
    waiting := [Accumulation.idle 2]
    handedOn := [Accumulation.idle 2] }

theorem handedOn_size_pair : pairReceived.handedOn.map RawBatch.size = [2] ∧
    (Accumulation.idle 2).size ≤ eagerPipeline.limits.maxBatchSize + 1 := by
  have hfetch := Step.fetch (p := eagerPipeline) (c := .steady)
    (x := .start pairSource { work := { store := .empty }, checkpoint := ⟨.initial, 1⟩ }) rfl rfl
  have hreceive := Step.receive (p := eagerPipeline) (c := .steady)
    (x := { Stages.start [] { work := { store := .empty }, checkpoint := ⟨.initial, 1⟩ } with
      fetched := [Accumulation.idle 2] }) rfl rfl rfl rfl fun _ => rfl
  have hsteps : eagerPipeline.Steps .steady
      (.start pairSource { work := { store := .empty }, checkpoint := ⟨.initial, 1⟩ })
      pairReceived :=
    hfetch.steps.trans hreceive.steps
  obtain ⟨-, -, hsize⟩ := handedOn_size (by decide) hsteps
  exact ⟨rfl, hsize 1 (by decide) _ (List.mem_singleton.2 rfl)⟩

/-- Where single entries are handed on, two that are fetched together are handed on together. -/
theorem flushes_pair : ¬ ∀ b ∈ (flushes eagerPipeline.limits eagerPipeline.filters none
    pairSource).1, b.size ≤ eagerPipeline.limits.maxBatchSize := by
  decide

end Pipeline

end Replica
