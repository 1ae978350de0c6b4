import Replica.Proofs.Pipeline.Simulation

/-!
# The pipeline is exact

Three invariants are kept by every step of the stages: a stage ends without failure only if the one
before it did (`Ended`), what was handed on carries what was fetched (`Collected`), and the
checkpoint follows the batches that were applied completely (`Worked`). `Pipeline.exact` puts them
together: at every moment, however the stages take turns and whatever fails, nothing was lost,
doubled or put out of order, and the checkpoint lies behind nothing that was not applied.
-/

namespace Replica

open Accumulation (flush join Carries)

namespace Pipeline

variable {p : Pipeline} {c : Context} {x y : Stages} {s s' : Applied} {b : RawBatch}
  {source : Source} {accepted held taken completed : List RawBatch} {pending : Option RawBatch}
  {m : Mark} {readings : List (List Batch)} {part : List Batch}

/-! ## What is handed on -/

/-- What was handed on carries the batches `accepted`, and what is held back the batches `held`; all
others that the source delivers are still to come. -/
structure Collected (p : Pipeline) (source : Source) (accepted held : List RawBatch) (x : Stages) :
    Prop where
  /-- While batches are accumulated, none is lost, doubled or out of order. -/
  stream : x.accumulateEnd = none →
    source.delivered = accepted ++ held ++ x.fetched ++ x.source.delivered
  /-- What is held back is carried. -/
  pending : x.accumulateEnd = none → Carries p.filters held x.pending.toList
  /-- What was handed on came first. -/
  first : accepted <+: source.delivered
  /-- Where accumulating ended well, everything that was fetched was handed on. -/
  whole : x.accumulateEnd = some (.ok ()) →
    source.delivered = accepted ++ x.source.delivered ∨ Failed x.executeEnd
  /-- What was handed on is carried. -/
  handedOn : Carries p.filters accepted x.handedOn
  /-- The first of the batches that were handed on carry the first of those delivered. -/
  aligned : ∀ done, done <+: x.handedOn → ∃ taken, taken <+: accepted ∧ Carries p.filters taken done

/-- At first nothing was handed on. -/
theorem collected_start (p : Pipeline) (source : Source) (s : Applied) :
    Collected p source [] [] (.start source s) where
  stream := fun _ => rfl
  pending := fun _ => Accumulation.carries_nil
  first := List.nil_prefix
  whole := fun h => nomatch h
  handedOn := Accumulation.carries_nil
  aligned := fun done hdone => ⟨[], List.nil_prefix, by
    rw [List.prefix_nil.1 hdone]
    exact Accumulation.carries_nil⟩

/-- Handing on what is held back keeps everything in order. -/
theorem Collected.handOn (h : Collected p source accepted held x)
    (hcarries : Carries p.filters taken pending.toList) (hnone : y.pending = none)
    (hhanded : y.handedOn = x.handedOn ++ flush pending)
    (hstream : source.delivered = accepted ++ taken ++ y.fetched ++ y.source.delivered)
    (hwhole : y.accumulateEnd = some (.ok ()) → y.fetched = []) :
    Collected p source (accepted ++ taken) [] y := by
  have hall : Carries p.filters (accepted ++ taken) y.handedOn := by
    rw [hhanded]
    exact h.handedOn.append (Accumulation.carries_flush hcarries)
  refine ⟨fun _ => ?_, fun _ => ?_, ?_, fun hend => .inl ?_, hall, fun done hdone => ?_⟩
  · rw [hstream, List.append_nil]
  · rw [hnone]
    exact Accumulation.carries_nil
  · rw [hstream, List.append_assoc]
    exact List.prefix_append _ _
  · rw [hstream, hwhole hend, List.append_nil]
  · have hbefore : done <+: x.handedOn →
        ∃ taken', taken' <+: accepted ++ taken ∧ Carries p.filters taken' done := by
      intro hd
      obtain ⟨taken', hprefix, hc⟩ := h.aligned done hd
      exact ⟨taken', hprefix.trans (List.prefix_append _ _), hc⟩
    -- At most one batch is handed on at once, so a part of all is a part of the former or all.
    rw [hhanded] at hdone hall
    cases pending with
    | none =>
      rw [flush, Option.toList_none, List.filter_nil, List.append_nil] at hdone
      exact hbefore hdone
    | some b =>
      by_cases hvoid : b.isVoid = true
      · have hflush : flush (some b) = [] := by simp [flush, hvoid]
        rw [hflush, List.append_nil] at hdone
        exact hbefore hdone
      · have hflush : flush (some b) = [b] := by simp [flush, hvoid]
        rw [hflush] at hdone hall
        rcases List.prefix_concat_iff.1 hdone with rfl | hd
        · exact ⟨_, List.prefix_rfl, hall⟩
        · exact hbefore hd

/-- Every step keeps in order what is handed on. -/
theorem Collected.step (h : Collected p source accepted held x) (hended : Ended source x)
    (hstep : p.Step c x y) : ∃ accepted held, Collected p source accepted held y := by
  cases hstep with
  | fetch running next =>
    refine ⟨accepted, held, fun hrun => ?_, h.pending, h.first, fun hend => .inr ?_, h.handedOn,
      h.aligned⟩
    · rw [h.stream hrun, next]
      simp [Source.delivered]
    · refine (hended.accumulating hend).resolve_left fun hsome => ?_
      rw [running] at hsome
      cases hsome
  | @hold b rest running next checked early =>
    refine ⟨accepted, held ++ [b], fun _ => ?_, fun _ => ?_, h.first, fun hend => ?_, h.handedOn,
      h.aligned⟩
    · rw [h.stream running, next]
      simp
    · exact Accumulation.carries_join (h.pending running) b
    · rw [running] at hend
      cases hend
  | @receive b rest running next checked due taker =>
    refine ⟨_, [], h.handOn (Accumulation.carries_join (h.pending running) b) rfl rfl ?_
      fun hend => ?_⟩
    · rw [h.stream running, next]
      simp [Stages.handOn]
    · rw [Stages.handOn, running] at hend
      cases hend
  | expire running taker =>
    refine ⟨_, [], h.handOn (h.pending running) rfl rfl (h.stream running) fun hend => ?_⟩
    rw [Stages.handOn, running] at hend
    cases hend
  | inputEnds running empty gone taker =>
    exact ⟨_, [], h.handOn (h.pending running) rfl rfl (h.stream running) fun _ => empty⟩
  | accumulateLeaves running gone =>
    exact ⟨accepted, held, (fun hrun => nomatch hrun), (fun hrun => nomatch hrun), h.first,
      fun _ => .inr (hended.failed_of_executeEnd running gone), h.handedOn, h.aligned⟩
  | accumulateFails running e =>
    exact ⟨accepted, held, (fun hrun => nomatch hrun), (fun hrun => nomatch hrun), h.first,
      (fun hend => nomatch hend), h.handedOn, h.aligned⟩
  | applyFails running next d answer =>
    exact ⟨accepted, held, h.stream, h.pending, h.first, fun _ => .inr ⟨_, rfl⟩, h.handedOn,
      h.aligned⟩
  | completeFails running next answer =>
    exact ⟨accepted, held, h.stream, h.pending, h.first, fun _ => .inr ⟨_, rfl⟩, h.handedOn,
      h.aligned⟩
  | executeFails running e =>
    exact ⟨accepted, held, h.stream, h.pending, h.first, fun _ => .inr ⟨_, rfl⟩, h.handedOn,
      h.aligned⟩
  -- The executor ends well, so it cannot be the failure that stopped the stages before it.
  | executeEnds running idle empty gone =>
    refine ⟨accepted, held, h.stream, h.pending, h.first, fun hend => .inl ?_, h.handedOn,
      h.aligned⟩
    exact (h.whole hend).resolve_right (not_failed_of_none running)
  | _ => exact ⟨accepted, held, h.stream, h.pending, h.first, h.whole, h.handedOn, h.aligned⟩

/-! ## What is executed -/

/-- The batches `completed` were executed completely, `readings` is what they came to, and `part`
what was applied of the batch that is executed now. -/
structure Worked (c : Context) (m : Mark) (completed : List RawBatch)
    (readings : List (List Batch)) (part : List Batch) (x : Stages) : Prop where
  /-- While batches are executed, none is lost, doubled or out of order. -/
  stream : x.executeEnd = none →
    x.handedOn = completed ++ (x.current.map Prod.fst).toList ++ x.waiting
  /-- What was executed came first. -/
  first : completed <+: x.handedOn
  /-- Where executing ended well, everything that was handed on was executed. -/
  whole : x.executeEnd = some (.ok ()) → x.handedOn = completed ∧ x.current = none
  /-- All that was executed was read without a failure. -/
  read : completed.map (fun b => Batch.ofEntries c b.entries) = readings.map .ok
  /-- All of it was applied with success. -/
  succeeded : x.succeeded = readings.flatten ++ part
  /-- Nothing is left of a batch while none is executed. -/
  idle : x.current = none → part = []
  /-- The batch that is executed was read without a failure. -/
  reading : ∀ b batches, x.current = some (b, batches) →
    Batch.ofEntries c b.entries = .ok (part ++ batches)
  /-- The checkpoint is at the last entry of what was executed, or where it was. -/
  mark : x.mark = (RawBatch.lastMark completed).getD m

/-- At first nothing was executed. -/
theorem worked_start (c : Context) (source : Source) (s : Applied) :
    Worked c s.checkpoint.current [] [] [] (.start source s) where
  stream := fun _ => rfl
  first := List.nil_prefix
  whole := fun h => nomatch h
  read := rfl
  succeeded := rfl
  idle := fun _ => rfl
  reading := fun _ _ h => nomatch h
  mark := rfl

/-- Handing on leaves what was executed. -/
theorem Worked.handOn (h : Worked c m completed readings part x) (hended : Ended source x)
    (hrun : x.accumulateEnd = none) (batches : List RawBatch)
    (hwaiting : y.waiting = x.waiting ++ batches) (hhanded : y.handedOn = x.handedOn ++ batches)
    (hcurrent : y.current = x.current) (hend : y.executeEnd = x.executeEnd)
    (hsucceeded : y.succeeded = x.succeeded) (happlied : y.applied = x.applied) :
    Worked c m completed readings part y where
  stream := fun hexecute => by
    rw [hhanded, h.stream (hend.symm.trans hexecute), hcurrent, hwaiting, List.append_assoc]
  first := by
    rw [hhanded]
    exact h.first.trans (List.prefix_append _ _)
  whole := fun hexecute => by
    have hsome := hended.executing (hend.symm.trans hexecute)
    rw [hrun] at hsome
    cases hsome
  read := h.read
  succeeded := hsucceeded.trans h.succeeded
  idle := fun hidle => h.idle (hcurrent.symm.trans hidle)
  reading := fun b batches hnext => h.reading b batches (hcurrent.symm.trans hnext)
  mark := by rw [Stages.mark, happlied, ← Stages.mark, h.mark]

/-- Where executing fails, the checkpoint stays. -/
theorem Worked.fails (h : Worked c m completed readings part x) (e : ReplicationError)
    (hcheckpoint : s.checkpoint = x.applied.checkpoint) :
    Worked c m completed readings part { x with executeEnd := some (.error e), applied := s } where
  stream := fun hexecute => nomatch hexecute
  first := h.first
  whole := fun hexecute => nomatch hexecute
  read := h.read
  succeeded := h.succeeded
  idle := h.idle
  reading := h.reading
  mark := by rw [Stages.mark, hcheckpoint, ← Stages.mark, h.mark]

/-- Beginning with a batch leaves what was executed. -/
theorem Worked.begin {rest : List RawBatch} {batches : List Batch}
    (h : Worked c m completed readings part x) (hrun : x.executeEnd = none)
    (hidle : x.current = none) (hnext : x.waiting = b :: rest)
    (hread : Batch.ofEntries c b.entries = .ok batches) :
    Worked c m completed readings part
      { x with waiting := rest, current := some (b, batches) } where
  stream := fun _ => by
    rw [h.stream hrun, hidle, hnext]
    simp
  first := h.first
  whole := fun hend => by
    rw [hrun] at hend
    cases hend
  read := h.read
  succeeded := h.succeeded
  idle := fun hnone => absurd hnone (Option.some_ne_none _)
  reading := fun b' batches' hsome => by
    obtain ⟨rfl, rfl⟩ := Prod.mk.inj (Option.some.inj hsome)
    rw [h.idle hidle]
    exact hread
  mark := h.mark

/-- Applying a batch of the executor moves it from what is left to what was applied. -/
theorem Worked.apply {batch : Batch} {batches : List Batch}
    (h : Worked c m completed readings part x) (hrun : x.executeEnd = none)
    (hnext : x.current = some (b, batch :: batches))
    (hcheckpoint : s.checkpoint = x.applied.checkpoint) :
    Worked c m completed readings (part ++ [batch])
      { x with
        current := some (b, batches)
        applied := s
        succeeded := x.succeeded ++ [batch] } where
  stream := fun _ => by
    rw [h.stream hrun, hnext]
    rfl
  first := h.first
  whole := fun hend => by
    rw [hrun] at hend
    cases hend
  read := h.read
  succeeded := by rw [h.succeeded, List.append_assoc]
  idle := fun hnone => absurd hnone (Option.some_ne_none _)
  reading := fun b' batches' hsome => by
    obtain ⟨rfl, rfl⟩ := Prod.mk.inj (Option.some.inj hsome)
    rw [h.reading _ _ hnext, List.append_assoc]
    rfl
  mark := by rw [Stages.mark, hcheckpoint, ← Stages.mark, h.mark]

/-- A batch of which nothing is left is executed completely, and all that it came to was applied. -/
theorem Worked.complete (h : Worked c m completed readings part x) (hrun : x.executeEnd = none)
    (hnext : x.current = some (b, []))
    (hmark : s.checkpoint.current = b.tail.getD x.applied.checkpoint.current) :
    Worked c m (completed ++ [b]) (readings ++ [part]) []
      { x with current := none, applied := s } where
  stream := fun _ => by
    rw [h.stream hrun, hnext]
    simp
  first := by
    rw [h.stream hrun, hnext]
    exact List.prefix_append _ _
  whole := fun hend => by
    rw [hrun] at hend
    cases hend
  read := by
    rw [List.map_append, List.map_append, h.read, List.map_singleton, List.map_singleton,
      h.reading _ _ hnext, List.append_nil]
  succeeded := by
    rw [h.succeeded, List.flatten_concat, List.append_nil]
  idle := fun _ => rfl
  reading := fun _ _ hsome => absurd hsome.symm (Option.some_ne_none _)
  mark := by
    have hlast : RawBatch.lastMark [b] = b.tail := rfl
    rw [Stages.mark, hmark, ← Stages.mark, h.mark, RawBatch.lastMark_append, hlast, Option.getD_or]

/-- Executing ends where everything that was handed on was executed. -/
theorem Worked.executeEnds (h : Worked c m completed readings part x)
    (hrun : x.executeEnd = none) (hidle : x.current = none) (hempty : x.waiting = []) :
    Worked c m completed readings part { x with executeEnd := some (.ok ()) } where
  stream := fun hnone => absurd hnone (Option.some_ne_none _)
  first := h.first
  whole := fun _ => by
    rw [h.stream hrun, hidle, hempty]
    exact ⟨by simp, rfl⟩
  read := h.read
  succeeded := h.succeeded
  idle := h.idle
  reading := h.reading
  mark := h.mark

/-- Every step keeps the checkpoint behind what was executed. -/
theorem Worked.step (h : Worked c m completed readings part x) (hended : Ended source x)
    (hstep : p.Step c x y) :
    ∃ completed readings part, Worked c m completed readings part y := by
  cases hstep with
  | receive running next checked due taker =>
    exact ⟨_, _, _, h.handOn hended running _ rfl rfl rfl rfl rfl rfl⟩
  | expire running taker =>
    exact ⟨_, _, _, h.handOn hended running _ rfl rfl rfl rfl rfl rfl⟩
  | inputEnds running empty gone taker =>
    exact ⟨_, _, _, h.handOn hended running _ rfl rfl rfl rfl rfl rfl⟩
  | begin running idle next read => exact ⟨_, _, _, h.begin running idle next read⟩
  | apply running next d answer =>
    exact ⟨_, _, _, h.apply running next (checkpoint_applyBatch answer)⟩
  | applyFails running next d answer =>
    exact ⟨_, _, _, h.fails _ (checkpoint_applyBatch answer)⟩
  | complete running next answer =>
    exact ⟨_, _, _, h.complete running next (complete_eq_ok answer).1⟩
  | completeFails running next answer => exact ⟨_, _, _, h.fails _ (complete_eq_error answer)⟩
  | executeEnds running idle empty gone => exact ⟨_, _, _, h.executeEnds running idle empty⟩
  | executeFails running e => exact ⟨_, _, _, h.fails e rfl⟩
  | _ =>
    exact ⟨completed, readings, part, ⟨h.stream, h.first, h.whole, h.read, h.succeeded, h.idle,
      h.reading, h.mark⟩⟩

/-! ## Every moment of every run -/

/-- What holds of the stages of a run at every moment, `m` being the mark of the checkpoint when the
run began. -/
structure Exact (p : Pipeline) (c : Context) (source : Source) (m : Mark) (x : Stages) : Prop where
  /-- What was handed on are the entries of the first batches of the source that are replicated, in
  order. -/
  handedOn : ∃ taken, taken <+: source.delivered ∧ x.handedOn.flatMap RawBatch.entries =
    (taken.flatMap RawBatch.entries).filter p.filters.acceptsEntry
  /-- The checkpoint is where it was, or at the last entry received into the first of the batches
  that were handed on, which were read without a failure and applied completely with success. -/
  checkpoint : ∃ (taken completed : List RawBatch) (readings : List (List Batch)),
    taken <+: source.delivered ∧ completed <+: x.handedOn ∧
    completed.flatMap RawBatch.entries =
      (taken.flatMap RawBatch.entries).filter p.filters.acceptsEntry ∧
    completed.map (fun b => Batch.ofEntries c b.entries) = readings.map .ok ∧
    readings.flatten <+: x.succeeded ∧
    RawBatch.lastMark completed = RawBatch.lastMark taken ∧
    x.mark = (RawBatch.lastMark taken).getD m
  /-- The checkpoint is never moved back. -/
  forward : ∀ y, p.Steps c x y → ¬ y.mark.position < x.mark.position
  /-- If all stages end well, the source came to its end, everything it delivered was handed on,
  everything that was handed on was applied, once and in order, and the checkpoint is at the last
  entry. -/
  whole : x.EndedWell → source.EndsWell ∧
    x.handedOn.flatMap RawBatch.entries =
      (source.delivered.flatMap RawBatch.entries).filter p.filters.acceptsEntry ∧
    (∃ readings : List (List Batch),
      x.handedOn.map (fun b => Batch.ofEntries c b.entries) = readings.map .ok ∧
      x.succeeded = readings.flatten) ∧
    x.mark = (RawBatch.lastMark source.delivered).getD m

/-- The invariants hold at every moment. -/
theorem Steps.invariants (h : p.Steps c (.start source s) x) :
    Ended source x ∧ (∃ accepted held, Collected p source accepted held x) ∧
      ∃ completed readings part, Worked c s.checkpoint.current completed readings part x := by
  induction h with
  | refl =>
    exact ⟨ended_start source s, ⟨[], [], collected_start p source s⟩,
      ⟨[], [], [], worked_start c source s⟩⟩
  | tail _ hstep ih =>
    obtain ⟨hended, ⟨accepted, held, hcollected⟩, ⟨completed, readings, part, hworked⟩⟩ := ih
    exact ⟨hended.step hstep, hcollected.step hended hstep, hworked.step hended hstep⟩

/-- If all stages ended well, everything that the source delivered was handed on. -/
theorem Collected.of_endedWell (h : Collected p source accepted held x) (hended : Ended source x)
    (hwell : x.EndedWell) : source.EndsWell ∧ accepted = source.delivered := by
  have haccumulate : ¬ Failed x.accumulateEnd := by
    rintro ⟨e, he⟩
    rw [hwell.accumulate] at he
    cases he
  have hexecute : ¬ Failed x.executeEnd := by
    rintro ⟨e, he⟩
    rw [hwell.execute] at he
    cases he
  have hsource : x.source.delivered = [] ∧ x.source.EndsWell :=
    (hended.fetching hwell.source).resolve_right fun hfailed => hfailed.elim haccumulate hexecute
  have hwhole := (h.whole hwell.accumulate).resolve_right hexecute
  rw [hsource.1, List.append_nil] at hwhole
  exact ⟨hended.endsWell hsource.2, hwhole.symm⟩

/-- At every moment of all steps of the stages nothing was lost, doubled or put out of order, and
the checkpoint lies behind nothing that was not applied. Every run takes such steps. The last mark
of batches as they are fetched is the mark of their last entry. -/
theorem stages_exact (p : Pipeline) (c : Context) (source : Source) (s : Applied) :
    (∀ x, p.Steps c (.start source s) x → p.Exact c source s.checkpoint.current x) ∧
    (∀ d, ∃ x, p.Steps c (.start source { s with executed := [] }) x ∧
      x.applied = (p.run c d source s).2 ∧
      ((p.run c d source s).1 = .ok () ↔ x.EndedWell)) ∧
    ((∀ b ∈ source.delivered, b = .ofEntries b.entries b.ready) →
      ∀ taken, taken <+: source.delivered →
        RawBatch.lastMark taken = (taken.flatMap RawBatch.entries).getLast?.map Entry.mark) := by
  refine ⟨fun x hx => ?_, fun d => steps_run p c d source s, fun hsource taken htaken => ?_⟩
  · obtain ⟨hended, ⟨accepted, held, hcollected⟩, ⟨completed, readings, part, hworked⟩⟩ :=
      hx.invariants
    -- What the executor has completed is the join of the batches of a first part of the source.
    obtain ⟨taken, htaken, hcarries⟩ := hcollected.aligned completed hworked.first
    constructor
    · exact ⟨accepted, hcollected.first, hcollected.handedOn.entries⟩
    · refine ⟨taken, completed, readings, htaken.trans hcollected.first, hworked.first,
        hcarries.entries, hworked.read, ?_, hcarries.mark, ?_⟩
      · rw [hworked.succeeded]
        exact List.prefix_append _ _
      · rw [hworked.mark, hcarries.mark]
    · exact fun y hy => hy.not_lt
    · -- At a good end nothing is held back and the executor has completed all it was handed.
      intro hwell
      obtain ⟨hends, rfl⟩ := hcollected.of_endedWell hended hwell
      obtain ⟨hall, hidle⟩ := hworked.whole hwell.execute
      have hmark := hworked.mark
      rw [← hall, hcollected.handedOn.mark] at hmark
      refine ⟨hends, hcollected.handedOn.entries, ⟨readings, ?_, ?_⟩, hmark⟩
      · rw [hall]
        exact hworked.read
      · rw [hworked.succeeded, hworked.idle hidle, List.append_nil]
  · exact RawBatch.lastMark_ofEntries fun b hb => hsource b (htaken.subset hb)

/-- Two entries, the last of which is not replicated. -/
def filteredSource : Source :=
  [.batch (.ofEntries [⟨⟨1, 1⟩, 11, ⟨"shop", "items"⟩, .insert (.obj [("_id", .int 1)])⟩] true) false,
    .batch (.ofEntries [⟨⟨1, 2⟩, 22, ⟨"logs", "events"⟩, .insert (.obj [("_id", .int 1)])⟩] false)
      true]

theorem stages_exact_filtered :
    let p : Pipeline := { filters := ({} : Filters).excludeDatabase "logs" }
    let s : Applied := { work := { store := .empty }, checkpoint := ⟨.initial, 1⟩ }
    (p.run .steady {} filteredSource s).1 = .ok () ∧
      (p.run .steady {} filteredSource s).2.checkpoint.current = ⟨22, ⟨1, 2⟩⟩ := by
  intro p s
  obtain ⟨-, hrun, -⟩ := stages_exact p .steady filteredSource s
  obtain ⟨hexact, -, -⟩ := stages_exact p .steady filteredSource { s with executed := [] }
  obtain ⟨x, hsteps, happlied, hok⟩ := hrun {}
  have hrun : (p.run .steady {} filteredSource s).1 = .ok () := by
    decide +kernel
  obtain ⟨-, -, -, hmark⟩ := (hexact x hsteps).whole (hok.1 hrun)
  rw [← happlied]
  exact ⟨hrun, hmark⟩

end Pipeline

end Replica
