import Replica.Proofs.Pipeline.Stages

/-!
# Runs as steps of the stages

`Pipeline.run` does all of one stage before the next. That is one of the orders in which the stages
can take their steps: first everything is fetched and accumulated (`steps_flushes`), then everything
that was handed on is executed (`steps_executeAll`). So what holds of all steps holds of every run
(`steps_run`).
-/

namespace Replica

namespace Pipeline

open Accumulation (flush join isDue flushes Ending)

variable {p : Pipeline} {c : Context} {d : Disturbance} {x y z : Stages} {s s' : Applied}
  {b : RawBatch} {late : Bool} {source rest : Source} {early batches : List RawBatch}
  {ending : Ending}

theorem Steps.trans (h : p.Steps c x y) (h' : p.Steps c y z) : p.Steps c x z :=
  Relation.ReflTransGen.trans h h'

theorem Step.steps (h : p.Step c x y) : p.Steps c x y := Relation.ReflTransGen.single h

/-! ## Fetching and accumulating -/

/-- The stages before executing wait for the next answer of a source. -/
structure Feeding (source : Source) (x : Stages) : Prop where
  /-- These are the answers to come. -/
  source : x.source = source
  /-- Everything that was fetched was received. -/
  fetched : x.fetched = []
  /-- Fetching goes on. -/
  sourceEnd : x.sourceEnd = none
  /-- Accumulating goes on. -/
  accumulateEnd : x.accumulateEnd = none
  /-- Executing has not ended. -/
  executeEnd : x.executeEnd = none

/-- Batches were handed on, and nothing else happened to what is executed. -/
structure HandsOn (x : Stages) (batches : List RawBatch) (y : Stages) : Prop where
  /-- The batches wait behind those that waited. -/
  waiting : y.waiting = x.waiting ++ batches
  /-- Nothing was applied. -/
  applied : y.applied = x.applied
  /-- What is executed has not changed. -/
  current : y.current = x.current

theorem HandsOn.trans (h : HandsOn x early y) (h' : HandsOn y batches z) :
    HandsOn x (early ++ batches) z where
  waiting := by rw [h'.waiting, h.waiting, List.append_assoc]
  applied := h'.applied.trans h.applied
  current := h'.current.trans h.current

/-- Fetching and accumulating have come to an end. -/
structure Fed (ending : Ending) (y : Stages) : Prop where
  /-- Executing has not ended. -/
  executeEnd : y.executeEnd = none
  /-- No more will be handed on. -/
  gone : y.accumulateEnd.isSome = true
  /-- Both ended without a failure if this is the ending. -/
  well : ending = .finished ↔ y.sourceEnd = some (.ok ()) ∧ y.accumulateEnd = some (.ok ())

/-- At its end the source leaves what is held back to be handed on. -/
theorem steps_finish (h : Feeding source x)
    (hnext : source = [] ∨ ∃ rest, source = .finish :: rest) :
    ∃ y, p.Steps c x y ∧ HandsOn x (flush x.pending) y ∧ Fed .finished y := by
  rw [← h.source] at hnext
  have hsource := Step.sourceEnds (p := p) (c := c) h.sourceEnd hnext
  have hinput := Step.inputEnds (p := p) (c := c) (x := { x with sourceEnd := some (.ok ()) })
    h.accumulateEnd h.fetched rfl fun _ => h.executeEnd
  refine ⟨_, hsource.steps.trans hinput.steps, ?_, ?_⟩
  · exact ⟨rfl, rfl, rfl⟩
  · exact ⟨h.executeEnd, rfl, iff_of_true rfl ⟨rfl, rfl⟩⟩

/-- At a failure of the source what is held back is given up. -/
theorem steps_failure (h : Feeding source x) (e : ReplicationError) :
    ∃ y, p.Steps c x y ∧ HandsOn x [] y ∧ Fed (.failed e) y := by
  have hsource := Step.sourceFails (p := p) (c := c) h.sourceEnd e
  have hinput := Step.accumulateFails (p := p) (c := c)
    (x := { x with sourceEnd := some (.error e) }) h.accumulateEnd e
  refine ⟨_, hsource.steps.trans hinput.steps, ?_, ?_⟩
  · exact ⟨(List.append_nil _).symm, rfl, rfl⟩
  · exact ⟨h.executeEnd, rfl, iff_of_false (fun h => nomatch h) fun h => nomatch h.1⟩

/-- A batch is fetched. If it is late, what is held back is handed on before it is received. -/
theorem steps_fetch (h : Feeding (.batch b late :: rest) x) :
    ∃ y, p.Steps c x y ∧ HandsOn x (if late then flush x.pending else []) y ∧
      y.pending = (if late then none else x.pending) ∧ y.fetched = [b] ∧
      Feeding rest { y with fetched := [] } := by
  have hfetch := Step.fetch (p := p) (c := c) h.sourceEnd h.source
  have hqueue : x.fetched ++ [b] = [b] := by rw [h.fetched, List.nil_append]
  cases late with
  | false =>
    refine ⟨_, hfetch.steps, ⟨(List.append_nil _).symm, rfl, rfl⟩, rfl, hqueue, ?_⟩
    exact ⟨rfl, rfl, h.sourceEnd, h.accumulateEnd, h.executeEnd⟩
  | true =>
    have hexpire := Step.expire (p := p) (c := c)
      (x := { x with source := rest, fetched := x.fetched ++ [b] }) h.accumulateEnd
      fun _ => h.executeEnd
    refine ⟨_, hfetch.steps.trans hexpire.steps, ⟨rfl, rfl, rfl⟩, rfl, hqueue, ?_⟩
    exact ⟨rfl, rfl, h.sourceEnd, h.accumulateEnd, h.executeEnd⟩

/-- The stages fetch and hand on what `flushes` says. -/
theorem steps_flushes (p : Pipeline) (c : Context) (source : Source) :
    ∀ x : Stages, Feeding source x → ∃ y, p.Steps c x y ∧
      HandsOn x (flushes p.limits p.filters x.pending source).1 y ∧
      Fed (flushes p.limits p.filters x.pending source).2 y := by
  induction source with
  | nil => exact fun x h => steps_finish h (.inl rfl)
  | cons f rest ih =>
    intro x h
    cases f with
    | finish => exact steps_finish h (.inr ⟨rest, rfl⟩)
    | failure e => exact steps_failure h e
    | lost => exact steps_failure h (.stageLost "source")
    | batch b late =>
      obtain ⟨y, hxy, hearly, hpending, hfetched, hy⟩ := steps_fetch (p := p) (c := c) h
      rw [flushes, ← hpending]
      dsimp only
      -- What was fetched is refused, held back, or handed on with what was held back so far.
      cases hcheck : (p.filters.apply b).check with
      | error e =>
        dsimp only
        have hfails := Step.accumulateFails (p := p) (c := c) (x := y) hy.accumulateEnd (.entry e)
        refine ⟨_, hxy.trans hfails.steps, ⟨hearly.waiting, hearly.applied, hearly.current⟩,
          hy.executeEnd, rfl, ?_⟩
        exact iff_of_false (fun h => nomatch h) fun h => nomatch h.2
      | ok u =>
        cases hdue : isDue p.limits (join y.pending (p.filters.apply b)) with
        | false =>
          rw [if_neg Bool.false_ne_true]
          have hhold := Step.hold (p := p) (c := c) (x := y) hy.accumulateEnd hfetched hcheck hdue
          obtain ⟨z, hyz, hlater, hz⟩ := ih
            { y with fetched := [], pending := some (join y.pending (p.filters.apply b)) }
            ⟨hy.source, rfl, hy.sourceEnd, hy.accumulateEnd, hy.executeEnd⟩
          refine ⟨z, (hxy.trans hhold.steps).trans hyz, ?_, hz⟩
          rw [List.append_nil]
          exact hearly.trans ⟨hlater.waiting, hlater.applied, hlater.current⟩
        | true =>
          rw [if_pos rfl]
          have hreceive := Step.receive (p := p) (c := c) (x := y) hy.accumulateEnd hfetched hcheck
            hdue fun _ => hy.executeEnd
          obtain ⟨z, hyz, hlater, hz⟩ := ih
            ({ y with fetched := [] }.handOn (some (join y.pending (p.filters.apply b))))
            ⟨hy.source, rfl, hy.sourceEnd, hy.accumulateEnd, hy.executeEnd⟩
          refine ⟨z, (hxy.trans hreceive.steps).trans hyz, ?_, hz⟩
          have hready : HandsOn y (flush (some (join y.pending (p.filters.apply b))))
              ({ y with fetched := [] }.handOn (some (join y.pending (p.filters.apply b)))) :=
            ⟨rfl, rfl, rfl⟩
          exact (hearly.trans hready).trans hlater

/-! ## Executing -/

/-- The batches of the executor that are left of a batch are applied in order. -/
theorem steps_applyBatches (p : Pipeline) (c : Context) (d : Disturbance) (batches : List Batch) :
    ∀ x : Stages, x.executeEnd = none → x.current = some (b, batches) →
      ∃ y, p.Steps c x y ∧ y.applied = (p.applyBatches c d batches x.applied).2 ∧
        y.sourceEnd = x.sourceEnd ∧ y.accumulateEnd = x.accumulateEnd ∧ y.waiting = x.waiting ∧
        match (p.applyBatches c d batches x.applied).1 with
        | .ok () => y.executeEnd = none ∧ y.current = some (b, [])
        | .error e => y.executeEnd = some (.error e) := by
  induction batches with
  | nil => exact fun x hrun hnext => ⟨x, .refl, rfl, rfl, rfl, rfl, hrun, hnext⟩
  | cons batch batches ih =>
    intro x hrun hnext
    unfold applyBatches
    rcases hanswer : p.applyBatch c d batch x.applied with ⟨e | ⟨⟨⟩⟩, s⟩
    · exact ⟨_, (Step.applyFails hrun hnext d hanswer).steps, rfl, rfl, rfl, rfl, rfl⟩
    · have happly := Step.apply hrun hnext d hanswer
      obtain ⟨y, hxy, happlied, hsource, haccumulate, hwaiting, hend⟩ :=
        ih { x with
          current := some (b, batches)
          applied := s
          succeeded := x.succeeded ++ [batch] } hrun rfl
      exact ⟨y, happly.steps.trans hxy, happlied, hsource, haccumulate, hwaiting, hend⟩

/-- A batch that was handed on is executed. -/
theorem steps_execute (p : Pipeline) (c : Context) (d : Disturbance) {waiting : List RawBatch}
    (hrun : x.executeEnd = none) (hidle : x.current = none) (hnext : x.waiting = b :: waiting) :
    ∃ y, p.Steps c x y ∧ y.applied = (p.execute c d b x.applied).2 ∧
      y.sourceEnd = x.sourceEnd ∧ y.accumulateEnd = x.accumulateEnd ∧
      match (p.execute c d b x.applied).1 with
      | .ok () => y.executeEnd = none ∧ y.current = none ∧ y.waiting = waiting
      | .error e => y.executeEnd = some (.error e) := by
  have hfails (e : ReplicationError) := (Step.executeFails (p := p) (c := c) hrun e).steps
  unfold execute
  split_ifs with hfired
  · exact ⟨_, hfails .cancelled, rfl, rfl, rfl, rfl⟩
  cases hread : Batch.ofEntries c b.entries with
  | error e => exact ⟨_, hfails (.entry e), rfl, rfl, rfl, rfl⟩
  | ok batches =>
    have hbegin := Step.begin (p := p) hrun hidle hnext hread
    obtain ⟨y, hxy, happlied, hsource, haccumulate, hwaiting, hend⟩ :=
      steps_applyBatches p c d batches
        { x with waiting := waiting, current := some (b, batches) } hrun rfl
    dsimp only at happlied hsource haccumulate hwaiting hend ⊢
    rcases hanswer : p.applyBatches c d batches x.applied with ⟨e | ⟨⟨⟩⟩, s⟩
    · rw [hanswer] at happlied hend
      exact ⟨y, hbegin.steps.trans hxy, happlied, hsource, haccumulate, hend⟩
    · rw [hanswer] at happlied hend
      obtain ⟨hrun', hnext'⟩ := hend
      dsimp only at happlied ⊢
      rw [← happlied]
      rcases hanswer' : complete b y.applied with ⟨e | ⟨⟨⟩⟩, s'⟩
      · have hcomplete := Step.completeFails (p := p) (c := c) hrun' hnext' hanswer'
        exact ⟨_, (hbegin.steps.trans hxy).trans hcomplete.steps, rfl, hsource, haccumulate, rfl⟩
      · have hcomplete := Step.complete (p := p) (c := c) hrun' hnext' hanswer'
        exact ⟨_, (hbegin.steps.trans hxy).trans hcomplete.steps, rfl, hsource, haccumulate, hrun',
          rfl, hwaiting⟩

/-- What was handed on is executed in order, and executing ends as `executeAll` says. -/
theorem steps_executeAll (p : Pipeline) (c : Context) (d : Disturbance) (batches : List RawBatch) :
    ∀ x : Stages, x.executeEnd = none → x.current = none → x.waiting = batches →
      x.accumulateEnd.isSome = true →
      ∃ y, p.Steps c x y ∧ y.applied = (p.executeAll c d batches x.applied).2 ∧
        y.sourceEnd = x.sourceEnd ∧ y.accumulateEnd = x.accumulateEnd ∧
        y.executeEnd = some (p.executeAll c d batches x.applied).1 := by
  induction batches with
  | nil =>
    intro x hrun hidle hempty hgone
    exact ⟨_, (Step.executeEnds hrun hidle hempty hgone).steps, rfl, rfl, rfl, rfl⟩
  | cons b batches ih =>
    intro x hrun hidle hnext hgone
    obtain ⟨y, hxy, happlied, hsource, haccumulate, hend⟩ := steps_execute p c d hrun hidle hnext
    unfold executeAll
    rcases hanswer : p.execute c d b x.applied with ⟨e | ⟨⟨⟩⟩, s⟩
    · rw [hanswer] at happlied hend
      exact ⟨y, hxy, happlied, hsource, haccumulate, hend⟩
    · rw [hanswer] at happlied hend
      obtain ⟨hrun', hidle', hwaiting⟩ := hend
      obtain ⟨z, hyz, happlied', hsource', haccumulate', hend'⟩ :=
        ih y hrun' hidle' hwaiting (by rw [haccumulate]; exact hgone)
      rw [happlied] at happlied' hend'
      exact ⟨z, hxy.trans hyz, happlied', hsource'.trans hsource,
        haccumulate'.trans haccumulate, hend'⟩

/-- One stage after the other does all it has to do. -/
theorem steps_stages (p : Pipeline) (c : Context) (d : Disturbance) (h : Feeding source x)
    (hpending : x.pending = none) (hwaiting : x.waiting = []) (hidle : x.current = none)
    (hflushes : flushes p.limits p.filters none source = (batches, ending)) :
    ∃ y, p.Steps c x y ∧ y.applied = (p.executeAll c d batches x.applied).2 ∧
      y.executeEnd = some (p.executeAll c d batches x.applied).1 ∧
      (ending = .finished ↔ y.sourceEnd = some (.ok ()) ∧ y.accumulateEnd = some (.ok ())) := by
  obtain ⟨y, hxy, hhands, hfed⟩ := steps_flushes p c source x h
  rw [hpending, hflushes] at hhands hfed
  have hqueue : y.waiting = batches := by rw [hhands.waiting, hwaiting, List.nil_append]
  obtain ⟨z, hyz, happlied, hsource, haccumulate, hend⟩ :=
    steps_executeAll p c d batches y hfed.executeEnd (hhands.current.trans hidle) hqueue hfed.gone
  rw [hhands.applied] at happlied hend
  refine ⟨z, hxy.trans hyz, happlied, hend, ?_⟩
  rw [hsource, haccumulate]
  exact hfed.well

/-- Every run is one of the orders of steps, and succeeds where all stages end well. -/
theorem steps_run (p : Pipeline) (c : Context) (d : Disturbance) (source : Source) (s : Applied) :
    ∃ x, p.Steps c (.start source { s with executed := [] }) x ∧
      x.applied = (p.run c d source s).2 ∧
      ((p.run c d source s).1 = .ok () ↔ x.EndedWell) := by
  let work : Workplace := { s.work with
    cancel := { s.work.cancel with fired := s.work.cancel.fired || d.cancelAfter = some 0 } }
  let x : Stages := .start source { s with work := work, executed := [] }
  -- A run that is cancelled before it begins has been cancelled from outside.
  have houtside : p.Steps c (.start source { s with executed := [] }) x := by
    refine (Step.outside (x := .start source { s with executed := [] }) work fun hfired => ?_).steps
    change (s.work.cancel.fired || _) = true
    rw [show s.work.cancel.fired = true from hfired, Bool.true_or]
  rcases hflushes : flushes p.limits p.filters none source with ⟨batches, ending⟩
  obtain ⟨y, hxy, happlied, hend, hwell⟩ :=
    steps_stages (x := x) p c d ⟨rfl, rfl, rfl, rfl, rfl⟩ rfl rfl rfl hflushes
  refine ⟨y, houtside.trans hxy, ?_⟩
  unfold run
  rw [hflushes]
  dsimp only
  split
  · rename_i e s' hanswer
    have hfailed : y.executeEnd = some (.error e) := hend.trans (congrArg _ (congrArg _ hanswer))
    refine ⟨happlied.trans (congrArg Prod.snd hanswer), iff_of_false (fun h => nomatch h) ?_⟩
    intro hgood
    rw [hgood.execute] at hfailed
    cases hfailed
  · rename_i s' hanswer
    have hdone : y.executeEnd = some (.ok ()) := hend.trans (congrArg _ (congrArg _ hanswer))
    have hstate : y.applied = s' := happlied.trans (congrArg Prod.snd hanswer)
    split_ifs with hfired
    · refine ⟨hstate, iff_of_false (fun h => nomatch h) fun hgood => ?_⟩
      rw [← hstate, hgood.cancel] at hfired
      cases hfired
    · have hcancel : y.applied.work.cancel.fired = false := by
        rw [hstate, Bool.not_eq_true _ |>.mp hfired]
      cases ending with
      | finished =>
        obtain ⟨hsource, haccumulate⟩ := hwell.1 rfl
        exact ⟨hstate, iff_of_true rfl ⟨hsource, haccumulate, hdone, hcancel⟩⟩
      | failed e =>
        refine ⟨hstate, iff_of_false (fun h => nomatch h) fun hgood => ?_⟩
        cases hwell.2 ⟨hgood.source, hgood.accumulate⟩

end Pipeline

end Replica
