import Replica.Proofs.Execution.Interleaving

/-!
# The schedules of executors

A concurrent executor hands over its sub-batches one after another, and each of them is done again
where the store asks for it. That is one of the schedules of the sub-batches: three steps to every
commit (`run_attempt`), and three more after a refusal. So an executor that succeeds has run its
sub-batches along some schedule (`exists_run_of_runConcurrently`), and what holds of all schedules
holds of every executor: jobs that succeed lead from the store that is found to the one that is left
(`Executor.lead_of_apply`).
-/

namespace Replica.Race

variable {st : Strictness} {r : Race} {jobs : List Job}

/-- A sub-batch whose job can be planned takes three steps to its commit. -/
theorem run_attempt {i n : Nat} {job : Job} {t : Transaction}
    (hi : r.parts[i]? = some ⟨job, .ready, n⟩) (hplan : job.plan st r.store = .ok t) :
    r.run st [i, i, i] = ⟨(r.store.commit t).2, r.parts.set i
      (match (r.store.commit t).1, n with
      | .error (.rollback _), n + 1 => ⟨job, .ready, n⟩
      | result, n => ⟨job, .ended result, n⟩)⟩ := by
  obtain ⟨hlt, -⟩ := List.getElem?_eq_some_iff.1 hi
  unfold Job.plan at hplan
  dsimp only at hplan
  split_ifs at hplan with hmissing
  have hwrites := hplan
  have hstep : ∀ (s : Store) (l : List SubBatch) (b : SubBatch), i < l.length →
      advance st ⟨s, l.set i b⟩ i = ⟨(b.step st s).2, l.set i (b.step st s).1⟩ := by
    intro s l b hl
    simp only [advance, List.getElem?_set_self hl, List.set_set]
  have hfirst : r.advance st i =
      ⟨r.store, r.parts.set i ⟨job, .found (job.targets r.store), n⟩⟩ := by
    simp only [advance, hi, SubBatch.step, if_neg hmissing]
  simp only [run, List.foldl_cons, List.foldl_nil, hfirst, hstep _ _ _ hlt, SubBatch.step, hwrites]
  rcases r.store.commit t with ⟨e | ⟨⟩, s⟩
  · cases e <;> cases n <;> rfl
  · cases n <;> rfl

theorem run_append (schedule later : List Nat) :
    r.run st (schedule ++ later) = (r.run st schedule).run st later := List.foldl_append

/-- A transaction that succeeds at once is an attempt of its sub-batch. -/
theorem exists_run_of_transact {i n : Nat} {job : Job} {w w' : Workplace}
    (hi : r.parts[i]? = some ⟨job, .ready, n⟩) (hw : w.store = r.store)
    (h : w.transact (job.plan st) = (.ok (), w')) :
    ∃ schedule b, r.run st schedule = ⟨w'.store, r.parts.set i b⟩ ∧ b.committed = true := by
  obtain ⟨t, hplan, hcommit⟩ := Workplace.transact_eq_ok h
  rw [hw] at hplan hcommit
  refine ⟨[i, i, i], ⟨job, .ended (.ok ()), n⟩, ?_, rfl⟩
  rw [run_attempt hi hplan, hcommit]

/-- It is the commit of what was planned that asks for another attempt, never the planning. -/
theorem commit_of_transact_rollback {job : Job} {w w' : Workplace} {reason : String}
    (h : w.transact (job.plan st) = (.error (.rollback reason), w')) :
    ∃ t, job.plan st w.store = .ok t ∧
      w.store.commit t = (.error (.rollback reason), w'.store) := by
  unfold Workplace.transact at h
  dsimp only at h
  split at h
  · rename_i hplan
    obtain ⟨⟨rfl⟩, -⟩ := Prod.mk.inj h
    unfold Job.plan Job.writes at hplan
    dsimp only at hplan
    split_ifs at hplan
    · cases hplan
    · split at hplan <;> cases hplan
  · rename_i t hplan
    obtain ⟨hresult, rfl⟩ := Prod.mk.inj h
    exact ⟨t, hplan, Prod.ext hresult rfl⟩

/-- A transaction that succeeds, after a refusal or at once, is a run of its sub-batch. -/
theorem exists_run_of_transactRetrying {i n : Nat} {job : Job} {w w' : Workplace}
    (hi : r.parts[i]? = some ⟨job, .ready, n⟩) (hw : w.store = r.store)
    (h : Workplace.transactRetrying (job.plan st) n w = (.ok (), w')) :
    ∃ schedule b, r.run st schedule = ⟨w'.store, r.parts.set i b⟩ ∧ b.committed = true := by
  -- Every retry begins where the refused attempt before it has left the race.
  induction n generalizing r w with
  | zero => exact exists_run_of_transact hi hw h
  | succ n ih =>
    rw [Workplace.transactRetrying] at h
    split at h
    · rename_i reason mid hfirst
      obtain ⟨t, hplan, hcommit⟩ := commit_of_transact_rollback hfirst
      rw [hw] at hplan hcommit
      have hattempt := run_attempt hi hplan
      rw [hcommit] at hattempt
      obtain ⟨hlt, -⟩ := List.getElem?_eq_some_iff.1 hi
      obtain ⟨schedule, b, hrun, hb⟩ := ih (r := ⟨mid.store, r.parts.set i ⟨job, .ready, n⟩⟩)
        (w := { mid with metrics := mid.metrics.recordRollback }) (List.getElem?_set_self hlt) rfl h
      refine ⟨[i, i, i] ++ schedule, b, ?_, hb⟩
      rw [run_append, hattempt, hrun, List.set_set]
    · exact exists_run_of_transact hi hw h

/-- A failure is never forgotten. -/
theorem runSubBatches_ne_none {e : ReplicationError} {w : Workplace} :
    (Executor.runSubBatches st jobs (some e) w).1 ≠ none := by
  induction jobs generalizing e w with
  | nil => exact fun h => nomatch h
  | cons job jobs ih =>
    rw [Executor.runSubBatches]
    split_ifs
    · exact fun h => nomatch h
    · dsimp only
      split
      · exact ih
      · exact ih

/-- Sub-batches that succeed in the order in which they are handed over are such a run. -/
theorem exists_run_of_runSubBatches (before : List SubBatch) {w w' : Workplace}
    (hbefore : before.all SubBatch.committed = true) (hw : w.store = r.store)
    (hparts : r.parts = before ++ jobs.map fun job => ({ job } : SubBatch))
    (h : Executor.runSubBatches st jobs none w = (none, false, w')) :
    ∃ schedule, (r.run st schedule).store = w'.store ∧ (r.run st schedule).committed = true := by
  induction jobs generalizing before r w with
  | nil =>
    obtain ⟨-, -, rfl⟩ := h
    refine ⟨[], hw.symm, ?_⟩
    rw [List.map_nil, List.append_nil] at hparts
    show r.parts.all SubBatch.committed = true
    rw [hparts]
    exact hbefore
  | cons job jobs ih =>
    rw [Executor.runSubBatches] at h
    split_ifs at h
    · cases congrArg (·.2.1) h
    rcases happly : job.apply st w with ⟨e | ⟨⟩, mid⟩
    · rw [happly] at h
      exact absurd (congrArg Prod.fst h) runSubBatches_ne_none
    · rw [happly] at h
      obtain ⟨after, hafter, hstore⟩ := Workplace.exists_transactRetrying_of_perform happly
      -- The sub-batches before this one have committed, and those behind it are still ready.
      have hi : r.parts[before.length]? = some ⟨job, .ready, Workplace.retries⟩ := by
        rw [hparts, List.getElem?_append_right le_rfl, Nat.sub_self]
        rfl
      obtain ⟨schedule, b, hrun, hb⟩ := exists_run_of_transactRetrying hi hw hafter
      obtain ⟨later, hlater⟩ := ih (before ++ [b])
        (r := ⟨after.store, r.parts.set before.length b⟩)
        (w := { mid with metrics := (mid.metrics.recordSubBatch Executor.unmeasured).finish 1 })
        (by rw [List.all_append, hbefore, List.all_cons, hb]; rfl) hstore.symm
        (by
          rw [hparts, List.set_append_right _ _ le_rfl, Nat.sub_self, List.append_assoc]
          rfl) h
      refine ⟨schedule ++ later, ?_⟩
      rw [run_append, hrun]
      exact hlater

/-- A concurrent executor that succeeds has run its sub-batches along some schedule. -/
theorem exists_run_of_runConcurrently {sizing : Sizing} {w w' : Workplace}
    (h : Executor.runConcurrently sizing st jobs w = (.ok (), w')) :
    ∃ schedule, let r := (start (jobs.flatMap fun job => job.split (sizing.size w.metrics))
        w.store).run st schedule
      r.store = w'.store ∧ r.committed = true := by
  unfold Executor.runConcurrently at h
  dsimp only at h
  generalize hparts : (jobs.flatMap fun job => job.split (sizing.size w.metrics)) = parts at h ⊢
  rcases hrun : Executor.runSubBatches st parts none
    { w with metrics := w.metrics.submit parts.length } with ⟨failure, interrupted, after⟩
  rw [hrun] at h
  obtain ⟨rfl, rfl⟩ : failure = none ∧ interrupted = false := by
    cases failure with
    | some e => cases congrArg Prod.fst h
    | none =>
      cases interrupted with
      | true => cases congrArg Prod.fst h
      | false => exact ⟨rfl, rfl⟩
  have hstore : w'.store = after.store := by
    obtain ⟨-, rfl⟩ := Prod.mk.inj h
    dsimp only
    split_ifs <;> rfl
  rw [hstore]
  exact exists_run_of_runSubBatches [] (r := start parts w.store)
    (w := { w with metrics := w.metrics.submit parts.length }) rfl rfl rfl hrun

end Replica.Race

namespace Replica.Executor

variable {x : Executor} {c : Context} {w w' : Workplace} {e : Entry} {g : Gathering}

/-! ## Every executor -/

/-- Jobs that an executor runs with success lead from the store that it finds to the one that it
leaves. -/
theorem lead_of_apply {jobs : List Job} (hjobs : Gathering.WellFormed jobs)
    (hs : w.store.WellFormed) (h : x.apply c (.jobs jobs) w = (.ok (), w')) :
    w'.store.WellFormed ∧ Job.Lead c.strictness jobs w.store w'.store := by
  rw [apply, runJobs] at h
  split at h
  · exact Job.lead_of_applyAll hjobs hs h
  · rename_i workers sizing _
    obtain ⟨schedule, hstore, hcommitted⟩ := Race.exists_run_of_runConcurrently h
    obtain ⟨hparts, hapart⟩ := Job.pairwise_subBatches hjobs (sizing.size w.metrics)
    have hsound := (Race.Sound.start c.strictness hs _).run hparts hapart schedule
    rw [← hstore]
    exact ⟨hsound.wellFormed, hsound.lead hjobs hcommitted⟩
  · cases congrArg Prod.fst h

/-- What was gathered and runs has led from the store that was found to the one that is left. -/
theorem lead_of_runs_close (hg : g.WellFormed) (hs : w.store.WellFormed)
    (h : x.Runs c g.close w w') :
    w'.store.WellFormed ∧ Job.Lead c.strictness g.closeJobs w.store w'.store := by
  rw [Gathering.close_eq] at h
  split_ifs at h with hempty
  · rw [List.isEmpty_iff] at hempty
    rw [hempty, ← runs_nil.1 h]
    exact ⟨hs, fun _ _ => rfl⟩
  · obtain ⟨m, happly, hm⟩ := runs_cons.1 h
    rw [← runs_nil.1 hm]
    exact lead_of_apply hg.closeJobs hs happly

/-- A single entry that succeeds has the effect of its operation, if it has one. -/
theorem leads_of_applyEntries_singleton (he : e.isCommand = false) (hs : w.store.WellFormed)
    (h : x.applyEntries c [e] w = (.ok (), w')) :
    w'.store.WellFormed ∧ ∃ op?, NetOp.ofEntry? c e = .ok op? ∧ ∀ ns key, NetOp.Leads c.strictness
      (op?.filter fun op => ns = e.ns ∧ key = op.key) (w.store.document? ns key)
      (w'.store.document? ns key) := by
  obtain ⟨bs, hgather, hrun⟩ := applyEntries_eq_ok.1 h
  cases Batch.gathers_of_gather he hgather with
  | none read rest =>
    obtain rfl := Except.ok.inj rest
    rw [← runs_nil.1 hrun]
    exact ⟨hs, none, read, fun _ _ => rfl⟩
  | closed _ full => cases full
  | @added g' op _ read add rest =>
    obtain rfl : [⟨e.ns, [op]⟩] = g' := Option.some.inj add
    obtain rfl := Except.ok.inj rest
    have hfresh := NetOp.fresh_of_ofEntry? read
    have hg : Gathering.WellFormed [⟨e.ns, [op]⟩] :=
      Gathering.wellFormed_nil.add rfl hfresh.wellFormed
    obtain ⟨hs', hlead⟩ := lead_of_runs_close hg hs hrun
    refine ⟨hs', some op, read, fun ns key => ?_⟩
    have hleads := hlead ns key
    rw [Gathering.op?_closeJobs hg, Gathering.op?_cons, NetOp.on?_cons] at hleads
    by_cases hcase : ns = e.ns ∧ key = op.key
    · rw [Option.filter_some, if_pos (decide_eq_true hcase)]
      rwa [if_pos hcase.1.symm, if_pos hcase.2.symm, Option.filter_some,
        if_pos (decide_eq_true hfresh.ne_noop)] at hleads
    · rw [Option.filter_some, if_neg (by simpa using hcase)]
      split_ifs at hleads with hns hkey
      · exact absurd ⟨hns.symm, hkey.symm⟩ hcase
      · exact hleads
      · exact hleads

end Replica.Executor
