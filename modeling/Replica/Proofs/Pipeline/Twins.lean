import Replica.Proofs.Checkpoint.Agreement
import Replica.Proofs.Execution.Twins

/-!
# The pipeline on two stores of one history

A move of the checkpoint that is refused is done again (`Store.Twin.force`), and so is a transaction
of the executor. So a run of the pipeline on two stores that match has the same outcome on both and
leaves them matching, wherever a commit of the second one is refused once, unless it fails on the
first one with an error that ends an initial sync (`Applied.Twin.run`).
-/

namespace Replica

variable {k : Option Nat} {made : Nat} {c : Context}

/-! ## The checkpoint -/

/-- A store without faults saves the mark or fails for good. -/
theorem Checkpoint.store_of_healthy {s : Store} (hs : s.Healthy) (m : Mark) (retries : Nat) :
    store m retries s = store.persisted (row.save (content m) s) := by
  have hrefused := (Refusals.next_of_refused hs.refused).1
  cases retries with
  | zero => rfl
  | succ retries =>
    rw [store]
    split
    · rename_i reason s₁ hsave
      exact absurd rfl (ReplicationError.ne_rollback_of_isOfWrite
        (Store.isOfWrite_of_commit hrefused (congrArg Prod.fst hsave)) reason)
    · rfl

namespace Store.Twin

variable {copied : Prop} {s s' : Store} {m : Mark} {retries : Nat}

/-- A mark is stored alike in twins if there is a retry. -/
theorem storeMark (h : s.Twin k made copied s') (m : Mark) (hretries : 0 < retries) :
    (∃ e, (Checkpoint.store m retries s).1 = .error e ∧ e.isRetryable = false) ∨
      ∃ s₁ s₁', Checkpoint.store m retries s = (.ok (), s₁) ∧
        Checkpoint.store m retries s' = (.ok (), s₁') ∧ s₁.Twin k made copied s₁' := by
  obtain ⟨retries, rfl⟩ : ∃ n, retries = n + 1 := ⟨retries - 1, by omega⟩
  have hstore := Checkpoint.store_of_healthy h.healthy m (retries + 1)
  rcases hsave : Checkpoint.row.save (Checkpoint.content m) s with ⟨e | ⟨⟩, s₁⟩
  · rw [hsave] at hstore
    exact .inl ⟨.ofPersisting e, congrArg Prod.fst hstore, rfl⟩
  · rw [hsave] at hstore
    have hstored : Checkpoint.store m (retries + 1) s = (.ok (), s₁) := hstore
    by_cases hhit : k = some s.commits
    · -- The commit is refused, and storing is tried again.
      subst hhit
      obtain ⟨hfirst, htwin⟩ := h.refused (Checkpoint.row.writes_ne_nil (Checkpoint.content m) s')
      obtain ⟨s₁', hagain, hlast⟩ := htwin.save (by simp [stateRows]) (Checkpoint.nodup_content m)
        hsave nofun
      have hstored' : Checkpoint.store m (retries + 1) s' = (.ok (), s₁') := by
        rw [Checkpoint.store, StateRow.save, ← StateRow.writes, hfirst]
        dsimp only
        cases retries <;> rw [Checkpoint.store, hagain] <;> rfl
      have hcounted := commits_commit (Checkpoint.row.writes_ne_nil _ s) hsave
      exact .inr ⟨s₁, s₁', hstored, hstored', hlast.past (by omega)⟩
    · obtain ⟨s₁', hsave', hlast⟩ := h.save (by simp [stateRows]) (Checkpoint.nodup_content m)
        hsave hhit
      have hstored' : Checkpoint.store m (retries + 1) s' = (.ok (), s₁') := by
        rw [Checkpoint.store, hsave']
        rfl
      exact .inr ⟨s₁, s₁', hstored, hstored', hlast⟩

/-- A checkpoint that is stored with two attempts at least moves alike in twins. -/
theorem force (h : s.Twin k made copied s') {c c' : Checkpoint} (hattempts : 2 ≤ c.attempts)
    (hsame : c'.attempts = c.attempts) (m : Mark) :
    (∃ e, (c.force m s).1 = .error e ∧ e.isRetryable = false) ∨
      ∃ s₁ s₁', c.force m s = (.ok (), { c with current := m }, s₁) ∧
        c'.force m s' = (.ok (), { c' with current := m }, s₁') ∧ s₁.Twin k made copied s₁' := by
  unfold Checkpoint.force
  rw [hsame]
  have hretries : 0 < c.attempts - 1 := by omega
  obtain ⟨e, hfailed, he⟩ | ⟨s₁, s₁', hstored, hstored', hlast⟩ := h.storeMark m hretries
  · refine .inl ⟨e, ?_, he⟩
    rcases hstore : Checkpoint.store m (c.attempts - 1) s with ⟨r, s₁⟩
    rw [hstore] at hfailed
    obtain rfl : r = .error e := hfailed
    rfl
  · rw [hstored, hstored']
    exact .inr ⟨s₁, s₁', rfl, rfl, hlast⟩

end Store.Twin

/-! ## Runs -/

namespace Pipeline

variable (p : Pipeline) (c : Context) (d : Disturbance) (s : Applied)

theorem applyBatches_cons (b : Batch) (bs : List Batch) :
    p.applyBatches c d (b :: bs) s =
      andThen (p.applyBatch c d b s) fun _ => p.applyBatches c d bs := by
  rw [applyBatches]
  rcases p.applyBatch c d b s with ⟨e | ⟨⟩, s₁⟩ <;> rfl

theorem executeAll_cons (b : RawBatch) (bs : List RawBatch) :
    p.executeAll c d (b :: bs) s = andThen (p.execute c d b s) fun _ => p.executeAll c d bs := by
  rw [executeAll]
  rcases p.execute c d b s with ⟨e | ⟨⟩, s₁⟩ <;> rfl

/-- A batch that can be interpreted is applied and completed. -/
theorem execute_of_ofEntries {b : RawBatch} {batches : List Batch}
    (hfired : s.work.cancel.fired = false) (h : Batch.ofEntries c b.entries = .ok batches) :
    p.execute c d b s = andThen (p.applyBatches c d batches s) fun _ => complete b := by
  rw [execute, hfired, if_neg Bool.false_ne_true, h]
  dsimp only
  rcases p.applyBatches c d batches s with ⟨e | ⟨⟩, s₁⟩ <;> rfl

/-- How a run ends when all that was handed on was executed. -/
def conclude (ending : Accumulation.Ending) (s : Applied) :
    Except ReplicationError Unit × Applied :=
  if s.work.cancel.fired then (.error .cancelled, s)
  else
    match ending with
    | .finished => (.ok (), s)
    | .failed e => (.error e, s)

/-- A run that nothing disturbs executes what is handed on and concludes. -/
theorem run_eq (source : Source) :
    p.run c {} source s =
      andThen (p.executeAll c {} (Accumulation.flushes p.limits p.filters none source).1
        { s with executed := [] })
        fun _ => conclude (Accumulation.flushes p.limits p.filters none source).2 := by
  have hnever : decide (({} : Disturbance).cancelAfter = some 0) = false := rfl
  have hstart : ∀ fired, fired = s.work.cancel.fired →
      { s with work := { s.work with cancel := { s.work.cancel with fired := fired } },
               executed := [] } = { s with executed := [] } := by
    rintro _ rfl
    rfl
  rw [run]
  dsimp only
  rw [hstart _ (by rw [hnever, Bool.or_false])]
  rcases p.executeAll c {} _ { s with executed := [] } with ⟨e | ⟨⟩, s₁⟩ <;> rfl

end Pipeline

namespace Applied

variable {p : Pipeline} {s s' : Applied} {b : RawBatch}

/-- Two runs work at twins and have the same checkpoint, which is stored with two attempts at
least. -/
structure Twin (k : Option Nat) (made : Nat) (s s' : Applied) : Prop where
  /-- The workplaces are twins. -/
  work : s.work.Twin k made s'.work
  /-- The checkpoints are the same. -/
  checkpoint : s'.checkpoint = s.checkpoint
  /-- Storing the checkpoint is tried again. -/
  attempts : 2 ≤ s.checkpoint.attempts

namespace Twin

theorem applyBatch {batch : Batch} (h : s.Twin k made s') (hb : batch.OfUsers) :
    Mirrors (Twin k made) (p.applyBatch c {} batch s) (p.applyBatch c {} batch s') := by
  unfold Pipeline.applyBatch
  rw [h.work.cancel]
  split_ifs with hfired hlost
  · exact .inr ⟨rfl, h⟩
  · exact hlost.elim
  · obtain ⟨e, he, hretryable⟩ | ⟨hresult, hlast⟩ :=
      h.work.applyBatch (x := p.executor) (c := c) hb
    · exact .of_error he hretryable
    · exact .inr ⟨hresult, ⟨hlast, h.checkpoint, h.attempts⟩⟩

theorem applyBatches {batches : List Batch} (h : s.Twin k made s')
    (hbs : ∀ b ∈ batches, b.OfUsers) :
    Mirrors (Twin k made) (p.applyBatches c {} batches s) (p.applyBatches c {} batches s') := by
  induction batches generalizing s s' with
  | nil => exact .inr ⟨rfl, h⟩
  | cons batch batches ih =>
    obtain ⟨hb, hbs⟩ := List.forall_mem_cons.1 hbs
    rw [Pipeline.applyBatches_cons, Pipeline.applyBatches_cons]
    exact (h.applyBatch hb).andThen fun _ _ _ hnext => ih hnext hbs

theorem complete (h : s.Twin k made s') :
    Mirrors (Twin k made) (Pipeline.complete b s) (Pipeline.complete b s') := by
  unfold Pipeline.complete
  cases b.tail with
  | none => exact .inr ⟨rfl, h.work, h.checkpoint, h.attempts⟩
  | some tail =>
    dsimp only
    unfold Checkpoint.advance
    rw [h.checkpoint]
    split_ifs
    · exact .of_error rfl rfl
    · obtain ⟨e, he, hretryable⟩ | ⟨s₁, s₁', hforce, hforce', hlast⟩ :=
        h.work.store.force h.attempts rfl tail
      · refine .of_error (e := e) ?_ hretryable
        rcases hforce : s.checkpoint.force tail s.work.store with ⟨r, checkpoint, store⟩
        rw [hforce] at he
        obtain rfl : r = .error e := he
        rfl
      · rw [hforce, hforce']
        exact .inr ⟨rfl, { h.work with store := hlast }, rfl, h.attempts⟩

theorem execute (h : s.Twin k made s') (hb : ∀ e ∈ b.entries, p.filters.acceptsEntry e = true) :
    Mirrors (Twin k made) (p.execute c {} b s) (p.execute c {} b s') := by
  have hfired : s'.work.cancel.fired = s.work.cancel.fired := congrArg _ h.work.cancel
  cases hcancel : s.work.cancel.fired with
  | true =>
    unfold Pipeline.execute
    rw [hfired, hcancel]
    exact .inr ⟨rfl, h⟩
  | false =>
    cases hread : Batch.ofEntries c b.entries with
    | error e =>
      unfold Pipeline.execute
      rw [hfired, hcancel, hread]
      exact .inr ⟨rfl, h⟩
    | ok batches =>
      rw [p.execute_of_ofEntries c {} s hcancel hread,
        p.execute_of_ofEntries c {} s' (hfired.trans hcancel) hread]
      exact (h.applyBatches (Batch.ofUsers_of_ofEntries hb hread)).andThen
        fun _ _ _ hnext => hnext.complete

theorem executeAll {handedOn : List RawBatch} (h : s.Twin k made s')
    (hpassed : ∀ b ∈ handedOn, ∀ e ∈ b.entries, p.filters.acceptsEntry e = true) :
    Mirrors (Twin k made) (p.executeAll c {} handedOn s) (p.executeAll c {} handedOn s') := by
  induction handedOn generalizing s s' with
  | nil => exact .inr ⟨rfl, h⟩
  | cons b handedOn ih =>
    obtain ⟨hb, hpassed⟩ := List.forall_mem_cons.1 hpassed
    rw [Pipeline.executeAll_cons, Pipeline.executeAll_cons]
    exact (h.execute hb).andThen fun _ _ _ hnext => ih hnext hpassed

/-- A run has the same outcome on twins, unless it fails with an error that ends an initial sync. -/
theorem run (h : s.Twin k made s') (source : Source) :
    Mirrors (Twin k made) (p.run c {} source s) (p.run c {} source s') := by
  have hpassed := Pipeline.forall_mem_flushes (R := fun e => p.filters.acceptsEntry e = true)
    p.limits p.filters source none (fun _ h => nomatch h) fun _ _ _ _ haccepts => haccepts
  rw [Pipeline.run_eq, Pipeline.run_eq]
  have hstart : Twin k made { s with executed := [] } { s' with executed := [] } :=
    ⟨h.work, h.checkpoint, h.attempts⟩
  refine (hstart.executeAll hpassed).andThen fun _ s s' hlast => ?_
  unfold Pipeline.conclude
  rw [hlast.work.cancel]
  split_ifs
  · exact .inr ⟨rfl, hlast⟩
  · split <;> exact .inr ⟨rfl, hlast⟩

end Twin

end Applied

end Replica
