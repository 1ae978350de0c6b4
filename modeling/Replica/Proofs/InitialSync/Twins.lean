import Replica.Proofs.InitialSync.Replacement
import Replica.Proofs.Pipeline.Twins

/-!
# Steps of an initial sync on two stores of one history

Two initial syncs work on stores that match, nothing happens at their calls, and one commit of the
second one may be refused (`SyncState.Twin`). The steps that make no commit have the same outcome on
both and leave them so (`InitialSync.Steady`), and so have the windows of the log, since the
executor does a transaction again that was refused (`steady_applyWindow`). A move of the checkpoint
is tried again too (`onCheckpoint_twin`). Setting the flag is not: where it is refused, it fails
with an error that ends the sync (`setConsistent_twin`).
-/

namespace Replica

variable {α β : Type} {k : Option Nat} {made : Nat} {copied : Prop}

/-! ## Steps -/

namespace SyncState

variable {a b : SyncState}

/-- Two syncs from one source, of which nothing is heard but answers, have come equally far on two
stores of one history, and what they know of the source and of the checkpoint is the same. -/
structure Twin (k : Option Nat) (made : Nat) (copied : Prop) (a b : SyncState) : Prop where
  /-- The stores match, and a commit of the second one may be refused. -/
  store : a.store.Twin k made copied b.store
  /-- The executors have counted the same. -/
  metrics : a.applied.work.metrics.SameWork b.applied.work.metrics
  /-- The sources are the same. -/
  remote : b.remote = a.remote
  /-- The data of the source came about by commits. -/
  data : a.remote.data.Reachable
  /-- Nothing happens at the calls of the first one. -/
  quiet : a.incidents = []
  /-- Nothing happens at the calls of the second one. -/
  quiet' : b.incidents = []
  /-- Either both were told to stop or none. -/
  stopped : b.stopped = a.stopped
  /-- Storing the checkpoint is tried again. -/
  attempts : 2 ≤ a.applied.checkpoint.attempts
  /-- It is tried equally often. -/
  equally : b.applied.checkpoint.attempts = a.applied.checkpoint.attempts
  /-- The checkpoints are the same once the databases of users were copied. -/
  current : copied → b.applied.checkpoint.current = a.applied.checkpoint.current

/-- A call at which nothing happens is recorded. -/
theorem startCall_of_quiet {s : SyncState} (h : s.incidents = []) (kind : CallKind)
    (argument : String) :
    s.startCall kind argument =
      (.ok (), { s with calls := s.calls ++ [⟨kind, argument, s.phase⟩] }) := by
  have hdue : s.due kind = [] := by
    unfold due
    rw [h]
    rfl
  unfold startCall
  rw [hdue]
  rfl

end SyncState

theorem SyncM.bind_eq_andThen (m : SyncM α) (f : α → SyncM β) (s : SyncState) :
    (m >>= f) s = andThen (m s) f := by
  rw [bind_apply]
  rcases m s with ⟨e | x, s₁⟩ <;> rfl

/-- What fails with its first step fails. -/
theorem SyncM.bind_eq_error {m : SyncM α} {f : α → SyncM β} {s : SyncState} {e : ReplicationError}
    (h : (m s).1 = .error e) : ((m >>= f) s).1 = .error e := by
  rw [bind_apply]
  rcases hm : m s with ⟨r, s₁⟩
  rw [hm] at h
  obtain rfl : r = .error e := h
  rfl

namespace InitialSync

open SyncState (Twin)

variable {x : InitialSync} {a b : SyncState}

/-- A step has the same outcome on twins, unless it fails with an error that ends the sync. -/
def Steady (k : Option Nat) (made : Nat) (copied : Prop) (m : SyncM α) : Prop :=
  ∀ a b, Twin k made copied a b → Mirrors (Twin k made copied) (m a) (m b)

theorem Steady.bind {m : SyncM α} {f : α → SyncM β} (hm : Steady k made copied m)
    (hf : ∀ x, Steady k made copied (f x)) : Steady k made copied (m >>= f) := by
  intro a b h
  rw [SyncM.bind_eq_andThen, SyncM.bind_eq_andThen]
  exact (hm a b h).andThen hf

theorem steady_start (kind : CallKind) (argument : String) :
    Steady k made copied (start kind argument) := by
  intro a b h
  unfold start
  rw [SyncState.startCall_of_quiet h.quiet, SyncState.startCall_of_quiet h.quiet']
  exact .inr ⟨rfl, { h with }⟩

theorem steady_checkStopped : Steady k made copied checkStopped := by
  intro a b h
  unfold checkStopped
  rw [h.stopped]
  exact .inr ⟨rfl, h⟩

theorem steady_enter (phase : SyncPhase) : Steady k made copied (enter phase) :=
  fun _ _ h => .inr ⟨rfl, { h with }⟩

/-- A question to the source that leaves its data has the same answer. -/
theorem steady_onRemote {f : Remote → Except ReplicationError α × Remote}
    (hf : ∀ r, (f r).2.data = r.data) : Steady k made copied (onRemote f) := by
  intro a b h
  unfold onRemote
  rw [h.remote]
  exact .inr ⟨rfl, { h with remote := rfl, data := (hf a.remote).symm ▸ h.data }⟩

theorem data_lastEntry (r : Remote) : r.lastEntry.2.data = r.data := by
  unfold Remote.lastEntry
  dsimp only
  split <;> rfl

theorem data_select (r : Remote) : r.select.2.data = r.data := by
  unfold Remote.select
  split <;> rfl

theorem data_connect (address : String) (r : Remote) : (r.connect address).2.data = r.data := by
  unfold Remote.connect
  split
  · rfl
  · split <;> rfl

theorem steady_lastEntry : Steady k made copied lastEntry :=
  (steady_start _ _).bind fun _ => (steady_onRemote data_lastEntry).bind fun _ _ _ h =>
    .inr ⟨rfl, { h with }⟩

/-- A window has the same outcome on twins, unless it fails with an error that ends the sync. -/
theorem steady_applyWindow (x : InitialSync) (first last : Position) :
    Steady k made True (x.applyWindow first last) := by
  refine (steady_start _ _).bind fun _ a b h => ?_
  rw [get_bind, get_bind, h.remote]
  let window : Window :=
    { inner := a.remote.read first last, start := first, address := a.remote.address }
  let token (s : SyncState) : Applied :=
    { s.applied with work := { s.applied.work with cancel := { fired := s.stopped } } }
  have hcheckpoint : ∀ c c' : Checkpoint, c'.current = c.current → c'.attempts = c.attempts →
      c' = c := by
    rintro ⟨_, _⟩ ⟨_, _⟩ rfl rfl
    rfl
  have happlied : (token a).Twin k made (token b) :=
    ⟨⟨h.store, h.metrics,
      congrArg (fun fired : Bool => ({ fired := fired } : Cancellation)) h.stopped, rfl⟩,
      hcheckpoint _ _ (h.current trivial) h.equally, h.attempts⟩
  obtain ⟨e, he, hfatal⟩ | ⟨hresult, hlast⟩ :=
    happlied.run (p := x.pipeline) (c := .recovery) window.toSource
  · exact .of_error he hfatal
  · refine .inr ⟨hresult, { h with
      remote := rfl
      store := hlast.work.store
      metrics := hlast.work.metrics
      attempts := hlast.attempts
      equally := congrArg Checkpoint.attempts hlast.checkpoint
      current := fun _ => congrArg Checkpoint.current hlast.checkpoint }⟩

/-- A move of the checkpoint, wherever it is, has the same outcome on twins, and leads to the same
mark. -/
theorem onCheckpoint_twin (h : Twin k made copied a b) (request : CheckpointCall)
    (hrequest : ∀ c s, request.run c s = c.force request.target s) :
    (∃ e, (onCheckpoint request a).1 = .error e ∧ e.isRetryable = false) ∨
      ∃ a₁ b₁, onCheckpoint request a = (.ok (), a₁) ∧ onCheckpoint request b = (.ok (), b₁) ∧
        Twin k made copied a₁ b₁ ∧
        b₁.applied.checkpoint.current = a₁.applied.checkpoint.current := by
  unfold onCheckpoint
  rw [hrequest, hrequest]
  obtain ⟨e, he, hfatal⟩ | ⟨s₁, s₁', hforce, hforce', hlast⟩ :=
    h.store.force h.attempts h.equally request.target
  · exact .inl ⟨e, he, hfatal⟩
  · rw [hforce, hforce']
    exact .inr ⟨_, _, rfl, rfl, { h with store := hlast, current := fun _ => rfl }, rfl⟩

/-- The flag is set alike in twins, unless that is refused: then it fails with an error that ends
the sync. -/
theorem setConsistent_twin (h : Twin k made copied a b) (value : Bool) :
    (∃ e, (setConsistent value a).1 = .error e ∧ e.isRetryable = false) ∨
      ∃ a₁, setConsistent value a = (.ok (), a₁) ∧
        a₁.store.commits = a.store.commits + 1 ∧
        if k = some a.store.commits then
          (setConsistent value b).1 = .error (.ofPersisting (.rollback "injected rollback"))
        else ∃ b₁, setConsistent value b = (.ok (), b₁) ∧
          Twin k (a.store.commits + 1) copied a₁ b₁ := by
  have hcontent : (idField :: [("value", Json.bool value)].map Prod.fst).Nodup := by
    simp [idField]
  unfold setConsistent Consistency.set Consistency.save
  rcases hsave : Consistency.row.save [("value", .bool value)] a.store with ⟨e | ⟨⟩, s₁⟩
  · exact .inl ⟨_, rfl, rfl⟩
  · have hcounted := Store.commits_commit (Consistency.row.writes_ne_nil _ _) hsave
    refine .inr ⟨_, rfl, hcounted, ?_⟩
    split_ifs with hhit
    · subst hhit
      obtain ⟨hrefused, -⟩ := h.store.refused (Consistency.row.writes_ne_nil _ b.store)
      rw [StateRow.save, ← StateRow.writes, hrefused]
      rfl
    · obtain ⟨s₁', hsave', hlast⟩ :=
        h.store.save (by simp [stateRows]) hcontent hsave hhit
      rw [hsave']
      exact ⟨_, rfl, { h with store := { hlast with counted := hcounted.ge } }⟩

end InitialSync

end Replica
