import Replica.InitialSync.Run
import Replica.Proofs.Checkpoint.Agreement

/-!
# What the steps of an initial sync leave

A step of an initial sync is known by its result and the state that it leaves. Steps one after
another succeed if each of them does (`bind_eq_ok`), and leave whatever each of them leaves
(`Keeps.bind`). Most steps leave the log of the source, the tails that were read, the batches that
were executed and the checkpoint (`SyncState.Frame`); the whole of an attempt leaves the log
(`keeps_attempt`), if nothing that happens meanwhile changes it.
-/

namespace Replica

/-! ## Steps one after another -/

namespace SyncM

variable {α β : Type} {m : SyncM α} {f : α → SyncM β} {s s' : SyncState} {b : β}

theorem bind_apply (m : SyncM α) (f : α → SyncM β) (s : SyncState) : (m >>= f) s =
    match m s with
    | (.ok a, s) => f a s
    | (.error e, s) => (.error e, s) := by
  show (ExceptT.bindCont f (m s).1) (m s).2 = _
  rcases m s with ⟨e | a, s⟩ <;> rfl

/-- Two steps succeed if the first one does and then the second one. -/
theorem bind_eq_ok (h : (m >>= f) s = (.ok b, s')) :
    ∃ a s₁, m s = (.ok a, s₁) ∧ f a s₁ = (.ok b, s') := by
  rw [bind_apply] at h
  rcases hm : m s with ⟨e | a, s₁⟩
  · rw [hm] at h
    cases congrArg Prod.fst h
  · rw [hm] at h
    exact ⟨a, s₁, rfl, h⟩

/-- The state that a step leaves is related to the one that it finds. -/
def Keeps (R : SyncState → SyncState → Prop) (m : SyncM α) : Prop := ∀ s, R s (m s).2

variable {R S : SyncState → SyncState → Prop}

theorem Keeps.bind (htrans : ∀ {a b c}, R a b → R b c → R a c) (hm : Keeps R m)
    (hf : ∀ a, Keeps R (f a)) : Keeps R (m >>= f) := by
  intro s
  have hfirst := hm s
  rw [bind_apply]
  rcases hm : m s with ⟨e | a, s₁⟩
  · rw [hm] at hfirst
    exact hfirst
  · rw [hm] at hfirst
    exact htrans hfirst (hf a s₁)

theorem Keeps.of_eq {result : Except ReplicationError α} (hm : Keeps R m)
    (h : m s = (result, s')) : R s s' := by
  have hR := hm s
  rw [h] at hR
  exact hR

theorem Keeps.imp (h : Keeps R m) (hRS : ∀ {a b}, R a b → S a b) : Keeps S m := fun s => hRS (h s)

/-- If a step succeeds with a second one behind it, the second one finds what the first one
leaves. -/
theorem Keeps.of_bind (hm : Keeps R m) (h : (m >>= f) s = (.ok b, s')) :
    ∃ a s₁, R s s₁ ∧ f a s₁ = (.ok b, s') := by
  obtain ⟨a, s₁, hfirst, hsecond⟩ := bind_eq_ok h
  exact ⟨a, s₁, hm.of_eq hfirst, hsecond⟩

end SyncM

/-! ## Frames -/

namespace SyncState

variable {s s' s'' : SyncState} {i : Incident}

/-- Nothing that is going to happen changes the log of the source. -/
def KeepsLog (s : SyncState) : Prop := ∀ i ∈ s.incidents, ∀ t : SyncState,
  t.remote.log = s.remote.log → (t.happen i.incident).remote.log = s.remote.log

/-- The log of the source is left, if nothing that is going to happen changes it. -/
structure SameLog (s s' : SyncState) : Prop where
  /-- The log is the same. -/
  log : s.KeepsLog → s'.remote.log = s.remote.log
  /-- What is going to happen is the same. -/
  incidents : s'.incidents = s.incidents

/-- Neither was a tail read nor anything executed, and the checkpoint is where it was. -/
structure Frame (s s' : SyncState) : Prop extends SameLog s s' where
  /-- The tails that were read are the same. -/
  tails : s'.tails = s.tails
  /-- The batches that were handed to the executor are the same. -/
  executed : s'.executed = s.executed
  /-- The checkpoint is the same. -/
  checkpoint : s'.applied.checkpoint = s.applied.checkpoint

theorem SameLog.refl (s : SyncState) : s.SameLog s := ⟨fun _ => rfl, rfl⟩

theorem SameLog.keepsLog (h : s.SameLog s') (hs : s.KeepsLog) : s'.KeepsLog := by
  unfold KeepsLog
  rw [h.incidents, h.log hs]
  exact hs

theorem SameLog.trans (h : s.SameLog s') (h' : s'.SameLog s'') : s.SameLog s'' where
  log hs := (h'.log (h.keepsLog hs)).trans (h.log hs)
  incidents := h'.incidents.trans h.incidents

theorem Frame.refl (s : SyncState) : s.Frame s := ⟨.refl s, rfl, rfl, rfl⟩

theorem Frame.trans (h : s.Frame s') (h' : s'.Frame s'') : s.Frame s'' where
  toSameLog := h.toSameLog.trans h'.toSameLog
  tails := h'.tails.trans h.tails
  executed := h'.executed.trans h.executed
  checkpoint := h'.checkpoint.trans h.checkpoint

/-- Incidents one after another leave what each of them leaves. -/
theorem rel_foldl_happen {R : SyncState → SyncState → Prop} (hrefl : ∀ s, R s s)
    (htrans : ∀ {s s' s''}, R s s' → R s' s'' → R s s'') {is : List Incident}
    (his : ∀ i ∈ is, ∀ s, R s (s.happen i)) (s : SyncState) : R s (is.foldl happen s) := by
  induction is generalizing s with
  | nil => exact hrefl s
  | cons i is ih =>
    obtain ⟨hi, his⟩ := List.forall_mem_cons.1 his
    exact htrans (hi s) (ih his _)

/-- The state that starting a call leaves: the call is recorded, and what is due happens. -/
theorem startCall_state (s : SyncState) (kind : CallKind) (argument : String) :
    (s.startCall kind argument).2 =
      (s.due kind).foldl happen { s with calls := s.calls ++ [⟨kind, argument, s.phase⟩] } := by
  unfold startCall
  dsimp only
  split <;> rfl

/-- Recording a call and what happens then is within the frame. -/
theorem frame_startCall (s : SyncState) (kind : CallKind) (argument : String) :
    s.Frame (s.startCall kind argument).2 := by
  rw [startCall_state]
  -- What happens from outside leaves all that the sync itself notes.
  let Noted (s s' : SyncState) : Prop := s'.incidents = s.incidents ∧ s'.tails = s.tails ∧
    s'.executed = s.executed ∧ s'.applied.checkpoint = s.applied.checkpoint
  have hnoted : ∀ i ∈ s.due kind, ∀ t : SyncState, Noted t (t.happen i) := by
    intro i _ t
    cases i <;> exact ⟨rfl, rfl, rfl, rfl⟩
  obtain ⟨hincidents, htails, hexecuted, hcheckpoint⟩ :=
    rel_foldl_happen (R := Noted) (fun _ => ⟨rfl, rfl, rfl, rfl⟩)
      (fun h h' => ⟨h'.1.trans h.1, h'.2.1.trans h.2.1, h'.2.2.1.trans h.2.2.1,
        h'.2.2.2.trans h.2.2.2⟩) hnoted
      { s with calls := s.calls ++ [⟨kind, argument, s.phase⟩] }
  refine ⟨⟨fun hs => ?_, hincidents⟩, htails, hexecuted, hcheckpoint⟩
  -- The log is left by every single incident that is due.
  have hlog : ∀ i ∈ s.due kind, ∀ t : SyncState,
      t.remote.log = s.remote.log → (t.happen i).remote.log = s.remote.log := by
    intro i hi
    obtain ⟨scheduled, hmem, rfl⟩ := List.mem_map.1 hi
    exact hs scheduled (List.mem_filter.1 hmem).1
  exact rel_foldl_happen
    (R := fun t t' => t.remote.log = s.remote.log → t'.remote.log = s.remote.log)
    (fun _ => id) (fun h h' => h' ∘ h) hlog _ rfl

end SyncState

/-! ## The steps -/

namespace InitialSync

open SyncM (Keeps)
open SyncState (Frame SameLog)

variable {α : Type} {x : InitialSync}

theorem keeps_start (kind : CallKind) (argument : String) : Keeps Frame (start kind argument) :=
  fun s => s.frame_startCall kind argument

theorem keeps_checkStopped : Keeps Frame checkStopped := Frame.refl

theorem keeps_enter (phase : SyncPhase) : Keeps Frame (enter phase) :=
  fun _ => ⟨⟨fun _ => rfl, rfl⟩, rfl, rfl, rfl⟩

theorem keeps_get : Keeps Frame (get : SyncM SyncState) := Frame.refl

theorem keeps_pure (a : α) : Keeps Frame (pure a : SyncM α) := Frame.refl

theorem keeps_onRemote {f : Remote → Except ReplicationError α × Remote}
    (hf : ∀ r, (f r).2.log = r.log) : Keeps Frame (onRemote f) :=
  fun s => ⟨⟨fun _ => hf s.remote, rfl⟩, rfl, rfl, rfl⟩

theorem keeps_onStore (f : Store → Except ReplicationError α × Store) : Keeps Frame (onStore f) :=
  fun _ => ⟨⟨fun _ => rfl, rfl⟩, rfl, rfl, rfl⟩

theorem keeps_setConsistent (value : Bool) : Keeps Frame (setConsistent value) :=
  fun _ => ⟨⟨fun _ => rfl, rfl⟩, rfl, rfl, rfl⟩

theorem keeps_close : Keeps Frame close := fun s => s.frame_startCall .close ""

theorem keeps_scanAll (l : List Namespace) : Keeps Frame (scanAll l) := by
  induction l with
  | nil => exact keeps_pure ()
  | cons ns rest ih => exact (keeps_start _ _).bind Frame.trans fun _ => ih

theorem keeps_cloneDatabase (x : InitialSync) (database : String) :
    Keeps Frame (x.cloneDatabase database) := by
  refine (keeps_start _ _).bind Frame.trans fun _ => keeps_get.bind Frame.trans fun state s => ?_
  have hscan := keeps_scanAll (Clone.collections x.pipeline.filters state.remote.data database) s
  split
  · rename_i e s₁ heq
    rw [heq] at hscan
    exact hscan
  · rename_i s₁ heq
    rw [heq] at hscan
    exact hscan.trans (keeps_onStore _ s₁)

theorem keeps_cloneAll (x : InitialSync) (databases : List String) :
    Keeps Frame (x.cloneAll databases) := by
  induction databases with
  | nil => exact keeps_pure ()
  | cons database rest ih =>
    unfold cloneAll
    dsimp only
    split_ifs
    · exact keeps_checkStopped.bind Frame.trans fun _ =>
        (keeps_cloneDatabase x database).bind Frame.trans fun _ => ih
    · exact ih

theorem keeps_onCheckpoint (request : CheckpointCall) : Keeps SameLog (onCheckpoint request) :=
  fun _ => ⟨fun _ => rfl, rfl⟩

theorem keeps_replaceData (x : InitialSync) (tail : Mark) :
    Keeps SameLog (x.replaceData tail) :=
  (keeps_onCheckpoint _).bind SameLog.trans fun _ =>
    ((keeps_onStore _).imp Frame.toSameLog).bind SameLog.trans fun _ =>
    ((keeps_start _ _).imp Frame.toSameLog).bind SameLog.trans fun _ =>
    (keeps_get.imp Frame.toSameLog).bind SameLog.trans fun _ =>
    ((keeps_cloneAll x _).imp Frame.toSameLog).bind SameLog.trans fun _ =>
    keeps_onCheckpoint _

theorem log_lastEntry (r : Remote) : r.lastEntry.2.log = r.log := by
  unfold Remote.lastEntry
  dsimp only
  split <;> rfl

theorem keeps_lastEntry : Keeps SameLog lastEntry :=
  ((keeps_start _ _).imp Frame.toSameLog).bind SameLog.trans fun _ =>
    ((keeps_onRemote log_lastEntry).imp Frame.toSameLog).bind SameLog.trans fun _ _ =>
    ⟨fun _ => rfl, rfl⟩

theorem keeps_applyWindow (x : InitialSync) (first last : Position) :
    Keeps SameLog (x.applyWindow first last) :=
  ((keeps_start _ _).imp Frame.toSameLog).bind SameLog.trans fun _ =>
    (keeps_get.imp Frame.toSameLog).bind SameLog.trans fun _ _ => ⟨fun _ => rfl, rfl⟩

theorem keeps_syncFrom (x : InitialSync) : Keeps SameLog x.syncFrom := by
  have hcheck : Keeps SameLog checkStopped := keeps_checkStopped.imp Frame.toSameLog
  have henter (phase) : Keeps SameLog (enter phase) := (keeps_enter phase).imp Frame.toSameLog
  exact keeps_lastEntry.bind SameLog.trans fun _ => hcheck.bind SameLog.trans fun _ =>
    (henter _).bind SameLog.trans fun _ => (keeps_replaceData x _).bind SameLog.trans fun _ =>
    hcheck.bind SameLog.trans fun _ => (henter _).bind SameLog.trans fun _ =>
    keeps_lastEntry.bind SameLog.trans fun _ => (keeps_applyWindow x _ _).bind SameLog.trans
    fun _ => hcheck.bind SameLog.trans fun _ => (henter _).bind SameLog.trans fun _ =>
    keeps_lastEntry.bind SameLog.trans fun _ => (keeps_applyWindow x _ _).bind SameLog.trans
    fun _ => hcheck.bind SameLog.trans fun _ => (henter _).bind SameLog.trans fun _ =>
    ((keeps_start _ _).imp Frame.toSameLog).bind SameLog.trans fun _ =>
    (keeps_setConsistent true).imp Frame.toSameLog

theorem log_select (r : Remote) : r.select.2.log = r.log := by
  unfold Remote.select
  split <;> rfl

theorem log_connect (r : Remote) (address : String) : (r.connect address).2.log = r.log := by
  unfold Remote.connect
  split
  · rfl
  · split <;> rfl

/-- Closing the connection, whatever came of what was done with it. -/
theorem keeps_closing {m : SyncM Unit} (hm : Keeps SameLog m) : Keeps SameLog fun s =>
    let (result, s) := m s
    (result, (close s).2) :=
  fun s => (hm s).trans (keeps_close (m s).2).toSameLog

theorem keeps_attempt (x : InitialSync) : Keeps SameLog x.attempt :=
  have hbegin : Keeps SameLog begin := fun _ => ⟨fun _ => rfl, rfl⟩
  have hcheck : Keeps SameLog checkStopped := keeps_checkStopped.imp Frame.toSameLog
  have henter (phase) : Keeps SameLog (enter phase) := (keeps_enter phase).imp Frame.toSameLog
  have hstart (kind argument) : Keeps SameLog (start kind argument) :=
    (keeps_start kind argument).imp Frame.toSameLog
  hbegin.bind SameLog.trans fun _ => hcheck.bind SameLog.trans fun _ =>
    (henter _).bind SameLog.trans fun _ =>
    ((keeps_setConsistent false).imp Frame.toSameLog).bind SameLog.trans fun _ =>
    hcheck.bind SameLog.trans fun _ => (henter _).bind SameLog.trans fun _ =>
    (hstart _ _).bind SameLog.trans fun _ =>
    ((keeps_onRemote log_select).imp Frame.toSameLog).bind SameLog.trans fun _ =>
    (hstart _ _).bind SameLog.trans fun _ =>
    ((keeps_onRemote fun r => log_connect r _).imp Frame.toSameLog).bind SameLog.trans fun _ =>
    keeps_closing (keeps_syncFrom x)

/-- What a sync that finished made of the last of its attempts, before which there may have been
others. -/
theorem attempt_of_attempts {more number n : Nat} {s s' : SyncState}
    (h : x.attempts more number s = (.finished n, s')) : ∃ s₀ s₁, s.SameLog s₀ ∧
      x.attempt s₀ = (.ok (), s₁) ∧ s' = { s₁ with phase := .finished } := by
  induction more generalizing number s with
  | zero =>
    unfold attempts at h
    split_ifs at h
    · cases congrArg Prod.fst h
    · rcases hattempt : x.attempt s with ⟨e | ⟨⟩, s₁⟩
      · rw [hattempt] at h
        cases congrArg Prod.fst h
      · rw [hattempt] at h
        exact ⟨s, s₁, .refl s, hattempt, (Prod.mk.inj h).2.symm⟩
  | succ more ih =>
    unfold attempts at h
    split_ifs at h
    · cases congrArg Prod.fst h
    · rcases hattempt : x.attempt s with ⟨e | ⟨⟩, s₁⟩
      · rw [hattempt] at h
        dsimp only at h
        split_ifs at h
        · obtain ⟨s₀, s₂, hlog, hlast, rfl⟩ := ih h
          exact ⟨s₀, s₂, ((keeps_attempt x).of_eq hattempt).trans hlog, hlast, rfl⟩
        · cases congrArg Prod.fst h
      · rw [hattempt] at h
        exact ⟨s, s₁, .refl s, hattempt, (Prod.mk.inj h).2.symm⟩

end InitialSync

end Replica
