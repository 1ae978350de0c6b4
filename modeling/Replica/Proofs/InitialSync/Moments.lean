import Replica.Proofs.Consistency
import Replica.Proofs.InitialSync.Frame
import Replica.Proofs.Pipeline.Stages
import Replica.Proofs.Pipeline.Writes

/-!
# The moments of an initial sync

A sync passes through moments: between any two of its steps, between the commits of a window, and
while nothing happens but from outside. `SyncMoment.Step` is what may come next. Any step may fail
with any error, commits may be told to fail and the sync may be told to stop at any moment, and the
source may serve anything. A moment also notes whether data of users was written in this run, and
how far the attempt has come.

Every step keeps the flag right (`Sound.step`), so it is right at every moment (`Sound.steps`): the
stored flag is the one in memory, and it is false as long as the data may be half-synchronised.
-/

namespace Replica

/-- Where a sync is between two of its steps. -/
inductive SyncPoint where
  /-- The next attempt has not begun. -/
  | waiting
  /-- The member is to be marked as inconsistent. -/
  | marking
  /-- A source is selected and asked for its tail. -/
  | selecting
  /-- The databases of users are to be dropped. -/
  | dropping
  /-- Databases are copied. -/
  | cloning
  /-- The next tail is read, for the first or the second window. -/
  | reading (second : Bool)
  /-- A window of a source is applied since a state. -/
  | applying (second : Bool) (source : Source) (opened : Applied)
  /-- Indexes are to be rebuilt. -/
  | rebuilding
  /-- The member is to be marked as consistent. -/
  | confirming
  /-- The member is marked as consistent. -/
  | confirmed
  /-- The attempt has failed. -/
  | failed (e : ReplicationError)
  /-- The sync has ended. -/
  | ended (outcome : SyncOutcome)

namespace SyncPoint

/-- Where a step leads to that goes on to a point if it succeeds. -/
def after {α : Type} (result : Except ReplicationError α) (next : SyncPoint) : SyncPoint :=
  match result with
  | .ok _ => next
  | .error e => .failed e

/-- The attempt has marked the member as inconsistent, and not yet as consistent. -/
def isUnset : SyncPoint → Bool
  | selecting | dropping | cloning | reading _ | applying .. | rebuilding | confirming => true
  | _ => false

/-- An attempt is going on. -/
def isAttempt : SyncPoint → Bool
  | marking => true
  | p => p.isUnset

/-- The member is marked as consistent, and nothing but the end is left. -/
def isDone : SyncPoint → Bool
  | confirmed | ended (.finished _) => true
  | _ => false

/-- How many windows the attempt has applied, if an attempt is going on. -/
def windows? : SyncPoint → Option Nat
  | marking | selecting | dropping | cloning | reading false | applying false .. => some 0
  | reading true | applying true .. => some 1
  | rebuilding | confirming | confirmed | ended (.finished _) => some 2
  | waiting | failed _ | ended (.failed ..) => none

/-- The attempt has rebuilt the indexes. -/
def isRebuilt : SyncPoint → Bool
  | confirming => true
  | p => p.isDone

/-- Where the end of a window leads to. -/
def behindWindow (second : Bool) : SyncPoint := if second then rebuilding else reading true

end SyncPoint

/-- A moment of a sync. -/
structure SyncMoment where
  /-- Where the sync is. -/
  point : SyncPoint := .waiting
  /-- What it works on. -/
  state : SyncState
  /-- The number of the attempt. -/
  number : Nat := 1
  /-- Whether a step of this run that writes data of users was taken: dropping databases, cloning
  one, or applying something of a window. -/
  wrote : Bool := false
  /-- How many windows were applied in this attempt. -/
  windows : Nat := 0
  /-- Whether indexes were rebuilt in this attempt. -/
  rebuilt : Bool := false

/-- What may happen outside of the steps: the flag, the checkpoint and the data are left, and a sync
that was told to stop stays so. -/
structure SyncState.Outside (s s' : SyncState) : Prop where
  /-- The flag in memory is the same. -/
  consistent : s'.consistent = s.consistent
  /-- The checkpoint is the same. -/
  checkpoint : s'.applied.checkpoint = s.applied.checkpoint
  /-- The data is the same. -/
  databases : s'.store.databases = s.store.databases
  /-- The numbers that were given to documents are the same. -/
  nextDid : s'.store.nextDid = s.store.nextDid
  /-- A sync that was told to stop stays so. -/
  stopped : s.stopped = true → s'.stopped = true

/-- All collections but those of the state of replication are left. -/
def Store.DataKept (s s' : Store) : Prop :=
  ∀ ns : Namespace, ns.database ≠ reservedDatabase → s'.collection ns = s.collection ns

namespace SyncMoment

open InitialSync (setConsistent onStore onCheckpoint)

/-- Drops the databases of users. -/
def dropUsers (store : Store) : Except ReplicationError Unit × Store :=
  store.commit (Clone.dropUserDatabases store)

/-- What may come next. -/
inductive Step (x : InitialSync) : SyncMoment → SyncMoment → Prop
  /-- Something happens outside. -/
  | outside {m : SyncMoment} (s : SyncState) (left : m.state.Outside s) :
      Step x m { m with state := s }
  /-- A sync that was told to stop does not wait for its next attempt. -/
  | cancel {m : SyncMoment} (waiting : m.point = .waiting)
      (delayed : linearDelay x.settings.step m.number ≠ 0) (stopped : m.state.stopped = true) :
      Step x m { m with
        point := .ended (.failed (m.number - 1) .cancelled)
        state := { m.state with phase := .failed } }
  /-- An attempt begins. -/
  | begin {m : SyncMoment} (waiting : m.point = .waiting) :
      Step x m { m with point := .marking, windows := 0, rebuilt := false }
  /-- A step of an attempt fails, or finds that the sync was told to stop. -/
  | fail {m : SyncMoment} (attempt : m.point.isAttempt = true) (e : ReplicationError) :
      Step x m { m with point := .failed e }
  /-- The member is marked as inconsistent, if that can be stored. -/
  | mark {m : SyncMoment} (marking : m.point = .marking) :
      Step x m { m with
        point := .after (setConsistent false m.state).1 .selecting
        state := (setConsistent false m.state).2 }
  /-- The checkpoint goes back to its start, if that can be stored. -/
  | reset {m : SyncMoment} (selecting : m.point = .selecting) :
      Step x m { m with
        point := .after (onCheckpoint .reset m.state).1 .dropping
        state := (onCheckpoint .reset m.state).2 }
  /-- The databases of users are dropped. -/
  | drop {m : SyncMoment} (dropping : m.point = .dropping) :
      Step x m { m with
        point := .after (onStore dropUsers m.state).1 .cloning
        state := (onStore dropUsers m.state).2
        wrote := true }
  /-- A database is cloned from any data. -/
  | clone {m : SyncMoment} {database : String} (cloning : m.point = .cloning)
      (accepted : x.pipeline.filters.acceptsDatabase database = true) (data : Store) :
      Step x m { m with
        point := .after (onStore (Clone.run x.pipeline.filters true data database) m.state).1
          .cloning
        state := (onStore (Clone.run x.pipeline.filters true data database) m.state).2
        wrote := true }
  /-- The checkpoint moves to the tail from before the copy, if that can be stored. -/
  | force {m : SyncMoment} (cloning : m.point = .cloning) (tail : Mark) :
      Step x m { m with
        point := .after (onCheckpoint (.force tail) m.state).1 (.reading false)
        state := (onCheckpoint (.force tail) m.state).2 }
  /-- A window is opened. -/
  | openWindow {m : SyncMoment} {second : Bool} (reading : m.point = .reading second)
      (source : Source) :
      Step x m { m with point := .applying second source m.state.applied }
  /-- Something of a window is applied. -/
  | apply {m : SyncMoment} {second : Bool} {source : Source} {opened s : Applied}
      (applying : m.point = .applying second source opened)
      (effect : m.state.applied.Effect x.pipeline.filters s) :
      Step x m { m with state := { m.state with applied := s }, wrote := true }
  /-- All of a window was applied: the stages of the pipeline can all have ended well with what was
  done since it was opened. -/
  | closeWindow {m : SyncMoment} {second : Bool} {source : Source} {opened : Applied} {y : Stages}
      (applying : m.point = .applying second source opened)
      (applied : x.pipeline.Steps .recovery (.start source { opened with executed := [] }) y)
      (well : y.EndedWell) (reached : y.applied = m.state.applied) :
      Step x m { m with point := .behindWindow second, windows := m.windows + 1 }
  /-- Indexes are rebuilt. -/
  | rebuild {m : SyncMoment} (rebuilding : m.point = .rebuilding) :
      Step x m { m with point := .confirming, rebuilt := true }
  /-- The member is marked as consistent, if that can be stored. -/
  | confirm {m : SyncMoment} (confirming : m.point = .confirming) :
      Step x m { m with
        point := .after (setConsistent true m.state).1 .confirmed
        state := (setConsistent true m.state).2 }
  /-- The sync has finished. -/
  | finish {m : SyncMoment} (confirmed : m.point = .confirmed) :
      Step x m { m with
        point := .ended (.finished m.number)
        state := { m.state with phase := .finished } }
  /-- There will be another attempt. -/
  | retry {m : SyncMoment} {e : ReplicationError} (failed : m.point = .failed e)
      (retryable : e.isRetryable = true) (more : m.number < max x.settings.maxAttempts 1) :
      Step x m { m with point := .waiting, number := m.number + 1 }
  /-- The sync is given up. -/
  | giveUp {m : SyncMoment} {e : ReplicationError} (failed : m.point = .failed e)
      (last : e.isRetryable = false ∨ m.number = max x.settings.maxAttempts 1) :
      Step x m { m with
        point := .ended (.failed m.number e)
        state := { m.state with phase := .failed } }

/-- Any number of steps. -/
def Steps (x : InitialSync) : SyncMoment → SyncMoment → Prop := Relation.ReflTransGen (Step x)

/-- The flag is right at a moment of a sync that began on a store. -/
structure Sound (before : Store) (m : SyncMoment) : Prop where
  /-- The store is well-formed. -/
  wellFormed : m.state.store.WellFormed
  /-- The stored flag is the one in memory. -/
  agrees : Consistency.load m.state.store = m.state.consistent
  /-- While the attempt works on the data the flag is false. -/
  unset : m.point.isUnset = true → m.state.consistent = false
  /-- Once data of users was written the flag is false, until an attempt is done. -/
  wrote : m.wrote = true → m.point.isDone = false → m.state.consistent = false
  /-- Once an attempt is done the flag is true. -/
  done : m.point.isDone = true → m.state.consistent = true
  /-- The number of windows that were applied. -/
  windows : ∀ n, m.point.windows? = some n → m.windows = n
  /-- Indexes were rebuilt before. -/
  rebuilt : m.point.isRebuilt = true → m.rebuilt = true
  /-- As long as no data of users was written it is as before. -/
  spared : m.wrote = false → before.DataKept m.state.store

end SyncMoment

/-! ## What steps leave of the flag -/

namespace SyncState

variable {s s' : SyncState} {filters : Filters}

/-- The flag is left, in memory and in a store that stays well-formed. -/
structure FlagKept (s s' : SyncState) : Prop where
  /-- The store stays well-formed. -/
  wellFormed : s.store.WellFormed → s'.store.WellFormed
  /-- The stored flag is the same. -/
  load : Consistency.load s'.store = Consistency.load s.store
  /-- The flag in memory is the same. -/
  consistent : s'.consistent = s.consistent

theorem Outside.flagKept (h : s.Outside s') : s.FlagKept s' where
  wellFormed hs ns := by
    rw [Store.collection, h.databases, h.nextDid]
    exact hs ns
  load := Consistency.load_of_row (StateRow.load?_of_collection?
    (Store.collection?_of_get? (by rw [h.databases])))
  consistent := h.consistent

/-- Where all other databases are left, all data but the state of replication is. -/
theorem dataKept_of_get? {store store' : Store}
    (h : ∀ name ≠ reservedDatabase, store'.databases.get? name = store.databases.get? name) :
    store.DataKept store' :=
  fun ns hns => Store.collection_congr (Store.collection?_of_get? (h ns.database hns))

theorem Outside.dataKept (h : s.Outside s') : s.store.DataKept s'.store :=
  dataKept_of_get? fun _ _ => by rw [h.databases]

/-- A transaction on other databases leaves the flag. -/
theorem flagKept_commit {t : Transaction} (ht : ∀ w ∈ t, w.database ≠ reservedDatabase) :
    s.FlagKept (s.setStore (s.store.commit t).2) where
  wellFormed hs := hs.commit t
  load := Consistency.load_commit ht
  consistent := rfl

/-- Moving the checkpoint leaves the flag. -/
theorem flagKept_checkpoint (request : CheckpointCall) :
    s.FlagKept (InitialSync.onCheckpoint request s).2 where
  wellFormed hs := CheckpointCall.wellFormed_run hs
  load := Consistency.load_checkpoint request _
  consistent := rfl

theorem dataKept_checkpoint (request : CheckpointCall) :
    s.store.DataKept (InitialSync.onCheckpoint request s).2.store :=
  dataKept_of_get? fun _ => CheckpointCall.get?_run

theorem dataKept_setConsistent (value : Bool) :
    s.store.DataKept (InitialSync.setConsistent value s).2.store :=
  dataKept_of_get? fun _ => Consistency.get?_set

/-- No filters let pass a database that belongs to the member alone. -/
theorem ne_own_of_acceptsDatabase {database : String}
    (h : filters.acceptsDatabase database = true) :
    database ≠ localDatabase ∧ database ≠ reservedDatabase := by
  simp only [Filters.acceptsDatabase, Bool.and_eq_true, bne_iff_ne] at h
  exact h.1.1

/-- The steps of the pipeline leave the flag. -/
theorem flagKept_effect {a : Applied} (h : s.applied.Effect filters a) :
    s.FlagKept { s with applied := a } := by
  cases h with
  | commit t within =>
    exact flagKept_commit fun w hw => (ne_own_of_acceptsDatabase (within w hw)).2
  | advance target => exact flagKept_checkpoint (.advance target)
  | note metrics work executed store =>
    refine ⟨fun hs => ?_, congrArg Consistency.load store, rfl⟩
    show work.store.WellFormed
    rw [store]
    exact hs

/-- All databases that are dropped are users'. -/
theorem database_of_mem_dropUserDatabases {store : Store} {w : Write}
    (h : w ∈ Clone.dropUserDatabases store) :
    w.database ≠ localDatabase ∧ w.database ≠ reservedDatabase := by
  obtain ⟨name, hname, rfl⟩ := List.mem_map.1 h
  have hkept := (List.mem_filter.1 hname).2
  simp only [ne_eq, Bool.and_eq_true, decide_eq_true_eq] at hkept
  exact hkept.symm

/-- Dropping the databases of users leaves the flag. -/
theorem flagKept_drop (s : SyncState) :
    s.FlagKept (InitialSync.onStore SyncMoment.dropUsers s).2 :=
  flagKept_commit fun _ hw => (database_of_mem_dropUserDatabases hw).2

/-- All writes that clone a database are on it. -/
theorem database_of_mem_plan {data : Store} {database : String} {withIndexes : Bool} {w : Write}
    (h : w ∈ Clone.plan filters withIndexes data database) : w.database = database := by
  obtain ⟨ns, hns, hw⟩ := List.mem_flatMap.1 h
  obtain ⟨name, -, rfl⟩ := List.mem_map.1 (List.mem_filter.1 hns).1
  unfold Clone.writes Transaction.insert at hw
  rcases List.mem_append.1 hw with hw | hw
  · split_ifs at hw
    · rw [List.mem_singleton.1 hw]
      rfl
    · rcases List.mem_append.1 hw with hw | hw <;> rw [List.mem_singleton.1 hw] <;> rfl
  · split_ifs at hw
    · obtain ⟨index, -, rfl⟩ := List.mem_map.1 hw
      rfl
    · cases hw

/-- Cloning a database that is replicated leaves the flag. -/
theorem flagKept_clone {database : String} (h : filters.acceptsDatabase database = true)
    (data : Store) (s : SyncState) :
    s.FlagKept (InitialSync.onStore (Clone.run filters true data database) s).2 :=
  flagKept_commit fun w hw => by
    rw [database_of_mem_plan hw]
    exact (ne_own_of_acceptsDatabase h).2

end SyncState

/-! ## The flag is right at every moment -/

namespace SyncPoint

variable {p : SyncPoint}

theorem isDone_of_isUnset (h : p.isUnset = true) : p.isDone = false := by
  cases p with
  | confirmed | ended _ => cases h
  | _ => rfl

theorem isDone_of_isAttempt (h : p.isAttempt = true) : p.isDone = false := by
  cases p with
  | confirmed | ended _ => cases h
  | _ => rfl

end SyncPoint

namespace SyncMoment

open SyncState (flagKept_checkpoint dataKept_checkpoint dataKept_setConsistent)

variable {x : InitialSync} {m m' : SyncMoment} {before : Store}

/-- A sync begins with the flag right, if the one in memory is the stored one. -/
theorem sound_start {s : SyncState} (hs : s.store.WellFormed)
    (hload : s.consistent = Consistency.load s.store) : Sound s.store { state := s } where
  wellFormed := hs
  agrees := hload.symm
  unset h := nomatch h
  wrote h := nomatch h
  done h := nomatch h
  windows _ h := nomatch h
  rebuilt h := nomatch h
  spared _ _ _ := rfl

/-- A step of an attempt that leaves the flag false keeps it right, whether it succeeds or not. -/
theorem Sound.keep (h : m.Sound before) (hunset : m.point.isUnset = true) {s : SyncState}
    (hkept : m.state.FlagKept s) (wrote : Bool)
    (hwrote : wrote = false → m.wrote = false ∧ m.state.store.DataKept s.store)
    (result : Except ReplicationError Unit) {next : SyncPoint} (hnext : next.isUnset = true)
    (hwindows : next.windows? = m.point.windows?) (hrebuilt : next.isRebuilt = false) :
    Sound before { m with point := .after result next, state := s, wrote := wrote } := by
  have hfalse : s.consistent = false := hkept.consistent.trans (h.unset hunset)
  refine ⟨hkept.wellFormed h.wellFormed, ?_, fun _ => hfalse, fun _ _ => hfalse, ?_, ?_, ?_, ?_⟩
  · rw [hkept.load, h.agrees, hkept.consistent]
  -- A step that fails leads out of the attempt, where nothing is said of its progress.
  · intro hdone
    cases result with
    | error e => cases hdone
    | ok _ =>
      rw [SyncPoint.after, SyncPoint.isDone_of_isUnset hnext] at hdone
      cases hdone
  · intro n hn
    cases result with
    | error e => cases hn
    | ok _ => exact h.windows n (hwindows ▸ hn)
  · intro hrebuild
    cases result with
    | error e => cases hrebuild
    | ok _ =>
      rw [SyncPoint.after, hrebuilt] at hrebuild
      cases hrebuild
  · intro hw ns hns
    obtain ⟨hbefore, hdata⟩ := hwrote hw
    exact (hdata ns hns).trans (h.spared hbefore ns hns)

/-- Marking the member keeps the flag right: either it has the new value, or nothing changed. -/
theorem Sound.set (h : m.Sound before) (hattempt : m.point.isAttempt = true) (value : Bool)
    {next : SyncPoint} (hnext : next.isUnset = true → value = false) (hdone : next.isDone = value)
    (hwindows : next.windows? = m.point.windows?)
    (hrebuilt : next.isRebuilt = true → m.rebuilt = true) :
    Sound before { m with
      point := .after (InitialSync.setConsistent value m.state).1 next
      state := (InitialSync.setConsistent value m.state).2 } := by
  have hdata := dataKept_setConsistent (s := m.state) value
  have hwellFormed : (Consistency.set value m.state.consistent m.state.store).2.2.WellFormed :=
    Consistency.wellFormed_set h.wellFormed
  unfold InitialSync.setConsistent at hdata ⊢
  rcases hanswer : Consistency.set value m.state.consistent m.state.store
    with ⟨result, consistent, store⟩
  rw [hanswer] at hdata hwellFormed
  have hspared : m.wrote = false → before.DataKept store :=
    fun hw ns hns => (hdata ns hns).trans (h.spared hw ns hns)
  cases result with
  | ok _ =>
    -- Both flags have the value, and it is the one that belongs to the next point.
    obtain ⟨rfl, hload⟩ := Consistency.set_eq_ok h.wellFormed hanswer
    exact {
      wellFormed := hwellFormed
      agrees := hload
      unset := hnext
      wrote := fun _ hnot => hdone.symm.trans hnot
      done := fun his => hdone.symm.trans his
      windows := fun n hn => h.windows n (hwindows ▸ hn)
      rebuilt := hrebuilt
      spared := hspared }
  | error e =>
    -- Both flags are as before, so data that was written in this run still counts.
    obtain ⟨rfl, hsame⟩ := Consistency.set_eq_error hanswer
    exact {
      wellFormed := hwellFormed
      agrees := (Consistency.load_congr hsame).trans h.agrees
      unset := fun hunset => nomatch hunset
      wrote := fun hw _ => h.wrote hw (SyncPoint.isDone_of_isAttempt hattempt)
      done := fun his => nomatch his
      windows := fun _ hn => nomatch hn
      rebuilt := fun his => nomatch his
      spared := hspared }

/-- Where nothing is done and no data is worked on, only what was written before counts. -/
theorem Sound.idle (h : m.Sound before) (hdone : m.point.isDone = false) {p : SyncPoint}
    (hp : p.isUnset = false ∧ p.isDone = false ∧ p.windows? = none ∧ p.isRebuilt = false)
    (phase : SyncPhase) (number : Nat) :
    Sound before { m with
      point := p
      state := { m.state with phase := phase }
      number := number } :=
  { h with
    unset := fun his => nomatch hp.1 ▸ his
    wrote := fun hw _ => h.wrote hw hdone
    done := fun his => nomatch hp.2.1 ▸ his
    windows := fun _ hn => nomatch hp.2.2.1 ▸ hn
    rebuilt := fun his => nomatch hp.2.2.2 ▸ his }

/-- Within an attempt the flag stays false, whatever is counted. -/
theorem Sound.move (h : m.Sound before) (hunset : m.point.isUnset = true) {p : SyncPoint}
    (hp : p.isUnset = true) {windows : Nat} {rebuilt : Bool}
    (hwindows : ∀ n, p.windows? = some n → windows = n)
    (hrebuilt : p.isRebuilt = true → rebuilt = true) :
    Sound before { m with point := p, windows := windows, rebuilt := rebuilt } :=
  { h with
    unset := fun _ => h.unset hunset
    wrote := fun _ _ => h.unset hunset
    done := fun his => nomatch (SyncPoint.isDone_of_isUnset hp).symm.trans his
    windows := hwindows
    rebuilt := hrebuilt }

/-- Every step keeps the flag right. -/
theorem Sound.step (h : m.Sound before) (hstep : m.Step x m') : m'.Sound before := by
  cases hstep with
  | outside s left =>
    have hkept := left.flagKept
    exact {
      wellFormed := hkept.wellFormed h.wellFormed
      agrees := hkept.load.trans (h.agrees.trans hkept.consistent.symm)
      unset := fun hunset => hkept.consistent.trans (h.unset hunset)
      wrote := fun hw hnot => hkept.consistent.trans (h.wrote hw hnot)
      done := fun his => hkept.consistent.trans (h.done his)
      windows := h.windows
      rebuilt := h.rebuilt
      spared := fun hw ns hns => (left.dataKept ns hns).trans (h.spared hw ns hns) }
  | cancel waiting delayed stopped =>
    exact h.idle (waiting ▸ rfl) ⟨rfl, rfl, rfl, rfl⟩ _ _
  | begin waiting =>
    exact { h with
      unset := fun hunset => nomatch hunset
      wrote := fun hw _ => h.wrote hw (waiting ▸ rfl)
      done := fun his => nomatch his
      windows := fun _ hn => Option.some.inj hn
      rebuilt := fun his => nomatch his }
  | fail attempt e =>
    exact h.idle (SyncPoint.isDone_of_isAttempt attempt) ⟨rfl, rfl, rfl, rfl⟩ _ _
  | mark marking =>
    exact h.set (marking ▸ rfl) false (fun _ => rfl) rfl (marking ▸ rfl) fun his => nomatch his
  | reset selecting =>
    exact h.keep (selecting ▸ rfl) (flagKept_checkpoint .reset) m.wrote
      (fun hw => ⟨hw, dataKept_checkpoint .reset⟩) _ rfl (selecting ▸ rfl) rfl
  | drop dropping =>
    exact h.keep (dropping ▸ rfl) m.state.flagKept_drop true (fun hw => nomatch hw) _ rfl
      (dropping ▸ rfl) rfl
  | clone cloning accepted data =>
    exact h.keep (cloning ▸ rfl) (SyncState.flagKept_clone accepted data m.state) true
      (fun hw => nomatch hw) _ rfl (cloning ▸ rfl) rfl
  | force cloning tail =>
    exact h.keep (cloning ▸ rfl) (flagKept_checkpoint (.force tail)) m.wrote
      (fun hw => ⟨hw, dataKept_checkpoint (.force tail)⟩) _ rfl (cloning ▸ rfl) rfl
  | @openWindow second reading source =>
    refine h.move (reading ▸ rfl) rfl (fun n hn => h.windows n ?_) fun his => nomatch his
    rw [reading]
    cases second <;> exact hn
  | apply applying effect =>
    -- The attempt writes while the flag is false, so it may count as having written.
    have hkept := SyncState.flagKept_effect effect
    have hfalse := h.unset (applying ▸ rfl)
    exact { h with
      wellFormed := hkept.wellFormed h.wellFormed
      agrees := hkept.load.trans h.agrees
      wrote := fun _ _ => hfalse
      spared := fun hw => nomatch hw }
  | @closeWindow second source opened y applying applied well reached =>
    -- The point behind a window says that one more was applied.
    refine h.move (applying ▸ rfl) (by cases second <;> rfl) (fun n hn => ?_)
      fun his => by cases second <;> cases his
    have hbefore := h.windows (if second then 1 else 0) (by rw [applying]; cases second <;> rfl)
    rw [hbefore]
    cases second <;> exact Option.some.inj hn
  | rebuild rebuilding =>
    exact h.move (rebuilding ▸ rfl) rfl (fun n hn => h.windows n (rebuilding ▸ hn)) fun _ => rfl
  | confirm confirming =>
    exact h.set (confirming ▸ rfl) true (fun hunset => nomatch hunset) rfl (confirming ▸ rfl)
      fun _ => h.rebuilt (confirming ▸ rfl)
  | finish confirmed =>
    exact { h with
      unset := fun hunset => nomatch hunset
      wrote := fun _ hnot => nomatch hnot
      done := fun _ => h.done (confirmed ▸ rfl)
      windows := fun n hn => h.windows n (confirmed ▸ hn)
      rebuilt := fun _ => h.rebuilt (confirmed ▸ rfl) }
  | retry failed retryable more =>
    exact h.idle (failed ▸ rfl) ⟨rfl, rfl, rfl, rfl⟩ _ _
  | giveUp failed last =>
    exact h.idle (failed ▸ rfl) ⟨rfl, rfl, rfl, rfl⟩ _ _

/-- The flag is right at every moment. -/
theorem Sound.steps (h : m.Sound before) (hsteps : m.Steps x m') : m'.Sound before := by
  induction hsteps with
  | refl => exact h
  | tail _ hstep ih => exact ih.step hstep

end SyncMoment

end Replica
