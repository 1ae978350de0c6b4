import Replica.Proofs.InitialSync.Moments
import Replica.Proofs.Pipeline.Simulation

/-!
# Runs pass through moments

What a part of a sync makes of the state, and where its result leads to, is reached by steps of the
moments (`InitialSync.Passes`). Parts one after another pass one after another (`Passes.bind`), and
so does a whole run with all its attempts (`steps_run`). So what holds at every moment holds after
every run.
-/

namespace Replica

/-! ## What happens outside -/

namespace SyncState

variable {s s' s'' : SyncState}

theorem Outside.refl (s : SyncState) : s.Outside s := ⟨rfl, rfl, rfl, rfl, id⟩

theorem Outside.trans (h : s.Outside s') (h' : s'.Outside s'') : s.Outside s'' where
  consistent := h'.consistent.trans h.consistent
  checkpoint := h'.checkpoint.trans h.checkpoint
  databases := h'.databases.trans h.databases
  nextDid := h'.nextDid.trans h.nextDid
  stopped hs := h'.stopped (h.stopped hs)

theorem outside_happen (s : SyncState) (i : Incident) : s.Outside (s.happen i) := by
  cases i with
  | stop => exact ⟨rfl, rfl, rfl, rfl, fun _ => rfl⟩
  | _ => exact ⟨rfl, rfl, rfl, rfl, id⟩

/-- Recording a call and what happens then is outside of the steps. -/
theorem outside_startCall (s : SyncState) (kind : CallKind) (argument : String) :
    s.Outside (s.startCall kind argument).2 := by
  rw [startCall_state]
  have hfold := rel_foldl_happen Outside.refl Outside.trans
    (fun i (_ : i ∈ s.due kind) s => s.outside_happen i)
    { s with calls := s.calls ++ [⟨kind, argument, s.phase⟩] }
  exact ⟨hfold.consistent, hfold.checkpoint, hfold.databases, hfold.nextDid, hfold.stopped⟩

end SyncState

namespace InitialSync

open SyncM (Keeps bind_apply)
open SyncState (Outside)
open SyncPoint (after)

variable {α β : Type} {x : InitialSync} {act : SyncM α} {f : α → SyncM β} {p q r : SyncPoint}

theorem outside_start (kind : CallKind) (argument : String) :
    Keeps Outside (start kind argument) := fun s => s.outside_startCall kind argument

theorem outside_checkStopped : Keeps Outside checkStopped := Outside.refl

theorem outside_enter (phase : SyncPhase) : Keeps Outside (enter phase) :=
  fun _ => ⟨rfl, rfl, rfl, rfl, id⟩

theorem outside_onRemote (g : Remote → Except ReplicationError α × Remote) :
    Keeps Outside (onRemote g) := fun _ => ⟨rfl, rfl, rfl, rfl, id⟩

theorem outside_begin : Keeps Outside begin := fun _ => ⟨rfl, rfl, rfl, rfl, id⟩

theorem outside_lastEntry : Keeps Outside lastEntry :=
  (outside_start _ _).bind Outside.trans fun _ =>
    (outside_onRemote _).bind Outside.trans fun _ _ => ⟨rfl, rfl, rfl, rfl, id⟩

theorem outside_scanAll (l : List Namespace) : Keeps Outside (scanAll l) := by
  induction l with
  | nil => exact Outside.refl
  | cons ns rest ih => exact (outside_start _ _).bind Outside.trans fun _ => ih

/-! ## Parts of a sync -/

/-- What a part of a sync makes of the state, and where its result leads to, is reached by steps
from every moment at a point. -/
def Passes (x : InitialSync) (act : SyncM α) (p next : SyncPoint) : Prop :=
  ∀ m : SyncMoment, m.point = p → ∃ m' : SyncMoment, m.Steps x m' ∧
    m'.state = (act m.state).2 ∧ m'.point = after (act m.state).1 next ∧ m'.number = m.number

/-- Parts one after another pass one after another. -/
theorem Passes.bind (h : x.Passes act p q) (hf : ∀ a, x.Passes (f a) q r) :
    x.Passes (act >>= f) p r := by
  intro m hm
  obtain ⟨m₁, hsteps₁, hstate₁, hpoint₁, hnumber₁⟩ := h m hm
  rw [bind_apply]
  rcases hact : act m.state with ⟨e | a, s₁⟩
  · rw [hact] at hstate₁ hpoint₁
    exact ⟨m₁, hsteps₁, hstate₁, hpoint₁, hnumber₁⟩
  · rw [hact] at hstate₁ hpoint₁
    obtain ⟨m₂, hsteps₂, hstate₂, hpoint₂, hnumber₂⟩ := hf a m₁ hpoint₁
    rw [hstate₁] at hstate₂ hpoint₂
    exact ⟨m₂, hsteps₁.trans hsteps₂, hstate₂, hpoint₂, hnumber₂.trans hnumber₁⟩

/-- What only happens outside of the steps of an attempt leaves where the attempt is, unless it
fails. -/
theorem passes_outside (hact : Keeps Outside act) (hp : p.isAttempt = true) :
    x.Passes act p p := by
  intro m hm
  have houtside := SyncMoment.Step.outside (x := x) (act m.state).2 (hact m.state)
  cases hresult : (act m.state).1 with
  | ok a => exact ⟨_, .single houtside, rfl, hm, rfl⟩
  | error e =>
    -- The failure comes behind what happens outside.
    have hfail := SyncMoment.Step.fail (x := x) (m := { m with state := (act m.state).2 })
      (by rw [← hm] at hp; exact hp) e
    exact ⟨_, (Relation.ReflTransGen.single houtside).tail hfail, rfl, rfl, rfl⟩

theorem passes_get (hp : p.isAttempt = true) : x.Passes (get : SyncM SyncState) p p :=
  passes_outside Outside.refl hp

theorem passes_checkStopped (hp : p.isAttempt = true) : x.Passes checkStopped p p :=
  passes_outside outside_checkStopped hp

theorem passes_enter (phase : SyncPhase) (hp : p.isAttempt = true) : x.Passes (enter phase) p p :=
  passes_outside (outside_enter phase) hp

theorem passes_start (kind : CallKind) (argument : String) (hp : p.isAttempt = true) :
    x.Passes (start kind argument) p p :=
  passes_outside (outside_start kind argument) hp

theorem passes_lastEntry (hp : p.isAttempt = true) : x.Passes lastEntry p p :=
  passes_outside outside_lastEntry hp

/-- Marking the member as inconsistent is a step. -/
theorem passes_unset : x.Passes (setConsistent false) .marking .selecting :=
  fun _ hm => ⟨_, .single (.mark hm), rfl, rfl, rfl⟩

/-- Rebuilding is a step, and marking the member as consistent is another. -/
theorem passes_set : x.Passes (setConsistent true) .rebuilding .confirmed := by
  intro m hm
  have hrebuild := SyncMoment.Step.rebuild (x := x) hm
  exact ⟨_, (Relation.ReflTransGen.single hrebuild).tail (.confirm rfl), rfl, rfl, rfl⟩

theorem passes_cloneDatabase {database : String}
    (h : x.pipeline.filters.acceptsDatabase database = true) :
    x.Passes (x.cloneDatabase database) .cloning .cloning := by
  refine (passes_start _ _ rfl).bind fun _ => (passes_get rfl).bind fun state m hm => ?_
  let data := state.remote.data
  have hscan := outside_scanAll (Clone.collections x.pipeline.filters data database) m.state
  have houtside := SyncMoment.Step.outside (x := x) _ hscan
  rcases hread : scanAll (Clone.collections x.pipeline.filters data database) m.state
    with ⟨e | ⟨⟩, s⟩
  · -- A collection that cannot be read fails the attempt before anything is written.
    rw [hread] at houtside
    have hfail := SyncMoment.Step.fail (x := x) (m := { m with state := s })
      (show m.point.isAttempt = true by rw [hm]; rfl) (Clone.failure database e)
    exact ⟨_, (Relation.ReflTransGen.single houtside).tail hfail, rfl, rfl, rfl⟩
  · rw [hread] at houtside
    have hclone := SyncMoment.Step.clone (x := x) (m := { m with state := s }) hm h data
    exact ⟨_, (Relation.ReflTransGen.single houtside).tail hclone, rfl, rfl, rfl⟩

theorem passes_cloneAll (databases : List String) :
    x.Passes (x.cloneAll databases) .cloning .cloning := by
  induction databases with
  | nil => exact passes_outside Outside.refl rfl
  | cons database rest ih =>
    unfold cloneAll
    dsimp only
    split_ifs with h
    · exact (passes_checkStopped rfl).bind fun _ => (passes_cloneDatabase h).bind fun _ => ih
    · exact ih

theorem passes_replaceData (tail : Mark) :
    x.Passes (x.replaceData tail) .selecting (.reading false) := by
  have hreset : x.Passes (onCheckpoint .reset) .selecting .dropping :=
    fun _ hm => ⟨_, .single (.reset hm), rfl, rfl, rfl⟩
  have hdrop : x.Passes (onStore SyncMoment.dropUsers) .dropping .cloning :=
    fun _ hm => ⟨_, .single (.drop hm), rfl, rfl, rfl⟩
  have hforce : x.Passes (onCheckpoint (.force tail)) .cloning (.reading false) :=
    fun _ hm => ⟨_, .single (.force hm tail), rfl, rfl, rfl⟩
  exact hreset.bind fun _ => hdrop.bind fun _ => (passes_start _ _ rfl).bind fun _ =>
    (passes_get rfl).bind fun _ => (passes_cloneAll _).bind fun _ => hforce

/-! ## Windows -/

/-- The effects of a window are steps. -/
theorem steps_effects {m : SyncMoment} {second : Bool} {source : Source} {opened s : Applied}
    (hm : m.point = .applying second source opened)
    (h : m.state.applied.Effects x.pipeline.filters s) :
    ∃ m' : SyncMoment, m.Steps x m' ∧ m'.state = { m.state with applied := s } ∧
      m'.point = m.point ∧ m'.number = m.number := by
  induction h with
  | refl => exact ⟨m, .refl, rfl, rfl, rfl⟩
  | tail _ heffect ih =>
    obtain ⟨m', hsteps, hstate, hpoint, hnumber⟩ := ih
    have happly := SyncMoment.Step.apply (x := x) (m := m') (hpoint.trans hm)
      (by rw [hstate]; exact heffect)
    exact ⟨_, hsteps.tail happly, by rw [hstate], hpoint, hnumber⟩

theorem passes_applyWindow (first last : Position) (second : Bool) :
    x.Passes (x.applyWindow first last) (.reading second) (.behindWindow second) := by
  refine (passes_start _ _ rfl).bind fun _ => (passes_get rfl).bind fun state m hm => ?_
  let window : Window :=
    { inner := state.remote.read first last, start := first, address := state.remote.address }
  let opened : Applied := { m.state.applied with
    work := { m.state.applied.work with cancel := { fired := m.state.stopped } } }
  obtain ⟨y, hstages, happlied, hwell⟩ :=
    Pipeline.steps_run x.pipeline .recovery {} window.toSource opened
  have heffects := Pipeline.effects_run x.pipeline .recovery {} window.toSource opened
  -- The token of the pipeline is set, and the window is opened.
  have htoken := SyncMoment.Step.outside (x := x) (m := m) { m.state with applied := opened }
    ⟨rfl, rfl, rfl, rfl, id⟩
  have hopen := SyncMoment.Step.openWindow (x := x)
    (m := { m with state := { m.state with applied := opened } }) hm window.toSource
  -- The pipeline runs.
  obtain ⟨m₁, hsteps, hstate, hpoint, hnumber⟩ := steps_effects (x := x)
    (m := { m with
      state := { m.state with applied := opened }
      point := .applying second window.toSource opened }) rfl heffects
  -- What it has executed is noted, and then the window is closed or the attempt has failed.
  let reached : SyncState := { m.state with
    applied := (x.pipeline.run .recovery {} window.toSource opened).2
    executed := m.state.executed ++
      (x.pipeline.run .recovery {} window.toSource opened).2.executed }
  have hnote := SyncMoment.Step.outside (x := x) (m := m₁) reached
    (hstate ▸ ⟨rfl, rfl, rfl, rfl, id⟩)
  have hbefore := (((Relation.ReflTransGen.single htoken).tail hopen).trans hsteps).tail hnote
  show ∃ m' : SyncMoment, m.Steps x m' ∧ m'.state = reached ∧
    m'.point = after (x.pipeline.run .recovery {} window.toSource opened).1
      (.behindWindow second) ∧ m'.number = m.number
  cases hresult : (x.pipeline.run .recovery {} window.toSource opened).1 with
  | ok _ =>
    have hclose := SyncMoment.Step.closeWindow (x := x) (m := { m₁ with state := reached }) hpoint
      hstages (hwell.1 hresult) happlied
    exact ⟨_, hbefore.tail hclose, rfl, rfl, hnumber⟩
  | error e =>
    have hfail := SyncMoment.Step.fail (x := x) (m := { m₁ with state := reached })
      (by rw [hpoint]; rfl) e
    exact ⟨_, hbefore.tail hfail, rfl, rfl, hnumber⟩

/-! ## Attempts -/

theorem passes_syncFrom : x.Passes x.syncFrom .selecting .confirmed :=
  (passes_lastEntry rfl).bind fun _ => (passes_checkStopped rfl).bind fun _ =>
    (passes_enter _ rfl).bind fun _ => (passes_replaceData _).bind fun _ =>
    (passes_checkStopped rfl).bind fun _ => (passes_enter _ rfl).bind fun _ =>
    (passes_lastEntry rfl).bind fun _ => (passes_applyWindow _ _ false).bind fun _ =>
    (passes_checkStopped rfl).bind fun _ => (passes_enter _ rfl).bind fun _ =>
    (passes_lastEntry rfl).bind fun _ => (passes_applyWindow _ _ true).bind fun _ =>
    (passes_checkStopped rfl).bind fun _ => (passes_enter _ rfl).bind fun _ =>
    (passes_start _ _ rfl).bind fun _ => passes_set

/-- Closing the connection happens outside of the steps. -/
theorem Passes.closing {act : SyncM Unit} (h : x.Passes act p q) : x.Passes (fun s =>
    let (result, s) := act s
    (result, (close s).2)) p q := by
  intro m hm
  obtain ⟨m', hsteps, hstate, hpoint, hnumber⟩ := h m hm
  have hclose := SyncMoment.Step.outside (x := x) (m := m') (close m'.state).2
    (m'.state.outside_startCall .close "")
  refine ⟨_, hsteps.tail hclose, ?_, hpoint, hnumber⟩
  show (close m'.state).2 = (close (act m.state).2).2
  rw [hstate]

/-- An attempt begins where a sync waits, and with success it leaves the member marked as
consistent. -/
theorem passes_attempt : x.Passes x.attempt .waiting .confirmed := by
  intro m hm
  have hbegin := SyncMoment.Step.begin (x := x) hm
  have hattempt : x.Passes x.attempt .marking .confirmed :=
    (passes_outside outside_begin rfl).bind fun _ => (passes_checkStopped rfl).bind fun _ =>
      (passes_enter _ rfl).bind fun _ => passes_unset.bind fun _ =>
      (passes_checkStopped rfl).bind fun _ => (passes_enter _ rfl).bind fun _ =>
      (passes_start _ _ rfl).bind fun _ =>
      (passes_outside (outside_onRemote _) rfl).bind fun _ => (passes_start _ _ rfl).bind fun _ =>
      (passes_outside (outside_onRemote _) rfl).bind fun _ => passes_syncFrom.closing
  obtain ⟨m', hsteps, hstate, hpoint, hnumber⟩ := hattempt
    { m with point := .marking, windows := 0, rebuilt := false } rfl
  exact ⟨m', (Relation.ReflTransGen.single hbegin).trans hsteps, hstate, hpoint, hnumber⟩

/-- All further attempts pass through moments up to an end. -/
theorem steps_attempts (more : Nat) (m : SyncMoment) (hm : m.point = .waiting)
    (hmore : m.number + more = max x.settings.maxAttempts 1) : ∃ m' : SyncMoment, m.Steps x m' ∧
      m'.state = (x.attempts more m.number m.state).2 ∧
      m'.point = .ended (x.attempts more m.number m.state).1 := by
  induction more generalizing m with
  | zero =>
    obtain ⟨m₁, hsteps, hstate, hpoint, hnumber⟩ := passes_attempt m hm
    unfold attempts
    split_ifs with hcancel
    · exact ⟨_, .single (.cancel hm hcancel.1 hcancel.2), rfl, rfl⟩
    · rcases hattempt : x.attempt m.state with ⟨e | ⟨⟩, s⟩
      · -- This was the last attempt.
        rw [hattempt] at hstate hpoint
        have hlast := SyncMoment.Step.giveUp (x := x) hpoint (.inr (hnumber.trans hmore))
        exact ⟨_, hsteps.tail hlast, by rw [hstate]; rfl, by rw [hnumber]; rfl⟩
      · rw [hattempt] at hstate hpoint
        exact ⟨_, hsteps.tail (.finish hpoint), by rw [hstate], by rw [hnumber]⟩
  | succ more ih =>
    obtain ⟨m₁, hsteps, hstate, hpoint, hnumber⟩ := passes_attempt m hm
    unfold attempts
    split_ifs with hcancel
    · exact ⟨_, .single (.cancel hm hcancel.1 hcancel.2), rfl, rfl⟩
    · rcases hattempt : x.attempt m.state with ⟨e | ⟨⟩, s⟩
      · rw [hattempt] at hstate hpoint
        dsimp only
        split_ifs with hretryable
        · -- There will be another attempt.
          have hmore' : m₁.number + 1 + more = max x.settings.maxAttempts 1 := by omega
          have hretry := SyncMoment.Step.retry (x := x) hpoint hretryable
            (hmore' ▸ Nat.lt_add_right more (Nat.lt_succ_self _))
          obtain ⟨m', hlater, hlast⟩ := ih
            { m₁ with point := .waiting, number := m₁.number + 1 } rfl hmore'
          dsimp only at hlast
          rw [hstate, hnumber] at hlast
          exact ⟨m', (hsteps.tail hretry).trans hlater, hlast⟩
        · have hlast := SyncMoment.Step.giveUp (x := x) hpoint
            (.inl (Bool.not_eq_true _ |>.mp hretryable))
          exact ⟨_, hsteps.tail hlast, by rw [hstate]; rfl, by rw [hnumber]; rfl⟩
      · rw [hattempt] at hstate hpoint
        exact ⟨_, hsteps.tail (.finish hpoint), by rw [hstate], by rw [hnumber]⟩

/-- Every run passes through moments, from its beginning to its end. -/
theorem steps_run (x : InitialSync) (s : SyncState) : ∃ m : SyncMoment,
    SyncMoment.Steps x { state := s } m ∧ m.state = (x.run s).2 ∧ m.point = .ended (x.run s).1 :=
  steps_attempts _ { state := s } rfl (show 1 + (max x.settings.maxAttempts 1 - 1) = _ by omega)

end InitialSync

/-! ## The flag -/

/-- The flag says at a moment what is so, the sync having begun on a store. -/
structure SyncMoment.Truthful (before : Store) (m : SyncMoment) : Prop where
  /-- The stored flag is the one in memory. -/
  agrees : Consistency.load m.state.store = m.state.consistent
  /-- From the first step that writes data of users until both windows of one attempt were applied
  and indexes were rebuilt, the flag is false. -/
  half : m.wrote = true → ¬ (m.windows = 2 ∧ m.rebuilt = true) → m.state.consistent = false
  /-- If the sync has finished, the flag is true. -/
  finished : ∀ n, m.point = .ended (.finished n) → m.state.consistent = true
  /-- If the sync was given up after such a step, the flag is false. -/
  failed : ∀ n e, m.point = .ended (.failed n e) → m.wrote = true → m.state.consistent = false
  /-- Without such a step the data of users is as before. -/
  spared : m.wrote = false → before.DataKept m.state.store

namespace SyncMoment

variable {m : SyncMoment} {before : Store}

/-- Once an attempt is done, both windows were applied and indexes were rebuilt. -/
theorem Sound.whole (h : m.Sound before) (hdone : m.point.isDone = true) :
    m.windows = 2 ∧ m.rebuilt = true := by
  cases hm : m.point with
  | confirmed => exact ⟨h.windows 2 (hm ▸ rfl), h.rebuilt (hm ▸ rfl)⟩
  | ended outcome =>
    rw [hm] at hdone
    cases outcome with
    | finished n => exact ⟨h.windows 2 (hm ▸ rfl), h.rebuilt (hm ▸ rfl)⟩
    | failed n e => cases hdone
  | _ =>
    rw [hm] at hdone
    cases hdone

theorem Sound.truthful (h : m.Sound before) : m.Truthful before where
  agrees := h.agrees
  half hw hnot := by
    cases hdone : m.point.isDone with
    | false => exact h.wrote hw hdone
    | true => exact absurd (h.whole hdone) hnot
  finished _ hm := h.done (hm ▸ rfl)
  failed _ _ hm hw := h.wrote hw (hm ▸ rfl)
  spared := h.spared

end SyncMoment

namespace InitialSync

/-- The flag is never true over half-synchronised data: it is truthful at every moment of a sync on
a well-formed store whose flag was loaded into memory, and every run passes through such moments to
its end. So the flag is true after a run that finished, and false after one that was given up and
has changed data of users. -/
theorem truthful_of_steps (x : InitialSync) (s : SyncState) (hs : s.store.WellFormed)
    (hload : s.consistent = Consistency.load s.store) :
    (∀ m, SyncMoment.Steps x { state := s } m → m.Truthful s.store) ∧
    (∃ m, SyncMoment.Steps x { state := s } m ∧ m.state = (x.run s).2 ∧
      m.point = .ended (x.run s).1) ∧
    (∀ n, (x.run s).1 = .finished n →
      (x.run s).2.consistent = true ∧ Consistency.load (x.run s).2.store = true) ∧
    (∀ n e, (x.run s).1 = .failed n e → ¬ s.store.DataKept (x.run s).2.store →
      (x.run s).2.consistent = false ∧ Consistency.load (x.run s).2.store = false) := by
  have hall : ∀ m, SyncMoment.Steps x { state := s } m → m.Truthful s.store :=
    fun m hm => ((SyncMoment.sound_start hs hload).steps hm).truthful
  obtain ⟨m, hsteps, hstate, hpoint⟩ := steps_run x s
  have hlast := hall m hsteps
  have hagrees := hlast.agrees
  refine ⟨hall, ⟨m, hsteps, hstate, hpoint⟩, fun n hn => ?_, fun n e hn hchanged => ?_⟩
  · have hflag := hlast.finished n (hn ▸ hpoint)
    rw [← hstate, hagrees]
    exact ⟨hflag, hflag⟩
  · -- Data of users changed only if some attempt began to write, and the flag was cleared first.
    rw [← hstate] at hchanged ⊢
    have hwrote : m.wrote = true := Bool.not_eq_false _ |>.mp fun hw => hchanged (hlast.spared hw)
    have hflag := hlast.failed n e (hn ▸ hpoint) hwrote
    rw [hagrees]
    exact ⟨hflag, hflag⟩

/-- A member that counts as consistent and holds a document of its own. -/
def settled : Store :=
  (Consistency.set true false
    (Store.empty.seed ⟨"shop", "orders"⟩ [.obj [("_id", .int 1)]]).2).2.2

/-- The source forgets the start of the first window when it is read. -/
def forgetful : SyncState where
  remote :=
    { address := "a:1"
      log := [⟨⟨1, 1⟩, 11, ⟨"shop", "orders"⟩, .insert (.obj [("_id", .int 2)])⟩] }
  applied := { work := { store := settled }, checkpoint := ⟨.initial, 1⟩ }
  consistent := true
  incidents := [⟨.window, 1, .truncateBefore ⟨2, 1⟩⟩]

theorem truthful_of_steps_forgetful :
    let x : InitialSync := { settings := { maxAttempts := 1 } }
    Consistency.load settled = true ∧
      (x.run forgetful).1 = .failed 1 (.windowMissing "a:1" ⟨1, 1⟩) ∧
      (x.run forgetful).2.consistent = false ∧
      Consistency.load (x.run forgetful).2.store = false := by
  intro x
  have hload : Consistency.load settled = true := by decide +kernel
  have hrun : (x.run forgetful).1 = .failed 1 (.windowMissing "a:1" ⟨1, 1⟩) := by decide +kernel
  have hwellFormed : settled.WellFormed :=
    Consistency.wellFormed_set (Store.Reachable.empty.wellFormed.commit _)
  have hchanged : ¬ forgetful.store.DataKept (x.run forgetful).2.store := fun h => by
    have hcount := congrArg (fun c => c.contents.length) (h ⟨"shop", "orders"⟩ (by decide))
    revert hcount
    decide +kernel
  obtain ⟨-, -, -, hfailed⟩ := truthful_of_steps x forgetful hwellFormed hload.symm
  exact ⟨hload, hrun, hfailed 1 _ hrun hchanged⟩

end InitialSync

end Replica
