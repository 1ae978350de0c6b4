import Replica.Proofs.InitialSync.Frame
import Replica.Proofs.Log
import Replica.Proofs.Pipeline.Runs
import Replica.Proofs.Window

/-!
# What an initial sync executes

An attempt copies the data of its source and then replays two windows of its log: the one from the
tail that was read before the copy to the tail behind it, and the one from there to the tail by
then. Each window is served with the entry at its start in front, and leaves it out
(`applyWindow_eq_ok`). So over a log with ascending positions that stays as it is, the two windows
meet without a gap and without an overlap: what a sync that finished has executed in its last
attempt are the entries behind its first tail up to its third one (`executed_of_finished`), whatever
failed before and wherever the tails lie.
-/

namespace Replica.InitialSync

open SyncM (Keeps)
open SyncState (Frame SameLog)

variable {x : InitialSync} {s s' : SyncState} {tail : Entry} {mark : Mark} {first last : Position}
  {request : CheckpointCall}

/-! ## The steps that the frame leaves out -/

/-- The tail that was read is an entry of the log. -/
theorem mem_of_lastEntry {r r' : Remote} (h : r.lastEntry = (.ok tail, r')) : tail ∈ r.log := by
  unfold Remote.lastEntry at h
  cases htails : r.tails with
  | nil =>
    -- No tail was chosen: it is the newest entry.
    simp only [htails] at h
    cases hfound : r.log.getLast? with
    | none =>
      rw [hfound] at h
      cases congrArg Prod.fst h
    | some e =>
      rw [hfound] at h
      obtain rfl : e = tail := Except.ok.inj (Prod.mk.inj h).1
      exact List.mem_of_getLast? hfound
  | cons p rest =>
    -- A tail was chosen by its position.
    simp only [htails] at h
    cases hfound : r.log.find? fun e => e.position == p with
    | none =>
      rw [hfound] at h
      cases congrArg Prod.fst h
    | some e =>
      rw [hfound] at h
      obtain rfl : e = tail := Except.ok.inj (Prod.mk.inj h).1
      exact List.mem_of_find?_eq_some hfound

/-- Reading a tail notes it. -/
theorem lastEntry_eq_ok (hs : s.KeepsLog) (h : lastEntry s = (.ok tail, s')) :
    tail ∈ s.remote.log ∧ s'.tails = s.tails ++ [tail] ∧ s'.executed = s.executed ∧
      s'.applied.checkpoint = s.applied.checkpoint := by
  obtain ⟨⟨⟩, s₁, hstart, h⟩ := (keeps_start _ _).of_bind h
  obtain ⟨found, s₂, hread, hnote⟩ := SyncM.bind_eq_ok h
  have hframe := hstart.trans ((keeps_onRemote log_lastEntry).of_eq hread)
  obtain ⟨hfound, -⟩ := Prod.mk.inj hread
  obtain ⟨hok, rfl⟩ := Prod.mk.inj hnote
  obtain rfl : found = tail := Except.ok.inj hok
  refine ⟨?_, congrArg (· ++ [found]) hframe.tails, hframe.executed, hframe.checkpoint⟩
  rw [← hstart.log hs]
  exact mem_of_lastEntry (Prod.ext hfound rfl)

/-- Moving the checkpoint by force brings it there. -/
theorem onCheckpoint_eq_ok (h : onCheckpoint (.force mark) s = (.ok (), s')) :
    s'.tails = s.tails ∧ s'.executed = s.executed ∧ s'.applied.checkpoint.current = mark := by
  unfold onCheckpoint at h
  rcases hrun : (CheckpointCall.force mark).run s.applied.checkpoint s.store with ⟨result, c, store⟩
  rw [hrun] at h
  obtain ⟨rfl, rfl⟩ := Prod.mk.inj h
  refine ⟨rfl, rfl, ?_⟩
  show c.current = mark
  rw [(Checkpoint.force_eq_ok hrun).1]

/-- Replacing the data by a copy brings the checkpoint to the tail from before the copy. -/
theorem replaceData_eq_ok (h : x.replaceData mark s = (.ok (), s')) :
    s'.tails = s.tails ∧ s'.executed = s.executed ∧ s'.applied.checkpoint.current = mark := by
  obtain ⟨⟨⟩, s₁, hreset, h⟩ := SyncM.bind_eq_ok h
  -- The reset moves the checkpoint, and what lies between it and the last step leaves it.
  obtain ⟨-, rfl⟩ := Prod.mk.inj hreset
  obtain ⟨⟨⟩, s₂, hdrop, h⟩ := (keeps_onStore _).of_bind h
  obtain ⟨⟨⟩, s₃, hlist, h⟩ := (keeps_start _ _).of_bind h
  obtain ⟨state, s₄, hget, h⟩ := keeps_get.of_bind h
  obtain ⟨⟨⟩, s₅, hclone, h⟩ := (keeps_cloneAll x _).of_bind h
  have hframe := (hdrop.trans hlist).trans (hget.trans hclone)
  obtain ⟨htails, hexecuted, hcheckpoint⟩ := onCheckpoint_eq_ok h
  exact ⟨htails.trans hframe.tails, hexecuted.trans hframe.executed, hcheckpoint⟩

/-- Reading a tail and replacing the data by a copy notes the tail, executes nothing, and brings the
checkpoint to that tail. -/
theorem copy_eq_ok {s₁ s₂ : SyncState} (hs : s.KeepsLog) (hread : lastEntry s = (.ok tail, s₁))
    (hbetween : s₁.Frame s₂) (h : x.replaceData tail.mark s₂ = (.ok (), s')) :
    s.SameLog s' ∧ tail ∈ s.remote.log ∧ s'.tails = s.tails ++ [tail] ∧
      s'.executed = s.executed ∧ s'.applied.checkpoint.current = tail.mark := by
  obtain ⟨hmem, htails, hexecuted, -⟩ := lastEntry_eq_ok hs hread
  obtain ⟨htails', hexecuted', hmark⟩ := replaceData_eq_ok h
  have hsame := ((keeps_lastEntry.of_eq hread).trans hbetween.toSameLog).trans
    ((keeps_replaceData x _).of_eq h)
  refine ⟨hsame, hmem, ?_, ?_, hmark⟩
  · rw [htails', hbetween.tails, htails]
  · rw [hexecuted', hbetween.executed, hexecuted]

/-- A window that is applied with success executes what lies behind its start and up to its end and
is replicated, in parts, in order and once, and brings the checkpoint to the last entry there. -/
theorem applyWindow_eq_ok (hlog : Log.Ascending s.remote.log) (hs : s.KeepsLog)
    (h : x.applyWindow first last s = (.ok (), s')) :
    first ≤ last ∧ s'.tails = s.tails ∧
      ∃ (cuts : List (List Entry)) (readings : List (List Batch)),
        cuts.flatten =
          (Log.after s.remote.log first last).filter x.pipeline.filters.acceptsEntry ∧
        cuts.map (Batch.ofEntries .recovery) = readings.map .ok ∧
        s'.executed = s.executed ++ readings.flatten ∧
        s'.applied.checkpoint.current =
          ((Log.after s.remote.log first last).getLast?.map Entry.mark).getD
            s.applied.checkpoint.current := by
  obtain ⟨⟨⟩, s₁, hstart, h⟩ := (keeps_start _ _).of_bind h
  obtain ⟨state, s₂, hget, h⟩ := SyncM.bind_eq_ok h
  obtain ⟨hstate, rfl⟩ := Prod.mk.inj hget
  obtain rfl : s₁ = state := Except.ok.inj hstate
  dsimp only at h
  generalize hrun : x.pipeline.run .recovery {} _ _ = answer at h
  obtain ⟨result, applied⟩ := answer
  obtain ⟨rfl, rfl⟩ := Prod.mk.inj h
  obtain ⟨hends, cuts, readings, hcuts, hread, hexecuted, hmark⟩ := Pipeline.run_eq_ok hrun
  -- A run that succeeds has come to the end of its window, so the window begins with its start.
  obtain ⟨a, rest, hwindow, hposition, bs, hbs, hentries, hall⟩ := Window.of_endsWell _ _ _ _ hends
  have hrest : rest = Log.after s.remote.log first last := by
    rw [← hstart.log hs] at hlog ⊢
    exact Log.window_eq_cons hlog hwindow hposition
  have hbounds : first ≤ last := by
    have hmem : a ∈ s₁.remote.window first last := hwindow ▸ List.mem_cons_self ..
    simp only [Remote.window, List.mem_filter, Bool.and_eq_true, decide_eq_true_eq] at hmem
    exact hmem.2.1.trans hmem.2.2
  rw [← hrest]
  refine ⟨hbounds, hstart.tails, cuts, readings, ?_, hread, ?_, ?_⟩
  · rw [hcuts, ← hentries]
    exact congrArg _ (congrArg _ hbs)
  · show s₁.executed ++ applied.executed = _
    rw [hstart.executed, hexecuted]
  · show applied.checkpoint.current = _
    rw [hmark, ← hentries, ← RawBatch.lastMark_ofEntries hall, ← hstart.checkpoint]
    exact congrArg (fun bs => (RawBatch.lastMark bs).getD s₁.applied.checkpoint.current) hbs

/-- Reading a tail and applying the window up to it, from an entry that the checkpoint is at, brings
the checkpoint to that tail. -/
theorem window_eq_ok {previous : Entry} {s₁ : SyncState} (hlog : Log.Ascending s.remote.log)
    (hs : s.KeepsLog) (hprevious : previous ∈ s.remote.log)
    (hmark : s.applied.checkpoint.current = previous.mark) (hread : lastEntry s = (.ok tail, s₁))
    (hwindow : x.applyWindow previous.position tail.position s₁ = (.ok (), s')) :
    s.SameLog s' ∧ tail ∈ s.remote.log ∧ previous.position ≤ tail.position ∧
      s'.tails = s.tails ++ [tail] ∧ s'.applied.checkpoint.current = tail.mark ∧
      ∃ (cuts : List (List Entry)) (readings : List (List Batch)),
        cuts.flatten = (Log.after s.remote.log previous.position tail.position).filter
          x.pipeline.filters.acceptsEntry ∧
        cuts.map (Batch.ofEntries .recovery) = readings.map .ok ∧
        s'.executed = s.executed ++ readings.flatten := by
  obtain ⟨hmem, htails, hexecuted, hcheckpoint⟩ := lastEntry_eq_ok hs hread
  have hsame := keeps_lastEntry.of_eq hread
  have hkept := hsame.trans ((keeps_applyWindow x _ _).of_eq hwindow)
  have hlog₁ : s₁.remote.log = s.remote.log := hsame.log hs
  obtain ⟨hle, htails', cuts, readings, hcuts, hreadings, hexecuted', hmark'⟩ :=
    applyWindow_eq_ok (hlog₁ ▸ hlog) (hsame.keepsLog hs) hwindow
  rw [hlog₁] at hcuts hmark'
  refine ⟨hkept, hmem, hle, htails'.trans htails, ?_, cuts, readings, hcuts, hreadings,
    hexecuted ▸ hexecuted'⟩
  rw [hmark', hcheckpoint, hmark]
  exact Log.mark_after hlog hprevious hmem hle

/-! ## The two windows of an attempt -/

/-- An attempt has read three tails of a log and executed what is replicated of the log behind the
first of them up to the third one. -/
structure Covers (x : InitialSync) (log : List Entry) (s : SyncState) (first second third : Entry)
    (cuts : List (List Entry)) (readings : List (List Batch)) : Prop where
  /-- These are the tails that were read. -/
  tails : s.tails = [first, second, third]
  /-- They are entries of the log. -/
  mem : first ∈ log ∧ second ∈ log ∧ third ∈ log
  /-- They do not move back. -/
  le : first.position ≤ second.position ∧ second.position ≤ third.position
  /-- The parts that were executed are what is replicated behind the first tail up to the third
  one, in order and once. -/
  entries : cuts.flatten =
    (Log.after log first.position third.position).filter x.pipeline.filters.acceptsEntry
  /-- What each of the parts is read as. -/
  read : cuts.map (Batch.ofEntries .recovery) = readings.map .ok
  /-- This is what was executed. -/
  executed : s.executed = readings.flatten
  /-- The checkpoint is at the third tail. -/
  mark : s.applied.checkpoint.current = third.mark

variable {log : List Entry} {first second third : Entry} {cuts : List (List Entry)}
  {readings : List (List Batch)}

theorem Covers.of_frame (h : x.Covers log s first second third cuts readings) (hs : s.Frame s') :
    x.Covers log s' first second third cuts readings :=
  { h with
    tails := hs.tails.trans h.tails
    executed := hs.executed.trans h.executed
    mark := hs.checkpoint ▸ h.mark }

/-- Synchronising with a source, with success, covers its log from the first tail to the third
one. -/
theorem covers_syncFrom (hlog : Log.Ascending s.remote.log) (hs : s.KeepsLog)
    (htails : s.tails = []) (hexecuted : s.executed = []) (h : x.syncFrom s = (.ok (), s')) :
    ∃ first second third cuts readings,
      x.Covers s.remote.log s' first second third cuts readings := by
  -- The tail from before the copy, and the copy.
  obtain ⟨first, s₁, hfirst, h⟩ := SyncM.bind_eq_ok h
  obtain ⟨⟨⟩, s₂, hcheck₂, h⟩ := keeps_checkStopped.of_bind h
  obtain ⟨⟨⟩, s₃, henter₃, h⟩ := (keeps_enter _).of_bind h
  obtain ⟨⟨⟩, s₄, hreplace, h⟩ := SyncM.bind_eq_ok h
  obtain ⟨⟨⟩, s₅, hcheck₅, h⟩ := keeps_checkStopped.of_bind h
  obtain ⟨⟨⟩, s₆, henter₆, h⟩ := (keeps_enter _).of_bind h
  -- The first window.
  obtain ⟨second, s₇, hsecond, h⟩ := SyncM.bind_eq_ok h
  obtain ⟨⟨⟩, s₈, hwindow₁, h⟩ := SyncM.bind_eq_ok h
  obtain ⟨⟨⟩, s₉, hcheck₉, h⟩ := keeps_checkStopped.of_bind h
  obtain ⟨⟨⟩, s₁₀, henter₁₀, h⟩ := (keeps_enter _).of_bind h
  -- The second window.
  obtain ⟨third, s₁₁, hthird, h⟩ := SyncM.bind_eq_ok h
  obtain ⟨⟨⟩, s₁₂, hwindow₂, h⟩ := SyncM.bind_eq_ok h
  obtain ⟨⟨⟩, s₁₃, hcheck₁₃, h⟩ := keeps_checkStopped.of_bind h
  obtain ⟨⟨⟩, s₁₄, henter₁₄, h⟩ := (keeps_enter _).of_bind h
  obtain ⟨⟨⟩, s₁₅, hrebuild, h⟩ := (keeps_start _ _).of_bind h
  have hconfirm : s₁₅.Frame s' := (keeps_setConsistent true).of_eq h
  have hcloning := hcheck₂.trans henter₃
  have hcopied := hcheck₅.trans henter₆
  have happlied := hcheck₉.trans henter₁₀
  have hended := ((hcheck₁₃.trans henter₁₄).trans hrebuild).trans hconfirm
  -- Behind the copy the checkpoint is at the first tail, and nothing is executed.
  obtain ⟨hsame₄, hmem₁, htails₄, hexecuted₄, hmark₄⟩ := copy_eq_ok hs hfirst hcloning hreplace
  have hcopy : s.SameLog s₆ := hsame₄.trans hcopied.toSameLog
  have htails₆ : s₆.tails = [first] := by rw [hcopied.tails, htails₄, htails, List.nil_append]
  have hexecuted₆ : s₆.executed = [] := by rw [hcopied.executed, hexecuted₄, hexecuted]
  have hmark₆ : s₆.applied.checkpoint.current = first.mark := by rw [hcopied.checkpoint, hmark₄]
  -- The first window brings it to the second tail.
  have hlog₆ := hcopy.log hs
  obtain ⟨hsame₈, hmem₂, hle₁, htails₈, hmark₈, cuts₁, readings₁, hcuts₁, hread₁, hexecuted₈⟩ :=
    window_eq_ok (hlog₆ ▸ hlog) (hcopy.keepsLog hs) (hlog₆ ▸ hmem₁) hmark₆ hsecond hwindow₁
  have hfirstWindow : s.SameLog s₁₀ := (hcopy.trans hsame₈).trans happlied.toSameLog
  -- The second one brings it to the third tail.
  have hlog₁₀ := hfirstWindow.log hs
  rw [hlog₆] at hmem₂ hcuts₁
  obtain ⟨-, hmem₃, hle₂, htails₁₂, hmark₁₂, cuts₂, readings₂, hcuts₂, hread₂, hexecuted₁₂⟩ :=
    window_eq_ok (hlog₁₀ ▸ hlog) (hfirstWindow.keepsLog hs) (hlog₁₀ ▸ hmem₂)
      (by rw [happlied.checkpoint, hmark₈]) hthird hwindow₂
  rw [hlog₁₀] at hmem₃ hcuts₂
  refine ⟨first, second, third, cuts₁ ++ cuts₂, readings₁ ++ readings₂, ?_⟩
  exact {
    tails := by
      rw [hended.tails, htails₁₂, happlied.tails, htails₈, htails₆]
      rfl
    mem := ⟨hmem₁, hmem₂, hmem₃⟩
    le := ⟨hle₁, hle₂⟩
    entries := by
      rw [List.flatten_append, hcuts₁, hcuts₂, ← List.filter_append,
        Log.after_append hlog hle₁ hle₂]
    read := by rw [List.map_append, List.map_append, hread₁, hread₂]
    executed := by
      rw [hended.executed, hexecuted₁₂, happlied.executed, hexecuted₈, hexecuted₆,
        List.nil_append, List.flatten_append]
    mark := by rw [hended.checkpoint, hmark₁₂] }

/-- An attempt that succeeds covers the log of its source from its first tail to its third one. -/
theorem covers_attempt (hlog : Log.Ascending s.remote.log) (hs : s.KeepsLog)
    (h : x.attempt s = (.ok (), s')) : ∃ first second third cuts readings,
      x.Covers s.remote.log s' first second third cuts readings := by
  obtain ⟨⟨⟩, s₁, hbegin, h⟩ := SyncM.bind_eq_ok h
  -- What an attempt before has read and executed is forgotten.
  obtain ⟨-, rfl⟩ := Prod.mk.inj hbegin
  obtain ⟨⟨⟩, s₂, hcheck₂, h⟩ := keeps_checkStopped.of_bind h
  obtain ⟨⟨⟩, s₃, henter₃, h⟩ := (keeps_enter _).of_bind h
  obtain ⟨⟨⟩, s₄, hunset, h⟩ := (keeps_setConsistent _).of_bind h
  obtain ⟨⟨⟩, s₅, hcheck₅, h⟩ := keeps_checkStopped.of_bind h
  obtain ⟨⟨⟩, s₆, henter₆, h⟩ := (keeps_enter _).of_bind h
  obtain ⟨⟨⟩, s₇, hselect, h⟩ := (keeps_start _ _).of_bind h
  obtain ⟨address, s₈, hselected, h⟩ := (keeps_onRemote log_select).of_bind h
  obtain ⟨⟨⟩, s₉, hconnect, h⟩ := (keeps_start _ _).of_bind h
  obtain ⟨⟨⟩, s₁₀, hconnected, h⟩ := (keeps_onRemote fun r => log_connect r _).of_bind h
  have hframe := (((((((hcheck₂.trans henter₃).trans hunset).trans hcheck₅).trans henter₆).trans
    hselect).trans hselected).trans hconnect).trans hconnected
  rcases hsync : x.syncFrom s₁₀ with ⟨result, s₁₁⟩
  rw [hsync] at h
  obtain ⟨rfl, rfl⟩ := Prod.mk.inj h
  have hlog₁₀ := hframe.log hs
  obtain ⟨first, second, third, cuts, readings, hcovers⟩ :=
    covers_syncFrom (hlog₁₀ ▸ hlog) (hframe.toSameLog.keepsLog hs) hframe.tails hframe.executed
      hsync
  rw [hlog₁₀] at hcovers
  exact ⟨first, second, third, cuts, readings, hcovers.of_frame (keeps_close s₁₁)⟩

/-- Recovery leaves no gap and no overlap: over a log with ascending positions that stays as it is,
a sync that finished has executed in its last attempt what is replicated of the log behind the first
tail of that attempt up to the third one, in order and once, and its checkpoint is at the third
tail. -/
theorem executed_of_finished (x : InitialSync) {n : Nat} (s s' : SyncState)
    (hlog : Log.Ascending s.remote.log) (hs : s.KeepsLog) (h : x.run s = (.finished n, s')) :
    ∃ first second third cuts readings,
      x.Covers s.remote.log s' first second third cuts readings := by
  obtain ⟨s₀, s₁, hbefore, hattempt, rfl⟩ := attempt_of_attempts h
  have hlog₀ := hbefore.log hs
  obtain ⟨first, second, third, cuts, readings, hcovers⟩ :=
    covers_attempt (hlog₀ ▸ hlog) (hbefore.keepsLog hs) hattempt
  rw [hlog₀] at hcovers
  have hended : s₁.Frame { s₁ with phase := .finished } := ⟨⟨fun _ => rfl, rfl⟩, rfl, rfl, rfl⟩
  exact ⟨first, second, third, cuts, readings, hcovers.of_frame hended⟩

/-- A source with five entries in its log, one of which is not replicated, that reports the third
entry twice as its tail; the first connection to it is refused. -/
def orders : SyncState where
  remote :=
    { address := "a:1"
      log := [⟨⟨1, 1⟩, 11, ⟨"shop", "orders"⟩, .insert (.obj [("_id", .int 1)])⟩,
        ⟨⟨1, 2⟩, 12, ⟨"shop", "orders"⟩, .insert (.obj [("_id", .int 2)])⟩,
        ⟨⟨1, 3⟩, 13, ⟨"logs", "events"⟩, .insert (.obj [("_id", .int 1)])⟩,
        ⟨⟨2, 1⟩, 21, ⟨"shop", "orders"⟩, .delete (.int 1)⟩,
        ⟨⟨2, 2⟩, 22, ⟨"shop", "orders"⟩, .insert (.obj [("_id", .int 3)])⟩]
      tails := [⟨1, 1⟩, ⟨2, 1⟩, ⟨2, 1⟩]
      refusedConnections := 1 }
  applied := { work := { store := .empty }, checkpoint := ⟨⟨99, ⟨9, 9⟩⟩, 1⟩ }

/-- Executes what is replicated of all databases but `logs`. -/
def withoutLogs : InitialSync where
  pipeline := { filters := ({} : Filters).excludeDatabase "logs" }

theorem executed_of_finished_orders :
    Log.Ascending orders.remote.log ∧ orders.KeepsLog ∧
      (withoutLogs.run orders).1 = .finished 2 ∧ ∃ first second third cuts readings,
        withoutLogs.Covers orders.remote.log (withoutLogs.run orders).2 first second third cuts
          readings := by
  have hlog : Log.Ascending orders.remote.log := by
    unfold Log.Ascending
    decide +kernel
  have hs : orders.KeepsLog := fun _ h => nomatch h
  have hrun : (withoutLogs.run orders).1 = .finished 2 := by decide +kernel
  have hpair : withoutLogs.run orders = (.finished 2, (withoutLogs.run orders).2) := by rw [← hrun]
  exact ⟨hlog, hs, hrun, executed_of_finished withoutLogs orders _ hlog hs hpair⟩

end Replica.InitialSync
