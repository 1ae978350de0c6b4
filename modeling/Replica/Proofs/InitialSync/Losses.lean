import Replica.Proofs.InitialSync.Twins

/-!
# Commits that an initial sync loses

A refused commit of the copy is not tried again: the attempt fails with an error after which the
sync is attempted once more. What the lost attempt has changed does not matter to the next one: the
values of the checkpoint and the flag, and the databases of users, which are dropped first
(`SyncState.SameStart`). So a step that is compared on two stores of one history has the same
outcome on both, or it is lost on the second one in such a state (`InitialSync.Tracks`). This is so
of each commit to the databases of users (`tracks_onStore`), of each database that is cloned, and by
induction of the whole copy (`tracks_replaceData`).
-/

namespace Replica

variable {α β : Type} {k : Option Nat} {made n : Nat} {copied copied' : Prop}

/-! ## Where an attempt finds the same -/

/-- In a store without faults the checkpoint moves when its row is saved. -/
theorem Checkpoint.save_of_force {c c' : Checkpoint} {m : Mark} {s s' : Store} (hs : s.Healthy)
    (h : c.force m s = (.ok (), c', s')) :
    c' = { c with current := m } ∧ row.save (content m) s = (.ok (), s') := by
  unfold force at h
  rw [store_of_healthy hs] at h
  rcases hsave : row.save (content m) s with ⟨e | ⟨⟩, s₁⟩ <;> rw [hsave] at h
  · cases congrArg Prod.fst h
  · obtain ⟨-, rfl, rfl⟩ := h
    exact ⟨rfl, rfl⟩

theorem ExecutorMetrics.SameWork.trans {m m' m'' : ExecutorMetrics} (h : m.SameWork m')
    (h' : m'.SameWork m'') : m.SameWork m'' := by
  obtain ⟨_, rfl⟩ := h
  obtain ⟨n, rfl⟩ := h'
  exact ⟨n, rfl⟩

namespace SyncState

variable {s a a₁ b : SyncState} {store : Store}

theorem Twin.imp (h : Twin k made copied a b) (himp : copied' → copied) :
    Twin k made copied' a b :=
  { h with store := h.store.imp himp, current := fun hcopied => h.current (himp hcopied) }

theorem Twin.later (h : Twin k made copied a b) (hn : n ≤ made) : Twin k n copied a b :=
  { h with store := { h.store with counted := hn.trans h.store.counted } }

/-- Once the commit with the number was made it does not matter which one it was. -/
theorem Twin.past (h : Twin none made copied a b) (hn : n < a.store.commits) :
    Twin (some n) made copied a b :=
  { h with store := h.store.past hn }

/-- A sync without faults is its own twin. -/
theorem Twin.self (h : Twin k made copied a b) (hn : n ≤ a.store.commits) :
    Twin none n True a a where
  store := h.store.self hn
  metrics := ⟨_, rfl⟩
  remote := rfl
  data := h.data
  quiet := h.quiet
  quiet' := h.quiet
  stopped := rfl
  attempts := h.attempts
  equally := rfl
  current _ := rfl

/-- An attempt finds the same in two states: the same source, and stores that match up to what it
replaces. -/
abbrev SameStart (s a : SyncState) : Prop := Twin none 0 False s a

theorem SameStart.trans (h : SameStart s a) (h' : Twin none made copied a b) : SameStart s b where
  store := h.store.trans h'.store
  metrics := h.metrics.trans h'.metrics
  remote := h'.remote.trans h.remote
  data := h.data
  quiet := h.quiet
  quiet' := h'.quiet'
  stopped := h'.stopped.trans h.stopped
  attempts := h.attempts
  equally := h'.equally.trans h.equally
  current := False.elim

/-- Neither the store nor the source was touched. -/
structure Untouched (a a₁ : SyncState) : Prop where
  /-- What was applied is the same. -/
  applied : a₁.applied = a.applied
  /-- The source is the same. -/
  remote : a₁.remote = a.remote
  /-- What is going to happen is the same. -/
  incidents : a₁.incidents = a.incidents
  /-- Whether it was told to stop is the same. -/
  stopped : a₁.stopped = a.stopped

theorem SameStart.untouched (h : SameStart s a) (hsame : a.Untouched a₁) : SameStart s a₁ := by
  obtain ⟨remote, applied⟩ := a
  obtain ⟨remote₁, applied₁⟩ := a₁
  obtain ⟨rfl, rfl, rfl, rfl⟩ := hsame
  exact { h with }

/-- A change of the store beside which the rows are left does not matter. -/
theorem SameStart.setStore (h : SameStart s a) (hmatches : a.store.Matches False store)
    (hhealthy : store.Healthy) : SameStart s (a.setStore store) :=
  have hstore : a.store.Twin none 0 False store :=
    { hmatches with
      healthy := ⟨h.store.owes, h.store.failing⟩
      failing := hhealthy.failing
      owes := hhealthy.refused
      counted := Nat.zero_le _ }
  { h with store := h.store.trans hstore }

/-- Saving a row does not matter. -/
theorem SameStart.save {row : StateRow} {content : Json.Members} {store : Store}
    (h : SameStart s a) (hrow : row ∈ stateRows)
    (hcontent : (idField :: content.map Prod.fst).Nodup)
    (hsave : row.save content a.store = (.ok (), store)) : SameStart s (a.setStore store) := by
  obtain ⟨hwf, hrows, -⟩ := Store.kept_save h.store.right hrow hcontent hsave
  have hhealthy := Store.Healthy.commit ⟨h.store.owes, h.store.failing⟩
    (row.writes content a.store)
  rw [show a.store.commit (row.writes content a.store) = _ from hsave] at hhealthy
  exact h.setStore ⟨h.store.right, hwf, hrows, False.elim⟩ hhealthy

/-- A commit to databases of users does not matter. -/
theorem SameStart.commit {t : Transaction} {store : Store} (h : SameStart s a)
    (ht : ∀ w ∈ t, ¬ IsOwn w.database) (hcommit : a.store.commit t = (.ok (), store)) :
    SameStart s (a.setStore store) := by
  have hhealthy := Store.Healthy.commit ⟨h.store.owes, h.store.failing⟩ t
  rw [hcommit] at hhealthy
  have hself : a.store.Matches False a.store :=
    ⟨h.store.right, h.store.right, fun row _ => .refl row _, False.elim⟩
  exact h.setStore (hself.commit (t := []) (by simp) ht rfl hcommit False.elim) hhealthy

/-- The state once the source was asked for the tail of its log. -/
def answered (s : SyncState) : SyncState := { s with remote := s.remote.lastEntry.2 }

end SyncState

namespace InitialSync

open SyncState (Twin SameStart Untouched)

variable {x : InitialSync} {s a a₁ b : SyncState}

/-- A step that succeeds leaves what a new attempt would find. -/
def Renewable (m : SyncM α) : Prop :=
  ∀ s a x a₁, SameStart s a → m a = (.ok x, a₁) → SameStart s a₁

theorem renewable_of_untouched {m : SyncM α}
    (h : ∀ a x a₁, a.incidents = [] → m a = (.ok x, a₁) → a.Untouched a₁) : Renewable m :=
  fun _ a x a₁ hstart hok => hstart.untouched (h a x a₁ hstart.quiet' hok)

theorem renewable_start (kind : CallKind) (argument : String) :
    Renewable (start kind argument) :=
  renewable_of_untouched fun a x a₁ hquiet hok => by
    rw [start, SyncState.startCall_of_quiet hquiet] at hok
    obtain ⟨-, rfl⟩ := Prod.mk.inj hok
    exact ⟨rfl, rfl, rfl, rfl⟩

theorem renewable_checkStopped : Renewable checkStopped :=
  renewable_of_untouched fun _ _ _ _ hok => by
    obtain ⟨-, rfl⟩ := Prod.mk.inj hok
    exact ⟨rfl, rfl, rfl, rfl⟩

theorem renewable_enter (phase : SyncPhase) : Renewable (enter phase) :=
  renewable_of_untouched fun _ _ _ _ hok => by
    obtain ⟨-, rfl⟩ := Prod.mk.inj hok
    exact ⟨rfl, rfl, rfl, rfl⟩

/-- A question to the source does not matter if an answer leaves the source as it was. -/
theorem renewable_onRemote {f : Remote → Except ReplicationError α × Remote}
    (hf : ∀ r x r₁, f r = (.ok x, r₁) → r₁ = r) : Renewable (onRemote f) :=
  renewable_of_untouched fun a x a₁ _ hok => by
    rcases hanswer : f a.remote with ⟨result, remote⟩
    simp only [onRemote, hanswer] at hok
    obtain ⟨rfl, rfl⟩ := Prod.mk.inj hok
    exact ⟨rfl, hf _ _ _ hanswer, rfl, rfl⟩

theorem renewable_select : Renewable (onRemote Remote.select) :=
  renewable_onRemote fun r x r₁ hok => by
    unfold Remote.select at hok
    split at hok
    · exact (Prod.mk.inj hok).2.symm
    · cases congrArg Prod.fst hok

theorem renewable_connect (address : String) : Renewable (onRemote fun r => r.connect address) :=
  renewable_onRemote fun r x r₁ hok => by
    unfold Remote.connect at hok
    split_ifs at hok
    · cases congrArg Prod.fst hok
    · split at hok
      · exact (Prod.mk.inj hok).2.symm
      · cases congrArg Prod.fst hok

/-- Setting the flag leaves what a new attempt would find. -/
theorem renewable_setConsistent (value : Bool) : Renewable (setConsistent value) := by
  intro s a x a₁ h hok
  rcases hsave : Consistency.row.save [("value", .bool value)] a.store with ⟨e | ⟨⟩, store⟩
  · simp only [setConsistent, Consistency.set, Consistency.save, hsave] at hok
    cases congrArg Prod.fst hok
  · simp only [setConsistent, Consistency.set, Consistency.save, hsave] at hok
    obtain ⟨-, rfl⟩ := Prod.mk.inj hok
    have hstore := h.save (by simp [stateRows]) (by simp [idField]) hsave
    exact hstore.untouched ⟨rfl, rfl, rfl, rfl⟩

/-- Moving the checkpoint leaves what a new attempt would find. -/
theorem renewable_onCheckpoint (request : CheckpointCall)
    (hrequest : ∀ c s, request.run c s = c.force request.target s) :
    Renewable (onCheckpoint request) := by
  intro s a x a₁ h hok
  rcases hforce : a.applied.checkpoint.force request.target a.store with ⟨result, checkpoint, store⟩
  simp only [onCheckpoint, hrequest, hforce] at hok
  obtain ⟨rfl, rfl⟩ := Prod.mk.inj hok
  obtain ⟨rfl, hsave⟩ := Checkpoint.save_of_force ⟨h.store.owes, h.store.failing⟩ hforce
  exact { h.save (by simp [stateRows]) (Checkpoint.nodup_content _) hsave with
    current := False.elim }

/-- Reading the tail of the log leaves what a new attempt would find, but for that answer. -/
theorem sameStart_lastEntry {tail : Entry} (h : SameStart s a)
    (hok : lastEntry a = (.ok tail, a₁)) : SameStart s.answered a₁ := by
  have hdata : s.answered.remote.data.Reachable := (data_lastEntry s.remote).symm ▸ h.data
  obtain ⟨⟨⟩, a₂, hstart, hok⟩ := SyncM.bind_eq_ok hok
  have h₂ := renewable_start _ _ s a () a₂ h hstart
  obtain ⟨tail, a₃, hremote, hok⟩ := SyncM.bind_eq_ok hok
  obtain ⟨-, rfl⟩ := Prod.mk.inj hok
  have hanswered : a₃ = a₂.answered := (congrArg Prod.snd hremote).symm
  subst hanswered
  exact { h₂ with
    remote := congrArg (fun r => r.lastEntry.2) h₂.remote
    data := hdata }

/-! ## Steps of which one commit may be lost -/

/-- A step has the same outcome on twins, or a commit of it is lost on the second one: it fails
there with an error after which a new attempt finds the same as in `s`. -/
inductive Tracks (s : SyncState) (k : Option Nat) (made : Nat)
    (o o' : Except ReplicationError α × SyncState) : Prop
  /-- The outcome is the same. -/
  | alike (h : Mirrors (Twin k made True) o o')
  /-- The commit with the number is lost, and what the first one made of it is its own twin. -/
  | lost (n : Nat) (hk : k = some n)
    (hresult : ∃ e, o'.1 = .error e ∧ e.isRetryable = true) (hstart : SameStart s o'.2)
    (hrest : Mirrors (Twin none (n + 1) True) o o)

theorem Tracks.andThen {o o' : Except ReplicationError α × SyncState}
    {f : α → SyncState → Except ReplicationError β × SyncState} (h : Tracks s k made o o')
    (hf : ∀ x a₁, o = (.ok x, a₁) → ∀ k made b₁, Twin k made True a₁ b₁ →
      Tracks s k made (f x a₁) (f x b₁)) :
    Tracks s k made (andThen o f) (andThen o' f) := by
  rcases o with ⟨e | x, a₁⟩ <;> rcases o' with ⟨r, b₁⟩
  · -- What follows is not reached.
    cases h with
    | alike h =>
      obtain ⟨e', he', hfatal⟩ | ⟨hresult, htwin⟩ := h
      · obtain rfl := Except.error.inj he'
        exact .alike (.of_error rfl hfatal)
      · obtain rfl : r = .error e := hresult
        exact .alike (.inr ⟨rfl, htwin⟩)
    | lost n hk hresult hstart hrest =>
      obtain ⟨e', rfl, hretryable⟩ := hresult
      refine .lost n hk ⟨e', rfl, hretryable⟩ hstart ?_
      obtain ⟨e', he', hfatal⟩ | ⟨-, htwin⟩ := hrest
      · obtain rfl := Except.error.inj he'
        exact .of_error rfl hfatal
      · exact .inr ⟨rfl, htwin⟩
  · cases h with
    | alike h =>
      obtain ⟨e', he', -⟩ | ⟨hresult, htwin⟩ := h
      · cases he'
      · obtain rfl : r = .ok x := hresult
        exact hf x a₁ rfl k made b₁ htwin
    | lost n hk hresult hstart hrest =>
      obtain ⟨e', rfl, hretryable⟩ := hresult
      refine .lost n hk ⟨e', rfl, hretryable⟩ hstart ?_
      obtain ⟨e, he, -⟩ | ⟨-, htwin⟩ := hrest
      · cases he
      · cases hf x a₁ rfl none (n + 1) a₁ htwin with
        | alike h => exact h
        | lost _ hk => cases hk

theorem Tracks.bind {m : SyncM α} {f : α → SyncM β} (h : Tracks s k made (m a) (m b))
    (hf : ∀ x a₁, m a = (.ok x, a₁) → ∀ k made b₁, Twin k made True a₁ b₁ →
      Tracks s k made (f x a₁) (f x b₁)) :
    Tracks s k made ((m >>= f) a) ((m >>= f) b) := by
  rw [SyncM.bind_eq_andThen, SyncM.bind_eq_andThen]
  exact h.andThen hf

/-- A commit to the databases of users that succeeds on the first one of twins has the same outcome
on the second one, or it is lost there. -/
theorem tracks_onStore {f : Store → Except ReplicationError Unit × Store}
    (plan : Store → Transaction) (fail : ReplicationError → ReplicationError) {store : Store}
    {databases : Databases} {last : Did}
    (hf : ∀ store, f store =
      ((store.commit (plan store)).1.mapError fail, (store.commit (plan store)).2))
    (hfail : (fail (.rollback "injected rollback")).isRetryable = true)
    (hstart : SameStart s a) (h : Twin k made copied a b)
    (hcurrent : b.applied.checkpoint.current = a.applied.checkpoint.current)
    (hown : ∀ store, ∀ w ∈ plan store, ¬ IsOwn w.database)
    (hok : a.store.commit (plan a.store) = (.ok (), store))
    (happly : Write.applyAll (plan b.store) b.store.nextDid b.store.databases =
      (.ok databases, last))
    (hnil : k ≠ none → (plan a.store = [] ↔ plan b.store = []))
    (husers : store.databases.Paired store.nextDid last databases) :
    Tracks s k made (onStore f a) (onStore f b) := by
  have hresult : onStore f a = (.ok (), a.setStore store) := by
    simp only [onStore, hf, hok]
    rfl
  rw [hresult]
  obtain ⟨store', hok', htwin⟩ | ⟨hhit, hrefused, hbefore, hself⟩ :=
    h.store.commit_or_refused (hown _) (hown _) hok happly hnil husers
  · have hresult' : onStore f b = (.ok (), b.setStore store') := by
      simp only [onStore, hf, hok']
      rfl
    rw [hresult']
    exact .alike (.inr ⟨rfl, { h with store := htwin, current := fun _ => hcurrent }⟩)
  · have hresult' : onStore f b = (.error (fail (.rollback "injected rollback")),
        b.setStore { b.store with refusals := {} }) := by
      simp only [onStore, hf, hrefused]
      rfl
    rw [hresult']
    have hagain : Twin none made copied a (b.setStore { b.store with refusals := {} }) :=
      { h with store := hbefore }
    refine .lost _ hhit ⟨_, rfl, hfail⟩ (hstart.trans hagain) (.inr ⟨rfl, ?_⟩)
    exact { h.self (Nat.zero_le _) with store := hself }

/-! ## Replacing the data -/

theorem not_isOwn_of_mem_dropUserDatabases {store : Store} {w : Write}
    (hw : w ∈ Clone.dropUserDatabases store) : ¬ IsOwn w.database :=
  not_or.2 (SyncState.database_of_mem_dropUserDatabases hw)

/-- Dropping the databases of users has the same outcome on twins, or it is lost. -/
theorem tracks_drop (hstart : SameStart s a) (h : Twin k made copied a b)
    (hcopied : k ≠ none → copied)
    (hcurrent : b.applied.checkpoint.current = a.applied.checkpoint.current) :
    Tracks s k made (onStore (fun store => store.commit (Clone.dropUserDatabases store)) a)
      (onStore (fun store => store.commit (Clone.dropUserDatabases store)) b) := by
  obtain ⟨dropped, happly, hget⟩ := Clone.exists_applyAll_drop a.store a.store.nextDid
  obtain ⟨dropped', happly', hget'⟩ := Clone.exists_applyAll_drop b.store b.store.nextDid
  obtain ⟨store, hok⟩ := Store.commit_of_healthy h.store.healthy happly
  obtain ⟨⟨rfl⟩, -⟩ := Prod.mk.inj ((Store.commit_eq_ok hok).1.symm.trans happly)
  have hnil : k ≠ none →
      (Clone.dropUserDatabases a.store = [] ↔ Clone.dropUserDatabases b.store = []) := by
    intro hk
    have hpaired := h.store.users (hcopied hk)
    unfold Clone.dropUserDatabases
    rw [List.map_eq_nil_iff, List.map_eq_nil_iff, List.eq_nil_iff_forall_not_mem,
      List.eq_nil_iff_forall_not_mem]
    refine forall_congr' fun name => not_congr ?_
    rw [Clone.mem_dropped, Clone.mem_dropped]
    refine and_congr_left fun ⟨hreserved, hlocal⟩ => ?_
    have hname := hpaired name (not_or.2 ⟨hlocal, hreserved⟩)
    generalize a.store.databases.get? name = db at hname ⊢
    generalize b.store.databases.get? name = db' at hname ⊢
    cases hname <;> simp
  refine tracks_onStore Clone.dropUserDatabases id (fun store => ?_) rfl hstart h hcurrent
    (fun _ _ => not_isOwn_of_mem_dropUserDatabases) hok happly' hnil fun name hname => ?_
  · rcases store.commit (Clone.dropUserDatabases store) with ⟨_ | _, _⟩ <;> rfl
  · have hown : ¬ (name = localDatabase ∨ name = reservedDatabase) := hname
    rw [hget, hget', if_neg hown, if_neg hown]
    exact .none

/-- Cloning a database removes no documents by number. -/
theorem not_isDelete_of_mem_plan {filters : Filters} {data : Store} {database : String} {w : Write}
    (h : w ∈ Clone.plan filters true data database) : ¬ w.IsDelete := by
  obtain ⟨ns, -, hw⟩ := List.mem_flatMap.1 h
  unfold Clone.writes Transaction.insert at hw
  rw [if_pos rfl] at hw
  rcases List.mem_append.1 hw with hw | hw
  · split_ifs at hw
    · rw [List.mem_singleton.1 hw]
      exact id
    · rcases List.mem_append.1 hw with hw | hw <;> rw [List.mem_singleton.1 hw] <;> exact id
  · obtain ⟨index, -, rfl⟩ := List.mem_map.1 hw
    exact id

/-- Where nothing happens at the calls, reading collections only makes calls. -/
theorem scanAll_of_quiet (l : List Namespace) (hquiet : s.incidents = []) :
    ∃ calls, scanAll l s = (.ok (), { s with calls := calls }) := by
  induction l generalizing s with
  | nil => exact ⟨_, rfl⟩
  | cons ns rest ih =>
    obtain ⟨calls, hrest⟩ := ih (s := { s with
      calls := s.calls ++ [⟨.scan, ns.text, s.phase⟩] }) hquiet
    refine ⟨calls, ?_⟩
    rw [scanAll, SyncM.bind_apply, start, SyncState.startCall_of_quiet hquiet]
    exact hrest

/-- Where nothing happens at the calls, the collections of a database are read, and it is copied in
one transaction. -/
theorem cloneDatabase_of_quiet (x : InitialSync) (database : String) (hquiet : s.incidents = []) :
    ∃ calls, x.cloneDatabase database s =
      onStore (Clone.run x.pipeline.filters true s.remote.data database)
        { s with calls := calls } := by
  obtain ⟨calls, hcollections⟩ := scanAll_of_quiet
    (Clone.collections x.pipeline.filters s.remote.data database)
    (s := { s with calls := s.calls ++ [⟨.clone, database, s.phase⟩] }) hquiet
  refine ⟨calls, ?_⟩
  rw [cloneDatabase, SyncM.bind_apply, start, SyncState.startCall_of_quiet hquiet]
  dsimp only
  rw [get_bind]
  dsimp only
  rw [hcollections]

/-- A database can be copied into a store without faults in which it is missing, and the other ones
are left. -/
theorem exists_cloned {database : String} (hdata : a.remote.data.Reachable)
    (hhealthy : a.store.Healthy)
    (hmissing : ∀ ns : Namespace, ns.database = database → a.store.collection? ns = none) :
    ∃ store, a.store.commit (Clone.plan x.pipeline.filters true a.remote.data database) =
        (.ok (), store) ∧
      ∀ ns : Namespace, ns.database ≠ database → store.collection? ns = a.store.collection? ns := by
  obtain ⟨databases, last, happly, hcopied⟩ := Clone.exists_applyAll_plan
    x.pipeline.filters (s := a.store.databases) hdata hmissing a.store.nextDid
  obtain ⟨store, hok⟩ := Store.commit_of_healthy hhealthy happly
  obtain ⟨⟨rfl⟩, -⟩ := Prod.mk.inj ((Store.commit_eq_ok hok).1.symm.trans happly)
  refine ⟨store, hok, fun ns hns => ?_⟩
  have hleft := hcopied ns
  rwa [if_neg hns] at hleft

/-- Cloning a database that is missing has the same outcome on twins, or it is lost. -/
theorem tracks_cloneDatabase {database : String} (hstart : SameStart s a)
    (h : Twin k made True a b) (hdatabase : ¬ IsOwn database)
    (hmissing : ∀ ns : Namespace, ns.database = database → a.store.collection? ns = none) :
    Tracks s k made (x.cloneDatabase database a) (x.cloneDatabase database b) := by
  obtain ⟨calls, hclone⟩ := cloneDatabase_of_quiet x database h.quiet
  obtain ⟨calls', hclone'⟩ := cloneDatabase_of_quiet x database h.quiet'
  obtain ⟨store, hok, -⟩ := exists_cloned (x := x) h.data h.store.healthy hmissing
  obtain ⟨databases, last, happly, hpaired⟩ := (h.store.users trivial).exists_applyAll
    (fun w hw => ⟨SyncState.database_of_mem_plan hw ▸ hdatabase, not_isDelete_of_mem_plan hw⟩)
    (Store.commit_eq_ok hok).1
  have hsource : b.remote.data = a.remote.data := congrArg Remote.data h.remote
  rw [hclone, hclone', hsource]
  have hread : Twin k made True { a with calls := calls } { b with calls := calls' } := { h with }
  exact tracks_onStore (fun _ => Clone.plan x.pipeline.filters true a.remote.data database)
    (Clone.failure database) (fun _ => rfl) rfl (hstart.untouched ⟨rfl, rfl, rfl, rfl⟩) hread
    (h.current trivial) (fun _ w hw => SyncState.database_of_mem_plan hw ▸ hdatabase) hok happly
    (fun _ => Iff.rfl) hpaired

/-- Cloning a database that is missing does not matter to a new attempt, and it leaves the other
ones. -/
theorem sameStart_cloneDatabase {database : String} (hstart : SameStart s a)
    (hdatabase : ¬ IsOwn database)
    (hmissing : ∀ ns : Namespace, ns.database = database → a.store.collection? ns = none)
    (hok : x.cloneDatabase database a = (.ok (), a₁)) : SameStart s a₁ ∧
      ∀ ns : Namespace, ns.database ≠ database →
        a₁.store.collection? ns = a.store.collection? ns := by
  obtain ⟨calls, hclone⟩ := cloneDatabase_of_quiet x database hstart.quiet'
  obtain ⟨store, hcommit, hleft⟩ := exists_cloned (x := x) (hstart.remote ▸ hstart.data)
    ⟨hstart.store.owes, hstart.store.failing⟩ hmissing
  rw [hclone] at hok
  obtain ⟨store', hrun, rfl⟩ := onStore_eq_ok hok
  obtain ⟨-, rfl⟩ := Prod.mk.inj ((commit_of_run hrun).symm.trans hcommit)
  have huntouched : SameStart s { a with calls := calls } :=
    hstart.untouched ⟨rfl, rfl, rfl, rfl⟩
  exact ⟨huntouched.commit (fun w hw => SyncState.database_of_mem_plan hw ▸ hdatabase) hcommit,
    hleft⟩

/-- Cloning databases that are missing has the same outcome on twins, or it is lost. -/
theorem tracks_cloneAll {databases : List String} (hdatabases : databases.Nodup)
    (hstart : SameStart s a) (h : Twin k made True a b)
    (hmissing : ∀ ns : Namespace, ns.database ∈ databases → ¬ IsOwn ns.database →
      a.store.collection? ns = none) :
    Tracks s k made (x.cloneAll databases a) (x.cloneAll databases b) := by
  induction databases generalizing a b k made with
  | nil => exact .alike (.inr ⟨rfl, h⟩)
  | cons database databases ih =>
    obtain ⟨hnew, hdatabases⟩ := List.nodup_cons.1 hdatabases
    unfold cloneAll
    dsimp only
    split_ifs with haccepts
    · have hown : ¬ IsOwn database := not_or.2 (SyncState.ne_own_of_acceptsDatabase haccepts)
      refine Tracks.bind (.alike (steady_checkStopped a b h)) fun _ a₁ hcheck k made b₁ h => ?_
      have hstart := renewable_checkStopped s a _ a₁ hstart hcheck
      obtain ⟨-, rfl⟩ := Prod.mk.inj hcheck
      have hfirst : ∀ ns : Namespace, ns.database = database → a.store.collection? ns = none :=
        fun ns hns => hmissing ns (by simp [hns]) (hns ▸ hown)
      refine Tracks.bind (tracks_cloneDatabase hstart h hown hfirst)
        fun _ a₂ hclone k made b₂ h => ?_
      obtain ⟨hstart, hleft⟩ := sameStart_cloneDatabase hstart hown hfirst hclone
      refine ih hdatabases hstart h fun ns hns hother => ?_
      rw [hleft ns fun heq => hnew (heq ▸ hns)]
      exact hmissing ns (List.mem_cons_of_mem _ hns) hother
    · exact ih hdatabases hstart h fun ns hns => hmissing ns (List.mem_cons_of_mem _ hns)

/-- Replacing the data has the same outcome on twins, or it is lost. -/
theorem tracks_replaceData (mark : Mark) (hstart : SameStart s a) (h : Twin k made copied a b)
    (hcopied : k ≠ none → copied) :
    Tracks s k made (x.replaceData mark a) (x.replaceData mark b) := by
  obtain ⟨e, he, hfatal⟩ | ⟨a₁, b₁, hreset, hreset', h, hcurrent⟩ :=
    onCheckpoint_twin h .reset fun _ _ => rfl
  · exact .alike (.of_error (SyncM.bind_eq_error he) hfatal)
  have hstart := renewable_onCheckpoint .reset (fun _ _ => rfl) s a _ a₁ hstart hreset
  rw [replaceData, SyncM.bind_apply, SyncM.bind_apply, hreset, hreset']
  refine Tracks.bind (tracks_drop hstart h hcopied hcurrent) fun _ a₂ hdrop k made b₂ h => ?_
  obtain ⟨store, hcommit, rfl⟩ := onStore_eq_ok hdrop
  have hstart := hstart.commit (fun _ => not_isOwn_of_mem_dropUserDatabases) hcommit
  have hmissing : ∀ ns : Namespace, ¬ IsOwn ns.database → store.collection? ns = none := by
    intro ns hns
    obtain ⟨dropped, happly, hget⟩ := Clone.exists_applyAll_drop a₁.store a₁.store.nextDid
    obtain ⟨⟨rfl⟩, -⟩ := Prod.mk.inj ((Store.commit_eq_ok hcommit).1.symm.trans happly)
    have hnone : store.databases.get? ns.database = none := (hget _).trans (if_neg hns)
    rw [Store.collection?, Databases.collection?, Databases.database, hnone]
    rfl
  refine Tracks.bind (.alike (steady_start _ _ _ _ h)) fun _ a₃ hcall k made b₃ h => ?_
  have hstore : a₃.store = store := by
    rw [start, SyncState.startCall_of_quiet hstart.quiet'] at hcall
    obtain ⟨-, rfl⟩ := Prod.mk.inj hcall
    rfl
  have hstart := renewable_start _ _ s _ _ a₃ hstart hcall
  rw [get_bind, get_bind, h.remote]
  refine Tracks.bind (tracks_cloneAll a₃.remote.data.databases.nodup_keys hstart h
    fun ns _ hns => hstore ▸ hmissing ns hns) fun _ a₄ _ k made b₄ h => ?_
  obtain ⟨e, he, hfatal⟩ | ⟨a₅, b₅, hforce, hforce', h, -⟩ :=
    onCheckpoint_twin h (.force mark) fun _ _ => rfl
  · exact .alike (.of_error he hfatal)
  · rw [hforce, hforce']
    exact .alike (.inr ⟨rfl, h⟩)

end InitialSync

end Replica
