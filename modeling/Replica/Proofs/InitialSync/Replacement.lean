import Replica.Proofs.InitialSync.Copy
import Replica.Proofs.InitialSync.Passage

/-!
# Replacing the data of a member

The data of a member is replaced in transactions: one that drops the databases of users, and one for
each database that is copied. Nothing that happens between them changes what the source serves or
what the member holds (`SyncState.Served`). So each copy finds its database without collections and
leaves it exact (`cloneDatabase_exact`, and `cloneAll_eq_ok` over the databases). When all went well
every namespace of users is exact, and the checkpoint is the mark from before
(`replaceData_exact`).
-/

namespace Replica

namespace SyncState

variable {s s' s'' : SyncState}

/-- What may happen outside of the steps while the source has the same data. -/
structure Served (s s' : SyncState) : Prop extends s.Outside s' where
  /-- The data of the source is the same. -/
  data : s'.remote.data = s.remote.data

theorem Served.refl (s : SyncState) : s.Served s := ⟨.refl s, rfl⟩

theorem Served.trans (h : s.Served s') (h' : s'.Served s'') : s.Served s'' :=
  ⟨h.toOutside.trans h'.toOutside, h'.data.trans h.data⟩

/-- Nothing that happens at a call changes the data of the source. -/
theorem served_startCall (s : SyncState) (kind : CallKind) (argument : String) :
    s.Served (s.startCall kind argument).2 := by
  refine ⟨s.outside_startCall kind argument, ?_⟩
  rw [startCall_state]
  exact rel_foldl_happen (R := fun s s' => s'.remote.data = s.remote.data) (fun _ => rfl)
    (fun h h' => h'.trans h) (fun i _ s => by cases i <;> rfl) _

end SyncState

namespace InitialSync

open SyncM (Keeps)
open SyncState (Served)

variable {x : InitialSync} {s s' : SyncState} {database : String} {databases : List String}

theorem served_start (kind : CallKind) (argument : String) : Keeps Served (start kind argument) :=
  fun s => s.served_startCall kind argument

theorem served_checkStopped : Keeps Served checkStopped := Served.refl

theorem served_scanAll (l : List Namespace) : Keeps Served (scanAll l) := by
  induction l with
  | nil => exact Served.refl
  | cons ns rest ih => exact (served_start _ _).bind Served.trans fun _ => ih

/-- What follows a look at the state is done there. -/
theorem get_bind {α : Type} (f : SyncState → SyncM α) (s : SyncState) :
    ((get : SyncM SyncState) >>= f) s = f s s := rfl

/-- A step on the store that succeeds changes the store only. -/
theorem onStore_eq_ok {f : Store → Except ReplicationError Unit × Store}
    (h : onStore f s = (.ok (), s')) : ∃ store, f s.store = (.ok (), store) ∧
      s' = s.setStore store := by
  rcases hf : f s.store with ⟨result, store⟩
  simp only [onStore, hf] at h
  obtain ⟨rfl, rfl⟩ := Prod.mk.inj h
  exact ⟨store, rfl, rfl⟩

/-- A call on the checkpoint that succeeds moves it to its target, in memory and in the store, and
leaves all other databases. -/
theorem moved_of_onCheckpoint {request : CheckpointCall} (hs : s.store.WellFormed)
    (h : onCheckpoint request s = (.ok (), s')) :
    s'.applied.checkpoint.current = request.target ∧
      Checkpoint.load s'.store = .ok request.target ∧
      ∀ name ≠ reservedDatabase, s'.store.databases.get? name = s.store.databases.get? name := by
  have hget : ∀ name ≠ reservedDatabase,
      (request.run s.applied.checkpoint s.store).2.2.databases.get? name =
        s.store.databases.get? name := fun name => CheckpointCall.get?_run
  rcases hrun : request.run s.applied.checkpoint s.store with ⟨result, checkpoint, store⟩
  rw [hrun] at hget
  simp only [onCheckpoint, hrun] at h
  obtain ⟨rfl, rfl⟩ := Prod.mk.inj h
  obtain ⟨hcheckpoint, hload⟩ := CheckpointCall.run_eq_ok hs hrun
  exact ⟨congrArg Checkpoint.current hcheckpoint, hload, hget⟩

/-- A copy that succeeds is committed. -/
theorem commit_of_run {filters : Filters} {data store store' : Store}
    (h : Clone.run filters true data database store = (.ok (), store')) :
    store.commit (Clone.plan filters true data database) = (.ok (), store') := by
  rw [Clone.run] at h
  rcases hcommit : store.commit (Clone.plan filters true data database) with ⟨_ | ⟨⟩, committed⟩
  · rw [hcommit] at h
    cases congrArg Prod.fst h
  · rw [hcommit] at h
    obtain ⟨-, rfl⟩ := Prod.mk.inj h
    rfl

/-- A database that was cloned was copied in one transaction from what the source has. -/
theorem cloneDatabase_eq_ok (h : x.cloneDatabase database s = (.ok (), s')) :
    ∃ s₁ store, s.Served s₁ ∧ s₁.store.commit
      (Clone.plan x.pipeline.filters true s.remote.data database) = (.ok (), store) ∧
      s' = s₁.setStore store := by
  obtain ⟨⟨⟩, s₁, hstart, h⟩ := (served_start _ _).of_bind h
  dsimp only at h
  rw [get_bind] at h
  split at h
  · cases congrArg Prod.fst h
  · rename_i s₂ hscan
    have hserved := hstart.trans ((served_scanAll _).of_eq hscan)
    obtain ⟨store, hrun, rfl⟩ := onStore_eq_ok h
    rw [hstart.data] at hrun
    exact ⟨s₂, store, hserved, commit_of_run hrun, rfl⟩

/-- A database that has no collections is exact when it was cloned, and all others are left. -/
theorem cloneDatabase_exact (hdata : s.remote.data.Reachable) (hs : s.store.WellFormed)
    (hmissing : ∀ ns : Namespace, ns.database = database → s.store.collection? ns = none)
    (h : x.cloneDatabase database s = (.ok (), s')) :
    s'.store.WellFormed ∧ s'.remote.data = s.remote.data ∧ ∀ ns : Namespace,
      if ns.database = database then
        Clone.Exact x.pipeline.filters s.remote.data s'.store.databases ns
      else s'.store.collection? ns = s.store.collection? ns := by
  obtain ⟨s₁, store, hserved, hcommit, rfl⟩ := cloneDatabase_eq_ok h
  -- The copy finds the database as it was, without collections.
  have hsame : ∀ ns, s₁.store.collection? ns = s.store.collection? ns :=
    fun ns => Store.collection?_of_get? (by rw [hserved.databases])
  obtain ⟨copied, last, hplan, hexact⟩ := Clone.exists_applyAll_plan
    x.pipeline.filters (s := s₁.store.databases) hdata
    (fun ns hns => (hsame ns).trans (hmissing ns hns)) s₁.store.nextDid
  -- What was committed is what the plan leads to.
  obtain ⟨⟨rfl⟩, -⟩ := Prod.mk.inj (hplan.symm.trans (Store.commit_eq_ok hcommit).1)
  have hstore : store.WellFormed := by
    have hkept := (hserved.flagKept.wellFormed hs).commit
      (Clone.plan x.pipeline.filters true s.remote.data database)
    rwa [hcommit] at hkept
  refine ⟨hstore, hserved.data, fun ns => ?_⟩
  have hns := hexact ns
  split_ifs at hns ⊢
  · exact hns
  · exact hns.trans (hsame ns)

/-- Databases that have no collections are exact when all of them were cloned, and the others are
left. -/
theorem cloneAll_eq_ok (hdata : s.remote.data.Reachable) (hs : s.store.WellFormed)
    (hdatabases : databases.Nodup)
    (hmissing : ∀ ns : Namespace, ns.database ∈ databases →
      x.pipeline.filters.acceptsDatabase ns.database = true → s.store.collection? ns = none)
    (h : x.cloneAll databases s = (.ok (), s')) : s'.store.WellFormed ∧ ∀ ns : Namespace,
      if ns.database ∈ databases ∧ x.pipeline.filters.acceptsDatabase ns.database = true then
        Clone.Exact x.pipeline.filters s.remote.data s'.store.databases ns
      else s'.store.collection? ns = s.store.collection? ns := by
  induction databases generalizing s with
  | nil =>
    obtain ⟨-, rfl⟩ := Prod.mk.inj h
    exact ⟨hs, fun ns => by simp⟩
  | cons database databases ih =>
    obtain ⟨hnew, hdatabases⟩ := List.nodup_cons.1 hdatabases
    unfold cloneAll at h
    dsimp only at h
    split_ifs at h with haccepts
    · obtain ⟨⟨⟩, s₁, hcheck, h⟩ := served_checkStopped.of_bind h
      obtain ⟨⟨⟩, s₂, hclone, h⟩ := SyncM.bind_eq_ok h
      have hbefore : ∀ ns, s₁.store.collection? ns = s.store.collection? ns :=
        fun ns => Store.collection?_of_get? (by rw [hcheck.databases])
      obtain ⟨hs₂, hremote, hexact⟩ := cloneDatabase_exact (hcheck.data ▸ hdata)
        (hcheck.flagKept.wellFormed hs)
        (fun ns hns =>
          (hbefore ns).trans (hmissing ns (by simp [hns]) (hns ▸ haccepts))) hclone
      rw [hcheck.data] at hremote hexact
      have hother : ∀ ns : Namespace, ns.database ≠ database →
          s₂.store.collection? ns = s.store.collection? ns := fun ns hns => by
        have hleft := hexact ns
        rw [if_neg hns] at hleft
        exact hleft.trans (hbefore ns)
      have hne : ∀ ns : Namespace, ns.database ∈ databases → ns.database ≠ database :=
        fun ns hns heq => hnew (heq ▸ hns)
      obtain ⟨hlast, hrest⟩ := ih (s := s₂) (by rwa [hremote]) hs₂ hdatabases
        (fun ns hns haccepts => (hother ns (hne ns hns)).trans
          (hmissing ns (List.mem_cons_of_mem _ hns) haccepts)) h
      rw [hremote] at hrest
      refine ⟨hlast, fun ns => ?_⟩
      have hlater := hrest ns
      by_cases hns : ns.database = database
      · -- No later copy is of this database.
        rw [if_neg fun h => hne ns h.1 hns] at hlater
        have hcopy := hexact ns
        rw [if_pos hns] at hcopy
        rw [if_pos ⟨by simp [hns], hns ▸ haccepts⟩, Clone.Exact, show
          s'.store.databases.collection? ns = s₂.store.databases.collection? ns from hlater]
        exact hcopy
      · simp only [List.mem_cons, hns, false_or]
        split_ifs at hlater ⊢ with haccepted
        · exact hlater
        · exact hlater.trans (hother ns hns)
    -- A database that is not replicated is passed over.
    · obtain ⟨hlast, hrest⟩ := ih hdata hs hdatabases
        (fun ns hns => hmissing ns (List.mem_cons_of_mem _ hns)) h
      refine ⟨hlast, fun ns => ?_⟩
      have hlater := hrest ns
      by_cases hns : ns.database = database
      · rw [if_neg fun h => haccepts (hns ▸ h.2)]
        rwa [if_neg fun h => haccepts (hns ▸ h.2)] at hlater
      · simpa only [List.mem_cons, hns, false_or] using hlater

theorem acceptsDatabase_of_acceptsNamespace {filters : Filters} {ns : Namespace}
    (h : filters.acceptsNamespace ns = true) : filters.acceptsDatabase ns.database = true := by
  rw [Filters.acceptsNamespace, Bool.and_eq_true, Bool.and_eq_true] at h
  exact h.1.1

/-- A database with a collection is there. -/
theorem mem_databaseNames_of_collection? {store : Store} {ns : Namespace} {c : Collection}
    (h : store.collection? ns = some c) : ns.database ∈ store.databaseNames := by
  rw [Store.databaseNames, Table.mem_keys]
  rw [Store.collection?, Databases.collection?, Databases.database] at h
  cases hdb : store.databases.get? ns.database with
  | none =>
    rw [hdb] at h
    cases h
  | some db => exact ⟨db, rfl⟩

/-- What an exact namespace shows: it is there if it is replicated, and then it has the documents of
the source and those of its indexes that are replicated. -/
theorem observed_of_exact {filters : Filters} {data store : Store} {ns : Namespace}
    (h : Clone.Exact filters data store.databases ns) :
    (store.hasCollection ns = true ↔
      data.hasCollection ns = true ∧ filters.acceptsNamespace ns = true) ∧
    (store.hasCollection ns = true → store.contents ns = data.contents ns ∧
      store.indexes ns = (data.indexes ns).filter fun index =>
        index.name ≠ IndexSpec.idIndex && filters.acceptsIndex ns index.name) := by
  unfold Clone.Exact Clone.source? at h
  unfold Store.hasCollection Store.contents Store.indexes
  change Option.Rel _ _ (store.collection? ns) at h
  generalize store.collection? ns = copy at h ⊢
  split_ifs at h with haccepts
  · generalize data.collection? ns = source at h ⊢
    cases h with
    | none => simp
    | some hcopy =>
      refine ⟨by simp [haccepts], fun _ => ⟨Collection.contents_congr hcopy.documents, ?_⟩⟩
      show Table.values _ = _
      rw [hcopy.indexes, Table.values_filterValues]
      rfl
  · cases h
    simp [haccepts]

/-- Replacing the data of a member is exact: whatever it held before and whatever happens meanwhile,
if it succeeds then a collection of users is there exactly if the source has it and it is
replicated, it has the documents of the source and those of its indexes that are replicated, and the
checkpoint is the mark that was given. -/
theorem replaceData_exact (x : InitialSync) (mark : Mark) (s s' : SyncState)
    (hdata : s.remote.data.Reachable) (hs : s.store.WellFormed)
    (h : x.replaceData mark s = (.ok (), s')) :
    (∀ ns : Namespace, ns.database ≠ localDatabase → ns.database ≠ reservedDatabase →
      (s'.store.hasCollection ns = true ↔
        s.remote.data.hasCollection ns = true ∧ x.pipeline.filters.acceptsNamespace ns = true) ∧
      (s'.store.hasCollection ns = true →
        s'.store.contents ns = s.remote.data.contents ns ∧
        s'.store.indexes ns = (s.remote.data.indexes ns).filter fun index =>
          index.name ≠ IndexSpec.idIndex && x.pipeline.filters.acceptsIndex ns index.name)) ∧
    s'.applied.checkpoint.current = mark ∧ Checkpoint.load s'.store = .ok mark := by
  -- The checkpoint goes back, and the databases of users are dropped.
  obtain ⟨⟨⟩, s₁, hreset, h⟩ := SyncM.bind_eq_ok h
  obtain ⟨⟨⟩, s₂, hdrop, h⟩ := SyncM.bind_eq_ok h
  obtain ⟨store, hcommit, rfl⟩ := onStore_eq_ok hdrop
  have hs₁ : s₁.store.WellFormed := by
    have hkept := (s.flagKept_checkpoint .reset).wellFormed hs
    rwa [hreset] at hkept
  have hremote : s₁.remote = s.remote := by
    have hkept : (onCheckpoint .reset s).2.remote = s.remote := rfl
    rwa [hreset] at hkept
  have hstore : store.WellFormed := by
    have hkept := hs₁.commit (Clone.dropUserDatabases s₁.store)
    rwa [hcommit] at hkept
  obtain ⟨dropped, hdropped, hget⟩ := Clone.exists_applyAll_drop s₁.store s₁.store.nextDid
  obtain ⟨⟨rfl⟩, -⟩ := Prod.mk.inj (hdropped.symm.trans (Store.commit_eq_ok hcommit).1)
  have hmissing : ∀ ns : Namespace, ns.database ≠ localDatabase → ns.database ≠ reservedDatabase →
      store.collection? ns = none := by
    intro ns hlocal hreserved
    rw [Store.collection?, Databases.collection?, Databases.database, hget,
      if_neg (not_or.2 ⟨hlocal, hreserved⟩)]
    rfl
  -- The databases of the source are copied.
  obtain ⟨⟨⟩, s₂, hserved, h⟩ := (served_start _ _).of_bind h
  rw [get_bind] at h
  obtain ⟨⟨⟩, s₃, hclone, h⟩ := SyncM.bind_eq_ok h
  have hdata₂ : s₂.remote.data = s.remote.data :=
    hserved.data.trans (congrArg Remote.data hremote)
  have hmissing₂ : ∀ ns : Namespace, ns.database ≠ localDatabase →
      ns.database ≠ reservedDatabase → s₂.store.collection? ns = none := fun ns hlocal hreserved =>
    (Store.collection?_of_get? (by rw [hserved.databases]; rfl)).trans
      (hmissing ns hlocal hreserved)
  obtain ⟨hs₃, hexact⟩ := cloneAll_eq_ok (hdata₂ ▸ hdata) (hserved.flagKept.wellFormed hstore)
    s₂.remote.data.databases.nodup_keys
    (fun ns _ haccepts => hmissing₂ ns (SyncState.ne_own_of_acceptsDatabase haccepts).1
      (SyncState.ne_own_of_acceptsDatabase haccepts).2) hclone
  -- The checkpoint lies beside them.
  obtain ⟨hcurrent, hload, hget⟩ := moved_of_onCheckpoint hs₃ h
  refine ⟨fun ns hlocal hreserved => observed_of_exact ?_, hcurrent, hload⟩
  have hleft : s'.store.databases.collection? ns = s₃.store.databases.collection? ns :=
    Store.collection?_of_get? (hget _ hreserved)
  have hns := hexact ns
  rw [Clone.Exact, hleft]
  rw [hdata₂] at hns
  split_ifs at hns with hcopied
  · exact hns
  · -- What was not copied is not replicated, or the source does not have it.
    have hnone : Clone.source? x.pipeline.filters s.remote.data ns = none := by
      rw [Clone.source?]
      split_ifs with haccepts
      · rw [← Option.not_isSome_iff_eq_none, Option.isSome_iff_exists]
        rintro ⟨c, hc⟩
        exact hcopied
          ⟨mem_databaseNames_of_collection? hc, acceptsDatabase_of_acceptsNamespace haccepts⟩
      · rfl
    rw [hnone, show s₃.store.databases.collection? ns = none from
      hns.trans (hmissing₂ ns hlocal hreserved)]
    exact .none

/-- A shop of which one collection and one index are not replicated. -/
def stockedShop : Store :=
  let orders : Namespace := ⟨"shop", "orders"⟩
  (Store.empty.commit [.insert orders [.obj [("_id", .int 1)]],
    .createIndex orders ⟨"n_1", ["n"], true⟩, .createIndex orders ⟨"tmp_1", ["n"], false⟩,
    .insert ⟨"shop", "cache_a"⟩ [.obj [("_id", .int 2)]]]).2

/-- What an attempt that failed has left. -/
def abandonedShop : Store :=
  (Store.empty.commit [.insert ⟨"shop", "orders"⟩ [.obj [("_id", .int 7)]],
    .insert ⟨"attic", "boxes"⟩ [.obj [("_id", .int 8)]]]).2

/-- A member that is to become a copy of the shop. -/
def returningMember : SyncState where
  remote := { address := "a:1", data := stockedShop }
  applied := { work := { store := abandonedShop }, checkpoint := ⟨.initial, 1⟩ }

theorem replaceData_exact_shop :
    let orders : Namespace := ⟨"shop", "orders"⟩
    let x : InitialSync := { pipeline := {
      filters := (({} : Filters).excludeCollection "shop" "cache*").excludeIndex "tmp_1" } }
    ∃ s', x.replaceData ⟨11, ⟨1, 1⟩⟩ returningMember = (.ok (), s') ∧
      s'.store.contents orders = [.obj [("_id", .int 1)]] ∧
      s'.store.indexes orders = [⟨"n_1", ["n"], true⟩] ∧
      s'.store.hasCollection ⟨"shop", "cache_a"⟩ = false ∧
      s'.store.hasCollection ⟨"attic", "boxes"⟩ = false ∧
      Checkpoint.load s'.store = .ok ⟨11, ⟨1, 1⟩⟩ := by
  intro orders x
  have hresult : (x.replaceData ⟨11, ⟨1, 1⟩⟩ returningMember).1 = .ok () := by decide +kernel
  obtain ⟨s', hs'⟩ : ∃ s', x.replaceData ⟨11, ⟨1, 1⟩⟩ returningMember = (.ok (), s') := by
    generalize x.replaceData ⟨11, ⟨1, 1⟩⟩ returningMember = outcome at hresult
    exact ⟨outcome.2, Prod.ext hresult rfl⟩
  have hdata : returningMember.remote.data.Reachable := by
    unfold returningMember
    refine .commit .empty _ ?_
    simp [Write.Inserts, Json.Canonical, Json.CanonicalMembers, Assoc.Ascending]
  have hmember : returningMember.store.WellFormed := by
    unfold returningMember
    exact Store.Reachable.empty.wellFormed.commit _
  obtain ⟨hexact, -, hload⟩ :=
    replaceData_exact x ⟨11, ⟨1, 1⟩⟩ returningMember s' hdata hmember hs'
  obtain ⟨horders, hobserved⟩ := hexact orders (by decide) (by decide)
  obtain ⟨hcontents, hindexes⟩ := hobserved (horders.2 (by decide +kernel))
  have hcache := (hexact ⟨"shop", "cache_a"⟩ (by decide) (by decide)).1
  have hboxes := (hexact ⟨"attic", "boxes"⟩ (by decide) (by decide)).1
  refine ⟨s', hs', hcontents.trans (by decide +kernel), hindexes.trans (by decide +kernel),
    Bool.eq_false_iff.2 fun h => ?_, Bool.eq_false_iff.2 fun h => ?_, hload⟩
  · exact absurd (hcache.1 h) (by decide +kernel)
  · exact absurd (hboxes.1 h) (by decide +kernel)

end InitialSync

end Replica
