import Replica.Proofs.InitialSync.Passage

/-!
# What belongs to a member alone

The databases `local` and `relodb` are never replicated. What comes from elsewhere, entries of a
stream, the dropping of users' databases and the copies of a source's, is committed in transactions
on other databases (`own_commit`). What remains are calls on the checkpoint and on the flag: they
are the only steps that change `relodb`, each of them its own collection, and no step changes
`local` (`Standing.Steps.guarded`). A run of a pipeline consists of such steps (`steps_effects`),
and so does an initial sync (`steps_standing`), whatever it is that they read.
-/

namespace Replica

/-- The databases that belong to the member alone are the same. -/
structure Store.OwnKept (s s' : Store) : Prop where
  /-- The database with the data of the member is the same. -/
  local_eq : s'.databases.get? localDatabase = s.databases.get? localDatabase
  /-- The database with the state of replication is the same. -/
  reserved : s'.databases.get? reservedDatabase = s.databases.get? reservedDatabase

/-- What belongs to a member: its store, and the parts of the state of replication in memory. -/
structure Standing where
  /-- The store. -/
  store : Store
  /-- The checkpoint in memory. -/
  checkpoint : Checkpoint
  /-- The consistency flag in memory. -/
  consistent : Bool

namespace Standing

variable {m m' m'' : Standing}

/-- What may happen to it. -/
inductive Step : Standing → Standing → Prop
  /-- The store changes in other databases. -/
  | replicate {m : Standing} (store : Store) (kept : m.store.OwnKept store) :
      Step m { m with store := store }
  /-- A call is made on the checkpoint, with or without success. -/
  | checkpoint {m : Standing} (call : CheckpointCall) :
      Step m { m with
        checkpoint := (call.run m.checkpoint m.store).2.1
        store := (call.run m.checkpoint m.store).2.2 }
  /-- The flag is set, with or without success. -/
  | flag {m : Standing} (value : Bool) :
      Step m { m with
        consistent := (Consistency.set value m.consistent m.store).2.1
        store := (Consistency.set value m.consistent m.store).2.2 }

/-- Any number of steps. -/
def Steps : Standing → Standing → Prop := Relation.ReflTransGen Step

theorem Step.steps (h : m.Step m') : m.Steps m' := .single h

theorem Steps.trans (h : m.Steps m') (h' : m'.Steps m'') : m.Steps m'' :=
  Relation.ReflTransGen.trans h h'

/-- What comes from elsewhere has left alone what belongs to the member. -/
structure Guarded (m m' : Standing) : Prop where
  /-- All else that happened were calls on the checkpoint and the flag. -/
  steps : m.Steps m'
  /-- The database with the data of the member is the same. -/
  local_eq : m'.store.databases.get? localDatabase = m.store.databases.get? localDatabase
  /-- So are all collections of the reserved database but those of the checkpoint and the flag. -/
  reserved : ∀ ns : Namespace, ns.database = reservedDatabase → ns ≠ Checkpoint.row.ns →
    ns ≠ Consistency.row.ns → m'.store.collection? ns = m.store.collection? ns

/-- No step changes the data of the member, and each of the rows is changed by its own calls. -/
theorem Steps.guarded (h : m.Steps m') : m.Guarded m' := by
  refine ⟨h, ?_, fun ns hns hcheckpoint hflag => ?_⟩
  · induction h with
    | refl => rfl
    | tail _ hstep ih =>
      cases hstep with
      | replicate store kept => exact kept.local_eq.trans ih
      | checkpoint call => exact (CheckpointCall.get?_run (by decide)).trans ih
      | flag value => exact (Consistency.get?_set (by decide)).trans ih
  · induction h with
    | refl => rfl
    | tail _ hstep ih =>
      cases hstep with
      | replicate store kept =>
        exact (Store.collection?_of_get? (hns ▸ kept.reserved)).trans ih
      | checkpoint call => exact (CheckpointCall.collection?_run hcheckpoint).trans ih
      | flag value => exact (Consistency.collection?_set hflag).trans ih

end Standing

/-! ## Transactions on other databases -/

namespace Store

open SyncState (ne_own_of_acceptsDatabase database_of_mem_dropUserDatabases database_of_mem_plan)

variable {filters : Filters} {s : Store}

/-- A transaction on other databases leaves what belongs to the member, whether it is committed or
fails. -/
theorem own_commit {t : Transaction}
    (ht : ∀ w ∈ t, w.database ≠ localDatabase ∧ w.database ≠ reservedDatabase) :
    s.OwnKept (s.commit t).2 :=
  ⟨get?_commit fun w hw => (ht w hw).1, get?_commit fun w hw => (ht w hw).2⟩

theorem own_commit_within {t : Transaction} (ht : t.Within filters) : s.OwnKept (s.commit t).2 :=
  own_commit fun w hw => ne_own_of_acceptsDatabase (ht w hw)

/-- Dropping the databases of users leaves what belongs to the member. -/
theorem own_dropUsers : s.OwnKept (SyncMoment.dropUsers s).2 :=
  own_commit fun _ hw => database_of_mem_dropUserDatabases hw

/-- Cloning a database that is replicated leaves what belongs to the member. -/
theorem own_clone {database : String} (h : filters.acceptsDatabase database = true)
    (withIndexes : Bool) (data : Store) :
    s.OwnKept (Clone.run filters withIndexes data database s).2 := by
  refine own_commit fun w hw => ?_
  rw [database_of_mem_plan hw]
  exact ne_own_of_acceptsDatabase h

end Store

/-! ## The pipeline -/

namespace Applied

variable {filters : Filters} {s s' : Applied}

/-- What belongs to the member of what a pipeline works on, whose flag it does not know. -/
def standing (s : Applied) (consistent : Bool) : Standing :=
  ⟨s.work.store, s.checkpoint, consistent⟩

theorem Effect.steps (h : s.Effect filters s') (consistent : Bool) :
    (s.standing consistent).Steps (s'.standing consistent) := by
  cases h with
  | commit t within =>
    exact (Standing.Step.replicate _ (Store.own_commit_within within)).steps
  | advance target => exact (Standing.Step.checkpoint (.advance target)).steps
  | note metrics work executed store =>
    refine (Standing.Step.replicate work.store ?_).steps
    rw [store]
    exact ⟨rfl, rfl⟩

/-- What the steps of a pipeline do to the member are steps. -/
theorem steps_effects (h : s.Effects filters s') (consistent : Bool) :
    (s.standing consistent).Steps (s'.standing consistent) := by
  induction h with
  | refl => exact .refl
  | tail _ heffect ih => exact ih.trans (heffect.steps consistent)

end Applied

/-! ## The initial sync -/

namespace SyncState

/-- What belongs to the member that is synchronised. -/
def standing (s : SyncState) : Standing := s.applied.standing s.consistent

theorem Outside.steps {s s' : SyncState} (h : s.Outside s') : s.standing.Steps s'.standing := by
  have hkept : s.store.OwnKept s'.store := by
    constructor <;> rw [h.databases]
  have hstep := (Standing.Step.replicate (m := s.standing) s'.store hkept).steps
  have hstanding : s'.standing = { s.standing with store := s'.store } := by
    rw [standing, Applied.standing, h.checkpoint, h.consistent]
    rfl
  rwa [hstanding]

end SyncState

namespace SyncMoment

variable {x : InitialSync} {m m' : SyncMoment}

/-- What a step of a sync does to the member are steps. -/
theorem Step.standing (h : Step x m m') : m.state.standing.Steps m'.state.standing := by
  cases h with
  | outside s left => exact left.steps
  | mark | confirm => exact (Standing.Step.flag _).steps
  | reset => exact (Standing.Step.checkpoint .reset).steps
  | force cloning tail => exact (Standing.Step.checkpoint (.force tail)).steps
  | drop => exact (Standing.Step.replicate _ Store.own_dropUsers).steps
  | clone cloning accepted data =>
    exact (Standing.Step.replicate _ (Store.own_clone accepted true data)).steps
  | apply applying effect => exact effect.steps _
  -- All others only say where the sync is.
  | cancel | begin | fail | openWindow | closeWindow | rebuild | finish | retry | giveUp =>
    exact .refl

theorem steps_standing (h : m.Steps x m') : m.state.standing.Steps m'.state.standing := by
  induction h with
  | refl => exact .refl
  | tail _ hstep ih => exact ih.trans hstep.standing

end SyncMoment

/-! ## Runs -/

namespace Standing

/-- What is replicated leaves alone what belongs to the member: so does every run of a pipeline,
whatever its filters are and its source delivers, and so does an initial sync at each of its moments
and at its end, whatever its source holds and whatever happens meanwhile. -/
theorem guarded_run :
    (∀ (p : Pipeline) (c : Context) (d : Disturbance) (source : Source) (s : Applied)
      (consistent : Bool),
      (s.standing consistent).Guarded ((p.run c d source s).2.standing consistent)) ∧
    (∀ (x : InitialSync) (s : SyncState) (m : SyncMoment), SyncMoment.Steps x { state := s } m →
      s.standing.Guarded m.state.standing) ∧
    ∀ (x : InitialSync) (s : SyncState), s.standing.Guarded (x.run s).2.standing := by
  refine ⟨fun p c d source s consistent => ?_, fun x s m hm => ?_, fun x s => ?_⟩
  · exact (Applied.steps_effects (p.effects_run c d source s) consistent).guarded
  · exact (SyncMoment.steps_standing hm).guarded
  · obtain ⟨m, hsteps, hstate, -⟩ := x.steps_run s
    rw [← hstate]
    exact (SyncMoment.steps_standing hsteps).guarded

/-- A member with a collection of its own. -/
def rooted : Store := (Store.empty.seed ⟨localDatabase, "startup"⟩ [.obj [("_id", .int 7)]]).2

/-- A source whose data and log name what belongs to other members. -/
def intruder : Remote where
  address := "a:1"
  data := ((Store.empty.seed ⟨localDatabase, "startup"⟩ [.obj [("_id", .int 8)]]).2.seed
    ⟨reservedDatabase, "forged"⟩ [.obj [("_id", .int 9)]]).2
  log := [⟨⟨1, 1⟩, 11, ⟨"shop", "orders"⟩, .insert (.obj [("_id", .int 1)])⟩,
    ⟨⟨1, 2⟩, 12, ⟨localDatabase, "startup"⟩, .delete (.int 7)⟩,
    ⟨⟨1, 3⟩, 13, ⟨localDatabase, "startup"⟩, .command .dropDatabase⟩,
    ⟨⟨1, 4⟩, 14, ⟨reservedDatabase, "oplog.replication"⟩,
      .command (.renameCollection "forged" true)⟩,
    ⟨⟨1, 5⟩, 15, ⟨"shop", "orders"⟩, .insert (.obj [("_id", .int 2)])⟩]
  tails := [⟨1, 1⟩]

theorem guarded_run_intruder :
    let applied : Applied := { work := { store := rooted }, checkpoint := ⟨.initial, 1⟩ }
    let s : SyncState := { remote := intruder, applied := applied }
    (({} : InitialSync).run s).1 = .finished 1 ∧
      ∃ m, SyncMoment.Steps {} { state := s } m ∧ m.state = (({} : InitialSync).run s).2 ∧
        s.standing.Guarded m.state.standing ∧
        m.state.store.document? ⟨localDatabase, "startup"⟩ (.ofId (.int 7)) =
          some (.obj [("_id", .int 7)]) ∧
        m.state.store.collection? ⟨reservedDatabase, "forged"⟩ = none := by
  intro applied s
  have hrun : (({} : InitialSync).run s).1 = .finished 1 := by decide +kernel
  obtain ⟨m, hsteps, hstate, -⟩ := InitialSync.steps_run {} s
  have hguarded := guarded_run.2.1 {} s m hsteps
  refine ⟨hrun, m, hsteps, hstate, hguarded, ?_, ?_⟩
  · rw [Store.document?_congr (Store.collection?_of_get? (s := rooted) hguarded.local_eq)]
    decide +kernel
  · exact hguarded.reserved ⟨reservedDatabase, "forged"⟩ rfl (by decide) (by decide)

end Standing

end Replica
