import Replica.Proofs.Execution.SubBatches

/-!
# What execution commits

Jobs and commands change the store by commits of writes that they plan: a job deletes and inserts in
its collection (`Job.mem_plan`), and a command has writes of its own kind (`Command.plans_of_plan`).
So what every such commit keeps is kept by a batch, whichever executor applies it and whether it
succeeds or not (`Executor.keeps_apply`).
-/

namespace Replica

variable {P : Store → Prop} {st : Strictness} {c : Context} {x : Executor} {w w' : Workplace}

/-! ## Jobs -/

namespace Job

variable {job : Job} {jobs : List Job}

/-- Every commit of writes that the job plans keeps a property of stores. -/
def Keeps (st : Strictness) (P : Store → Prop) (job : Job) : Prop :=
  ∀ s t, job.plan st s = .ok t → P s → P (s.commit t).2

theorem Keeps.apply (h : job.Keeps st P) (hw : P w.store) : P (job.apply st w).2.store :=
  Workplace.perform_keeps h hw

theorem keeps_applyAll (hjobs : ∀ job ∈ jobs, job.Keeps st P) (hw : P w.store) :
    P (applyAll st jobs w).2.store := by
  induction jobs generalizing w with
  | nil => exact hw
  | cons job jobs ih =>
    obtain ⟨hjob, hjobs⟩ := List.forall_mem_cons.1 hjobs
    have hfirst := hjob.apply hw
    unfold applyAll
    rcases happly : job.apply st w with ⟨e | ⟨⟩, w₁⟩
    · rw [happly] at hfirst
      exact hfirst
    · rw [happly] at hfirst
      exact ih hjobs hfirst

end Job

namespace Executor

variable {jobs : List Job}

theorem keeps_runSubBatches (hjobs : ∀ job ∈ jobs, job.Keeps st P)
    (failure : Option ReplicationError) (hw : P w.store) :
    P (runSubBatches st jobs failure w).2.2.store := by
  induction jobs generalizing failure w with
  | nil => exact hw
  | cons job jobs ih =>
    obtain ⟨hjob, hjobs⟩ := List.forall_mem_cons.1 hjobs
    have hfirst := hjob.apply hw
    unfold runSubBatches
    split_ifs
    · exact hw
    · rcases happly : job.apply st w with ⟨e | ⟨⟩, w₁⟩ <;> dsimp only
      · rw [happly] at hfirst
        exact ih (w := { w₁ with metrics := (w₁.metrics.recordSubBatch unmeasured).finish 1 }) hjobs
          _ hfirst
      · rw [happly] at hfirst
        exact ih (w := { w₁ with metrics := (w₁.metrics.recordSubBatch unmeasured).finish 1 }) hjobs
          _ hfirst

/-- Jobs that are split keep what every job on one of their collections keeps. -/
theorem keeps_runConcurrently (sizing : Sizing)
    (hjobs : ∀ part : Job, part.ns ∈ jobs.map Job.ns → part.Keeps st P) (hw : P w.store) :
    P (runConcurrently sizing st jobs w).2.store := by
  let parts := jobs.flatMap fun job => job.split (sizing.size w.metrics)
  have hparts : ∀ part ∈ parts, part.Keeps st P := by
    intro part hpart
    obtain ⟨job, hjob, hpart⟩ := List.mem_flatMap.1 hpart
    exact hjobs part (Job.ns_of_mem_split hpart ▸ List.mem_map_of_mem hjob)
  have hrun := keeps_runSubBatches (w := { w with metrics := w.metrics.submit parts.length })
    hparts none hw
  unfold runConcurrently
  dsimp only
  -- What is counted and reported afterwards leaves the store.
  split <;> split_ifs <;> exact hrun

end Executor

/-! ## Commands -/

/-- A command on a collection may write this. -/
inductive Command.Plans (ns : Namespace) : Command → Write → Prop
  | create : Plans ns .create (.createCollection ns)
  | drop : Plans ns .drop (.dropCollection ns)
  | dropDatabase : Plans ns .dropDatabase (.dropDatabase ns.database)
  | createIndex (indexes : List IndexSpec) (index : IndexSpec) :
      Plans ns (.createIndexes indexes) (.createIndex ns index)
  | dropIndex (index name : String) : Plans ns (.dropIndexes index) (.dropIndex ns name)
  | rename (target : String) (dropTarget : Bool) :
      Plans ns (.renameCollection target dropTarget) (.rename ns (ns.sibling target) dropTarget)

/-- A command writes what its kind writes. -/
theorem Command.plans_of_plan {command : Command} {ns : Namespace} {f : Filters} {s : Store}
    {t : Transaction} (h : command.plan ns f c s = .ok t) :
    ∀ write ∈ t, command.Plans ns write := by
  cases command with
  | create =>
    obtain rfl := Except.ok.inj h
    exact List.forall_mem_singleton.2 .create
  | drop =>
    obtain rfl := Except.ok.inj h
    exact List.forall_mem_singleton.2 .drop
  | dropDatabase =>
    obtain rfl := Except.ok.inj h
    exact List.forall_mem_singleton.2 .dropDatabase
  | createIndexes indexes =>
    obtain rfl := Except.ok.inj h
    exact List.forall_mem_map.2 fun index _ => .createIndex indexes index
  | dropIndexes index =>
    dsimp only [plan] at h
    split_ifs at h
    · obtain rfl := Except.ok.inj h
      exact List.forall_mem_map.2 fun spec _ => .dropIndex index spec.name
    · obtain rfl := Except.ok.inj h
      exact fun _ hw => nomatch hw
    · obtain rfl := Except.ok.inj h
      exact List.forall_mem_singleton.2 (.dropIndex index index)
  | renameCollection target dropTarget =>
    -- The source and the target are collections of one database.
    dsimp only [plan] at h
    split_ifs at h
    · obtain rfl := Except.ok.inj h
      exact fun _ hw => nomatch hw
    · unfold Transaction.rename at h
      split_ifs at h
      obtain rfl := Except.ok.inj h
      exact List.forall_mem_singleton.2 (.rename target dropTarget)
  | unsupported command => cases h

/-! ## Batches -/

/-- Every commit of writes that a command plans keeps a property of stores. -/
def Entry.Keeps (f : Filters) (c : Context) (P : Store → Prop) (e : Entry) : Prop :=
  ∀ command s t, e.action = .command command → command.plan e.ns f c s = .ok t → P s →
    P (s.commit t).2

theorem Entry.Keeps.applyCommand {e : Entry} {f : Filters} (h : e.Keeps f c P) (hw : P w.store) :
    P (e.applyCommand f c w).2.store := by
  unfold Entry.applyCommand
  split
  · exact hw
  · rename_i command _ haction
    exact Workplace.perform_keeps (fun s t => h command s t haction) hw
  · exact hw

/-- Every commit of writes that the jobs of a batch plan, or others on their collections, or its
command, keeps a property of stores. -/
def Batch.Keeps (x : Executor) (c : Context) (P : Store → Prop) : Batch → Prop
  | .jobs js => ∀ part : Job, part.ns ∈ js.map Job.ns → part.Keeps c.strictness P
  | .command e => e.Keeps x.filters c P
  | .noop => True

namespace Executor

variable {b : Batch} {bs : List Batch}

theorem keeps_apply (hb : b.Keeps x c P) (hw : P w.store) : P (x.apply c b w).2.store := by
  cases b with
  | jobs jobs =>
    show P (x.runJobs c jobs w).2.store
    unfold runJobs
    split
    · exact Job.keeps_applyAll (fun job hjob => hb job (List.mem_map_of_mem hjob)) hw
    · exact keeps_runConcurrently _ hb hw
    · exact hw
  | command e => exact Entry.Keeps.applyCommand hb hw
  | noop => exact hw

theorem keeps_runs (hbs : ∀ b ∈ bs, b.Keeps x c P) (hw : P w.store) (h : x.Runs c bs w w') :
    P w'.store := by
  induction bs generalizing w with
  | nil => exact runs_nil.1 h ▸ hw
  | cons b bs ih =>
    obtain ⟨hb, hbs⟩ := List.forall_mem_cons.1 hbs
    obtain ⟨m, happly, h⟩ := runs_cons.1 h
    have hfirst := keeps_apply hb hw
    rw [happly] at hfirst
    exact ih hbs hfirst h

end Executor

end Replica
