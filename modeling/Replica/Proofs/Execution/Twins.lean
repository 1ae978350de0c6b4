import Replica.Proofs.Execution.Schema
import Replica.Proofs.Pipeline.Writes
import Replica.Proofs.Store.Twins

/-!
# Execution on two stores of one history

The same jobs and commands are executed on two stores that match, and one commit of the second store
may be refused. A transaction that is refused is planned again and done again, so each step has the
same outcome on both and leaves them matching (`Workplace.Twin.perform`), unless it fails on the
first store with an error that ends an initial sync. A job plans to take the same documents away and
to bring the same ones (`Job.echoes`), and a command plans the same (`Command.echoes`). So a batch
has the same outcome, whichever executor applies it (`Workplace.Twin.applyBatch`).
-/

namespace Replica

variable {α β σ : Type} {k : Option Nat} {made : Nat} {st : Strictness} {c : Context}
  {filters : Filters}

/-! ## Outcomes -/

/-- Two steps have the same result and leave related states, unless the first one fails with an
error after which no new initial sync may succeed. -/
def Mirrors (R : σ → σ → Prop) (o o' : Except ReplicationError α × σ) : Prop :=
  (∃ e, o.1 = .error e ∧ e.isRetryable = false) ∨ (o'.1 = o.1 ∧ R o.2 o'.2)

/-- What follows a step that may fail. -/
def andThen (o : Except ReplicationError α × σ) (f : α → σ → Except ReplicationError β × σ) :
    Except ReplicationError β × σ :=
  match o with
  | (.ok a, s) => f a s
  | (.error e, s) => (.error e, s)

theorem Mirrors.of_error {R : σ → σ → Prop} {o o' : Except ReplicationError α × σ}
    {e : ReplicationError} (h : o.1 = .error e) (he : e.isRetryable = false) : Mirrors R o o' :=
  .inl ⟨e, h, he⟩

theorem Mirrors.andThen {R : σ → σ → Prop} {o o' : Except ReplicationError α × σ}
    {f f' : α → σ → Except ReplicationError β × σ} (h : Mirrors R o o')
    (hf : ∀ a s s', R s s' → Mirrors R (f a s) (f' a s')) :
    Mirrors R (andThen o f) (andThen o' f') := by
  rcases o with ⟨e | a, s⟩
  · obtain ⟨e', he, hretryable⟩ | ⟨hresult, hrelated⟩ := h
    · exact .of_error rfl (Except.error.inj he ▸ hretryable)
    · rcases o' with ⟨r', s'⟩
      obtain rfl : r' = .error e := hresult
      exact .inr ⟨rfl, hrelated⟩
  · obtain ⟨e', he, -⟩ | ⟨hresult, hrelated⟩ := h
    · cases he
    · rcases o' with ⟨r', s'⟩
      obtain rfl : r' = .ok a := hresult
      exact hf a s s' hrelated

/-! ## Errors -/

theorem ReplicationError.isRetryable_of_isOfWrite {e : ReplicationError} (h : e.isOfWrite = true) :
    e.isRetryable = false := by
  cases e with
  | entry e =>
    rw [isOfWrite, Bool.not_eq_true'] at h
    exact h
  | user | duplicateKey => rfl
  | _ => cases h

theorem Modifier.isUnsupported_of_step {m : Modifier} {members : Json.Members} {e : EntryError}
    (h : (m.step members).2 = some e) : e.isUnsupported = false := by
  cases m with
  | set path value =>
    rw [step] at h
    split at h
    · cases h
    · obtain rfl := Option.some.inj h
      rfl
  | unset path => cases h

theorem Modifier.isUnsupported_of_runAll {modifiers : List Modifier} {members : Json.Members}
    {e : EntryError} (h : runAll modifiers members = .error e) : e.isUnsupported = false := by
  induction modifiers generalizing members with
  | nil => cases h
  | cons m ms ih =>
    rw [runAll] at h
    split at h
    · exact ih h
    · rename_i hstep
      obtain rfl := Except.error.inj h
      exact isUnsupported_of_step (congrArg Prod.snd hstep)

/-- Modifiers are supported, whether they can be applied or not. -/
theorem Modifier.isUnsupported_of_applyAll {modifiers : List Modifier} {doc : Json} {e : EntryError}
    (h : applyAll modifiers doc = .error e) : e.isUnsupported = false := by
  cases doc with
  | obj members => exact isUnsupported_of_runAll (map_eq_error.1 h)
  | _ =>
    obtain rfl := Except.error.inj h
    rfl

theorem NetOp.isUnsupported_of_result {op : NetOp} {found : Bool} {content : Option Json}
    {e : EntryError} (h : op.result found content = .error e) : e.isUnsupported = false := by
  unfold result at h
  split at h
  · cases h
  · cases h
  · cases h
  · cases h
  · cases h
  -- Only modifiers can fail to be applied.
  · split at h
    · exact Modifier.isUnsupported_of_applyAll (map_eq_error.1 h)
    · split_ifs at h
      exact Modifier.isUnsupported_of_applyAll (map_eq_error.1 h)

/-! ## Transactions -/

/-- The same was counted, but for transactions that were done again. -/
def ExecutorMetrics.SameWork (m m' : ExecutorMetrics) : Prop :=
  ∃ n, m' = { m with rollbacks := n }

/-- What a transaction does to the first of two matching stores, what is planned on the second one
does there. -/
def Echoes (plan : Store → Except ReplicationError Transaction) (s : Store) : Prop :=
  ∀ t s₁, plan s = .ok t → s.commit t = (.ok (), s₁) → ∀ s', s.Matches True s' →
    ∃ t' databases last, plan s' = .ok t' ∧
      Write.applyAll t' s'.nextDid s'.databases = (.ok databases, last) ∧ (t = [] ↔ t' = []) ∧
      ∀ s₁', s'.commit t' = (.ok (), s₁') → s₁.Matches True s₁'

namespace Workplace

variable {w w' : Workplace} {s s₁ : Store} {t : Transaction} {e : ReplicationError}
  {plan : Store → Except ReplicationError Transaction} {record : ExecutorMetrics → ExecutorMetrics}

/-- Two workplaces have matching stores and have counted the same, and no token is going to fire. -/
structure Twin (k : Option Nat) (made : Nat) (w w' : Workplace) : Prop where
  /-- The stores match, and a commit of the second one may be refused. -/
  store : w.store.Twin k made True w'.store
  /-- The same was counted. -/
  metrics : w.metrics.SameWork w'.metrics
  /-- The tokens are the same. -/
  cancel : w'.cancel = w.cancel
  /-- Opening a transaction does not fire the token. -/
  fuse : w.cancel.fuse = 0

/-- A transaction that is planned changes the store and nothing else. -/
theorem transact_eq (hfuse : w.cancel.fuse = 0) (hplan : plan w.store = .ok t) :
    w.transact plan = ((w.store.commit t).1, { w with store := (w.store.commit t).2 }) := by
  have hburn : w.cancel.burn = w.cancel := by
    unfold Cancellation.burn
    rw [hfuse]
  simp only [transact, hplan, hburn]

/-- A transaction that is committed at once is counted. -/
theorem perform_of_commit (hfuse : w.cancel.fuse = 0) (hplan : plan w.store = .ok t)
    (hcommit : w.store.commit t = (.ok (), s)) :
    w.perform plan record = (.ok (), { w with store := s, metrics := record w.metrics }) := by
  have htransact := transact_eq hfuse hplan
  rw [hcommit] at htransact
  rw [perform, retries, transactRetrying, htransact]

/-- A transaction that is refused and committed then is counted, and so is the refusal. -/
theorem perform_of_refused {reason : String} (hfuse : w.cancel.fuse = 0)
    (hplan : plan w.store = .ok t)
    (hrefused : w.store.commit t = (.error (.rollback reason), s)) (hagain : plan s = .ok t)
    (hcommit : s.commit t = (.ok (), s₁)) :
    w.perform plan record =
      (.ok (), { w with store := s₁, metrics := record w.metrics.recordRollback }) := by
  have hfirst := transact_eq hfuse hplan
  rw [hrefused] at hfirst
  have hsecond := transact_eq
    (w := { w with store := s, metrics := w.metrics.recordRollback }) hfuse hagain
  rw [hcommit] at hsecond
  rw [perform, retries, transactRetrying, hfirst]
  dsimp only
  rw [transactRetrying, hsecond]

/-- What performs on a store without faults is committed at once. -/
theorem commit_of_perform (hhealthy : w.store.Healthy) (hreads : Reads plan)
    (h : w.perform plan record = (.ok (), w')) :
    ∃ t s, plan w.store = .ok t ∧ w.store.commit t = (.ok (), s) := by
  obtain ⟨s, t, hsame, hplanned, -⟩ := perform_eq_ok h
  have hplanned' : plan w.store = .ok t := (hreads _ _ hsame.databases).symm.trans hplanned
  have hrefused := (Refusals.next_of_refused hhealthy.refused).1
  obtain ⟨hresult, -⟩ := transactRetrying_of_plan (n := retries) hplanned' hrefused
  obtain ⟨mid, hmid, -⟩ := exists_transactRetrying_of_perform h
  rw [hmid] at hresult
  exact ⟨t, (w.store.commit t).2, hplanned', Prod.ext hresult.symm rfl⟩

/-- What a store without faults does not commit fails with an error that ends an initial sync. -/
theorem isRetryable_of_perform (hhealthy : w.store.Healthy)
    (hplan : ∀ e, plan w.store = .error e → e.isRetryable = false)
    (h : (w.perform plan record).1 = .error e) : e.isRetryable = false := by
  cases hplanned : plan w.store with
  | error e' =>
    have he' := hplan e' hplanned
    rw [perform_of_plan_error hplanned (by rintro reason rfl; cases he')] at h
    exact Except.error.inj h ▸ he'
  | ok t =>
    have hrefused := (Refusals.next_of_refused hhealthy.refused).1
    obtain ⟨hresult, -⟩ := transactRetrying_of_plan (n := retries) hplanned hrefused
    rw [perform_eq_transactRetrying.1, hresult] at h
    exact ReplicationError.isRetryable_of_isOfWrite (Store.isOfWrite_of_commit hrefused h)

/-- A transaction that the first of two twins commits and that is refused on the second one is
planned again and done again there. -/
theorem Twin.perform_refused (h : w.Twin (some w.store.commits) made w') (hreads : Reads plan)
    (hechoes : Echoes plan w.store)
    (hrecord : ∀ m n, record { m with rollbacks := n } = { record m with rollbacks := n })
    (hplan : plan w.store = .ok t) (hcommit : w.store.commit t = (.ok (), s₁)) (ht : t ≠ []) :
    ∃ w₁', w'.perform plan record = (.ok (), w₁') ∧
      Twin (some w.store.commits) made { w with store := s₁, metrics := record w.metrics } w₁' := by
  obtain ⟨n, hmetrics⟩ := h.metrics
  obtain ⟨t', databases, last, hplan', happly, hnil, -⟩ :=
    hechoes t s₁ hplan hcommit w'.store h.store.toMatches
  have ht' : t' ≠ [] := fun hnil' => ht (hnil.2 hnil')
  obtain ⟨hrefused, htwin⟩ := h.store.refused ht'
  -- The second attempt plans what the first one did.
  have hagain := (hreads w'.store { w'.store with refusals := {} } rfl).trans hplan'
  obtain ⟨t₂, _, _, hplan₂, -, -, hmatches⟩ := hechoes t s₁ hplan hcommit _ htwin.toMatches
  obtain rfl := Except.ok.inj (hagain.symm.trans hplan₂)
  obtain ⟨s₁', hcommit', htwin'⟩ := htwin.commit hcommit happly (fun hnone => absurd rfl hnone)
    (.inr nofun) hmatches
  have hfuse : w'.cancel.fuse = 0 := h.cancel ▸ h.fuse
  have hcounted := Store.commits_commit ht hcommit
  refine ⟨_, perform_of_refused hfuse hplan' hrefused hagain hcommit', htwin'.past (by omega), ?_,
    h.cancel, h.fuse⟩
  refine ⟨n + 1, ?_⟩
  rw [hmetrics, ← hrecord]
  rfl

/-- A transaction has the same outcome on twins, unless it fails with an error that ends an initial
sync. -/
theorem Twin.perform (h : w.Twin k made w') (hreads : Reads plan)
    (hplan : ∀ e, plan w.store = .error e → e.isRetryable = false) (hechoes : Echoes plan w.store)
    (hrecord : ∀ m n, record { m with rollbacks := n } = { record m with rollbacks := n }) :
    Mirrors (Twin k made) (w.perform plan record) (w'.perform plan record) := by
  rcases hperform : w.perform plan record with ⟨e | ⟨⟩, w₁⟩
  · exact .of_error rfl
      (isRetryable_of_perform h.store.healthy hplan (congrArg Prod.fst hperform))
  · obtain ⟨t, s₁, hplanned, hcommit⟩ := commit_of_perform h.store.healthy hreads hperform
    rw [perform_of_commit h.fuse hplanned hcommit] at hperform
    obtain ⟨-, rfl⟩ := Prod.mk.inj hperform
    by_cases hhit : t ≠ [] ∧ k = some w.store.commits
    · obtain ⟨ht, rfl⟩ := hhit
      obtain ⟨w₁', hperform', htwin⟩ :=
        h.perform_refused hreads hechoes hrecord hplanned hcommit ht
      rw [hperform']
      exact .inr ⟨rfl, htwin⟩
    · -- The commit is not refused, so both stores commit at once.
      obtain ⟨n, hmetrics⟩ := h.metrics
      obtain ⟨t', databases, last, hplanned', happly, hnil, hmatches⟩ :=
        hechoes t s₁ hplanned hcommit w'.store h.store.toMatches
      have hmissed : t' = [] ∨ k ≠ some w.store.commits := by
        rwa [not_and_or, not_not, hnil] at hhit
      obtain ⟨s₁', hcommit', htwin⟩ :=
        h.store.commit hcommit happly (fun _ => hnil) hmissed hmatches
      have hfuse : w'.cancel.fuse = 0 := h.cancel ▸ h.fuse
      rw [perform_of_commit hfuse hplanned' hcommit']
      refine .inr ⟨rfl, htwin, ⟨n, ?_⟩, h.cancel, h.fuse⟩
      rw [hmetrics, hrecord]

end Workplace

/-! ## Jobs and commands -/

section Batches

variable {w w' : Workplace} {s s' s₁ : Store} {t : Transaction} {e : ReplicationError}

/-- A job that cannot be planned fails with an error that ends an initial sync. -/
theorem Job.isRetryable_of_plan {job : Job} (h : job.plan st s = .error e) :
    e.isRetryable = false := by
  unfold plan at h
  dsimp only at h
  split_ifs at h
  · obtain rfl := Except.error.inj h
    rfl
  · unfold writes at h
    split at h
    · rename_i e' hinserted
      obtain rfl := Except.error.inj h
      unfold inserted at hinserted
      dsimp only at hinserted
      cases hmap : job.ops.mapM fun op => op.result ((job.targets s).get? op.key).isSome
          (((job.targets s).get? op.key).bind (job.loaded (job.targets s) s).get?) with
      | error e =>
        rw [hmap] at hinserted
        obtain rfl := Except.error.inj hinserted
        obtain ⟨op, -, hop⟩ := exists_of_mapM_eq_error hmap
        exact NetOp.isUnsupported_of_result hop
      | ok results =>
        rw [hmap] at hinserted
        cases hinserted
    · cases h

/-- A job removes nothing exactly when nothing is there that its operations remove. -/
theorem Job.removed_eq_nil {job : Job} (hs : s.WellFormed) :
    job.removed (job.targets s) = [] ↔ ∀ op ∈ job.ops, op.effect.removesTarget = true →
      s.document? job.ns op.key = none := by
  simp only [List.eq_nil_iff_forall_not_mem, mem_removed, Store.document?,
    (hs job.ns).document?_eq_none, not_exists, not_and]
  constructor
  · intro h op hop hremoves
    exact Option.eq_none_iff_forall_ne_some.2 fun did hdid => h did op hop hremoves hdid
  · intro h did op hop hremoves hdid
    rw [h op hop hremoves] at hdid
    cases hdid

/-- A job on a collection of users does the same on matching stores. -/
theorem Job.echoes {job : Job} (hj : job.WellFormed) (hns : ¬ IsOwn job.ns.database)
    (s : Store) : Echoes (job.plan st) s := by
  intro t s₁ hplan hcommit s' h
  have hpaired := h.users trivial
  have hcollection := hpaired.collection hns
  have hdocument : ∀ key, s.document? job.ns key = s'.document? job.ns key := hcollection.documents
  obtain ⟨hfound, happlicable, rfl⟩ := (plan_eq_ok h.left hj).1 hplan
  have hplan' : job.plan st s' = .ok _ := (plan_eq_ok h.right hj).2
    ⟨fun hst op hop hrequires => hdocument op.key ▸ hfound hst op hop hrequires,
      fun op hop => hdocument op.key ▸ happlicable op hop, rfl⟩
  have harriving : job.arriving s' = job.arriving s := by
    simp only [arriving, hdocument]
  have hempty : job.removed (job.targets s) = [] ↔ job.removed (job.targets s') = [] := by
    simp only [removed_eq_nil h.left, removed_eq_nil h.right, hdocument]
  have hleft : Collection.Alike s.nextDid s'.nextDid (job.left s) (job.left s') := by
    refine ⟨((h.left job.ns).foldl_delete _).1, ((h.right job.ns).foldl_delete _).1,
      fun key => ?_, ?_⟩
    · rw [document?_left h.left, document?_left h.right, hdocument]
    · rw [left, left, ((h.left job.ns).foldl_delete _).2.1, ((h.right job.ns).foldl_delete _).2.1]
      exact hcollection.indexes
  rw [harriving] at hplan'
  obtain ⟨databases, last, happly, hlast⟩ :=
    hpaired.exists_applyAll_replace hns hleft hempty (Store.commit_eq_ok hcommit).1
  refine ⟨_, databases, last, hplan', happly, ?_, fun s₁' hcommit' => ?_⟩
  · rw [plan_eq_nil h.left hj hplan, plan_eq_nil h.right hj hplan', hempty, harriving]
  · have hown : ∀ {s t}, job.plan st s = .ok t → ∀ w ∈ t, ¬ IsOwn w.database := by
      intro s t hplan w hw
      obtain ⟨dids, rfl⟩ | ⟨docs, rfl⟩ := mem_plan hplan hw <;> exact hns
    obtain ⟨hdatabases, hnext⟩ := Prod.mk.inj (happly.symm.trans (Store.commit_eq_ok hcommit').1)
    refine h.commit (hown hplan) (hown hplan') hcommit hcommit' fun _ => ?_
    rw [← hnext, ← Except.ok.inj hdatabases]
    exact hlast

/-- A command that cannot be planned fails with an error that ends an initial sync, if it is
supported. -/
theorem Command.isRetryable_of_plan {command : Command} {ns : Namespace}
    (hsupported : ∀ name, command ≠ .unsupported name)
    (h : command.plan ns filters c s = .error e) : e.isRetryable = false := by
  cases command with
  | unsupported name => exact absurd rfl (hsupported name)
  | dropIndexes index =>
    dsimp only [plan] at h
    split_ifs at h
  | renameCollection target dropTarget =>
    dsimp only [plan] at h
    split_ifs at h
    unfold Transaction.rename at h
    split_ifs at h
    obtain rfl := Except.error.inj h
    rfl
  | _ => cases h

/-- A command on a database of users does the same on matching stores. -/
theorem Command.echoes (command : Command) {ns : Namespace} (hns : ¬ IsOwn ns.database)
    (s : Store) : Echoes (command.plan ns filters c) s := by
  intro t s₁ hplan hcommit s' h
  have hpaired := h.users trivial
  have hplan' : command.plan ns filters c s' = .ok t := by
    have hindexes : s'.indexes ns = s.indexes ns := by
      rw [Store.indexes_eq, Store.indexes_eq]
      exact congrArg Table.values (hpaired.collection hns).indexes.symm
    have hthere : s'.hasCollection ns = s.hasCollection ns :=
      (hpaired.database hns).contains ns.collection
    rw [← hplan]
    cases command with
    | dropIndexes index => simp only [plan, hindexes]
    | renameCollection target dropTarget => simp only [plan, hthere]
    | _ => rfl
  have hwrites : ∀ w ∈ t, ¬ IsOwn w.database ∧ ¬ w.IsDelete := by
    intro w hw
    cases plans_of_plan hplan w hw <;> exact ⟨hns, id⟩
  obtain ⟨databases, last, happly, hlast⟩ :=
    hpaired.exists_applyAll hwrites (Store.commit_eq_ok hcommit).1
  refine ⟨t, databases, last, hplan', happly, .rfl, fun s₁' hcommit' => ?_⟩
  obtain ⟨hdatabases, hnext⟩ := Prod.mk.inj (happly.symm.trans (Store.commit_eq_ok hcommit').1)
  have hown : ∀ w ∈ t, ¬ IsOwn w.database := fun w hw => (hwrites w hw).1
  refine h.commit hown hown hcommit hcommit' fun _ => ?_
  rw [← hnext, ← Except.ok.inj hdatabases]
  exact hlast

namespace Workplace.Twin

theorem applyJob {job : Job} (h : w.Twin k made w') (hj : job.WellFormed)
    (hns : ¬ IsOwn job.ns.database) :
    Mirrors (Twin k made) (job.apply st w) (job.apply st w') :=
  h.perform (Job.reads_plan job st) (fun _ => Job.isRetryable_of_plan) (Job.echoes hj hns w.store)
    fun _ _ => rfl

theorem applyCommand {entry : Entry} (h : w.Twin k made w') (hns : ¬ IsOwn entry.ns.database) :
    Mirrors (Twin k made) (entry.applyCommand filters c w) (entry.applyCommand filters c w') := by
  unfold Entry.applyCommand
  split
  · exact .inr ⟨rfl, h⟩
  · rename_i command hsupported _
    exact h.perform (Command.reads_plan command entry.ns filters c)
      (fun _ => Command.isRetryable_of_plan fun name heq => hsupported name heq)
      (Command.echoes command hns w.store) fun _ _ => rfl
  · exact .inr ⟨rfl, h⟩

theorem count {f : ExecutorMetrics → ExecutorMetrics} (h : w.Twin k made w')
    (hf : ∀ m n, f { m with rollbacks := n } = { f m with rollbacks := n }) :
    Twin k made { w with metrics := f w.metrics } { w' with metrics := f w'.metrics } := by
  obtain ⟨n, hmetrics⟩ := h.metrics
  exact { h with metrics := ⟨n, by rw [hmetrics, hf]⟩ }

end Workplace.Twin

end Batches

/-! ## Executors -/

section Executors

variable {w w' : Workplace} {jobs : List Job} {x : Executor} {b : Batch}

/-- All jobs are well-formed and on databases of users. -/
def Job.OfUsers (jobs : List Job) : Prop :=
  ∀ job ∈ jobs, job.WellFormed ∧ ¬ IsOwn job.ns.database

theorem Job.applyAll_cons (st : Strictness) (job : Job) (jobs : List Job) (w : Workplace) :
    applyAll st (job :: jobs) w = andThen (job.apply st w) fun _ => applyAll st jobs := by
  rw [applyAll]
  rcases job.apply st w with ⟨e | ⟨⟩, w₁⟩ <;> rfl

namespace Workplace.Twin

theorem applyAll (h : w.Twin k made w') (hjobs : Job.OfUsers jobs) :
    Mirrors (Twin k made) (Job.applyAll st jobs w) (Job.applyAll st jobs w') := by
  induction jobs generalizing w w' with
  | nil => exact .inr ⟨rfl, h⟩
  | cons job jobs ih =>
    obtain ⟨⟨hj, hns⟩, hjobs⟩ := List.forall_mem_cons.1 hjobs
    rw [Job.applyAll_cons, Job.applyAll_cons]
    exact (h.applyJob hj hns).andThen fun _ _ _ hnext => ih hnext hjobs

end Workplace.Twin

namespace Executor

/-- Where a sub-batch has failed with an error that ends an initial sync, such an error is
reported. -/
theorem isRetryable_runSubBatches (hhealthy : w.store.Healthy) {e : ReplicationError}
    (he : e.isRetryable = false) :
    ∃ e', (runSubBatches st jobs (some e) w).1 = some e' ∧ e'.isRetryable = false := by
  induction jobs generalizing w e with
  | nil => exact ⟨e, rfl, he⟩
  | cons job jobs ih =>
    have hnext : (job.apply st w).2.store.Healthy := Job.healthy_apply hhealthy
    have hfail : ∀ e', (job.apply st w).1 = .error e' → e'.isRetryable = false := fun _ =>
      Workplace.isRetryable_of_perform hhealthy fun _ => Job.isRetryable_of_plan
    unfold runSubBatches
    split_ifs
    · exact ⟨e, rfl, he⟩
    · rcases happly : job.apply st w with ⟨e' | ⟨⟩, w₁⟩
      · rw [happly] at hnext hfail
        refine ih (w := { w₁ with metrics := (w₁.metrics.recordSubBatch unmeasured).finish 1 })
          hnext ?_
        unfold ReplicationError.first?
        dsimp only
        split_ifs
        · exact hfail e' rfl
        · exact he
      · rw [happly] at hnext
        exact ih (w := { w₁ with metrics := (w₁.metrics.recordSubBatch unmeasured).finish 1 })
          hnext he

/-- Sub-batches are run alike on twins, unless one of them fails. -/
theorem runSubBatches_twin (st : Strictness) (h : w.Twin k made w')
    (hjobs : Job.OfUsers jobs) :
    (∃ e, (runSubBatches st jobs none w).1 = some e ∧ e.isRetryable = false) ∨
      ∃ interrupted w₁ w₁', runSubBatches st jobs none w = (none, interrupted, w₁) ∧
        runSubBatches st jobs none w' = (none, interrupted, w₁') ∧ w₁.Twin k made w₁' := by
  induction jobs generalizing w w' with
  | nil => exact .inr ⟨false, w, w', rfl, rfl, h⟩
  | cons job jobs ih =>
    obtain ⟨⟨hj, hns⟩, hjobs⟩ := List.forall_mem_cons.1 hjobs
    have hfired : w'.cancel.fired = w.cancel.fired := by
      rw [h.cancel]
    unfold runSubBatches
    rw [hfired]
    split_ifs
    · exact .inr ⟨true, _, _, rfl, rfl,
        h.count (f := fun m => m.finish (jobs.length + 1)) fun _ _ => rfl⟩
    · have hhealthy : (job.apply st w).2.store.Healthy := Job.healthy_apply h.store.healthy
      rcases happly : job.apply st w with ⟨e | ⟨⟩, w₁⟩
      · left
        rw [happly] at hhealthy
        refine isRetryable_runSubBatches
          (w := { w₁ with metrics := (w₁.metrics.recordSubBatch unmeasured).finish 1 }) hhealthy ?_
        exact Workplace.isRetryable_of_perform h.store.healthy (fun _ => Job.isRetryable_of_plan)
          (congrArg Prod.fst happly)
      · have hmirrors : Mirrors (Workplace.Twin k made) (job.apply st w) (job.apply st w') :=
          h.applyJob hj hns
        rw [happly] at hmirrors
        obtain ⟨e, he, -⟩ | ⟨hresult, hnext⟩ := hmirrors
        · cases he
        · rcases happly' : job.apply st w' with ⟨r', w₁'⟩
          rw [happly'] at hresult hnext
          obtain rfl : r' = .ok () := hresult
          exact ih (hnext.count (f := fun m => (m.recordSubBatch unmeasured).finish 1)
            fun _ _ => rfl) hjobs

/-- Jobs that are split are run alike on twins. -/
theorem runConcurrently_twin (sizing : Sizing) (h : w.Twin k made w') (hjobs : Job.OfUsers jobs) :
    Mirrors (Workplace.Twin k made) (runConcurrently sizing st jobs w)
      (runConcurrently sizing st jobs w') := by
  have hsize : sizing.size w'.metrics = sizing.size w.metrics := by
    obtain ⟨n, hmetrics⟩ := h.metrics
    rw [hmetrics]
    cases sizing <;> rfl
  let parts := jobs.flatMap fun job => job.split (sizing.size w.metrics)
  have hparts : Job.OfUsers parts := by
    intro part hpart
    obtain ⟨job, hjob, hpart⟩ := List.mem_flatMap.1 hpart
    obtain ⟨hj, hns⟩ := hjobs job hjob
    exact ⟨hj.split hpart, Job.ns_of_mem_split hpart ▸ hns⟩
  have hstart := h.count (f := fun m => m.submit parts.length) fun _ _ => rfl
  unfold runConcurrently
  dsimp only
  rw [hsize]
  obtain ⟨e, hfailed, he⟩ | ⟨interrupted, w₁, w₁', hrun, hrun', hnext⟩ :=
    runSubBatches_twin st hstart hparts
  · refine .of_error (e := e) ?_ he
    rcases hrun : runSubBatches st parts none
      { w with metrics := w.metrics.submit parts.length } with ⟨failure, interrupted, w₁⟩
    rw [hrun] at hfailed
    obtain rfl : failure = some e := hfailed
    rfl
  · rw [hrun, hrun']
    have hstarted : w₁'.metrics.subBatches - (w'.metrics.submit parts.length).subBatches =
        w₁.metrics.subBatches - (w.metrics.submit parts.length).subBatches := by
      obtain ⟨n, hmetrics⟩ := hnext.metrics
      obtain ⟨m, hbefore⟩ := h.metrics
      rw [hmetrics, hbefore]
      rfl
    refine .inr ⟨rfl, ?_⟩
    dsimp only
    rw [hstarted]
    split_ifs
    · exact hnext
    · exact hnext.count (f := fun m => m.recordQueueWait unmeasured) fun _ _ => rfl

end Executor

/-- A batch is on databases of users, and its jobs are well-formed. -/
def Batch.OfUsers : Batch → Prop
  | .jobs jobs => Job.OfUsers jobs
  | .command e => ¬ IsOwn e.ns.database
  | .noop => True

/-- The batches of entries that pass filters are on databases of users. -/
theorem Batch.ofUsers_of_ofEntries {es : List Entry} {batches : List Batch}
    (hes : ∀ e ∈ es, filters.acceptsEntry e = true) (h : ofEntries c es = .ok batches) :
    ∀ b ∈ batches, b.OfUsers := by
  have hown : ∀ {name}, filters.acceptsDatabase name = true → ¬ IsOwn name := by
    intro name haccepts
    simp only [Filters.acceptsDatabase, Bool.and_eq_true, bne_iff_ne] at haccepts
    exact not_or.2 haccepts.1.1
  intro b hb
  have hwithin := within_ofEntries hes h b hb
  cases b with
  | jobs jobs =>
    exact fun job hjob => ⟨(wellFormed_of_ofEntries h hb).jobs job hjob, hown (hwithin job hjob)⟩
  | command e => exact hown hwithin
  | noop => trivial

/-- A batch has the same outcome on twins, unless it fails with an error that ends an initial
sync. -/
theorem Workplace.Twin.applyBatch (h : w.Twin k made w') (hb : b.OfUsers) :
    Mirrors (Twin k made) (x.apply c b w) (x.apply c b w') := by
  cases b with
  | jobs jobs =>
    show Mirrors (Twin k made) (x.runJobs c jobs w) (x.runJobs c jobs w')
    unfold Executor.runJobs
    split
    · exact h.applyAll hb
    · exact Executor.runConcurrently_twin _ h hb
    · exact .of_error rfl rfl
  | command e => exact h.applyCommand hb
  | noop => exact .inr ⟨rfl, h⟩

end Executors

end Replica
