import Replica.Proofs.Execution.Interleaving

/-!
# All or nothing

A job runs in one transaction, so it has its whole effect or none (`Single.done_or_sameData`). That
asks little of its operations: they are on different documents, and what one of them puts in place
carries the key of its document (`Job.Single`). A batch is as good as what it is executed in: each
job of a sequential executor and each sub-batch of a concurrent one is all or nothing, whatever the
size and the order of the sub-batches (`Executor.allOrNothing_apply`). A job that is split is not:
one of its parts can take effect while another one fails (`Executor.runConcurrently_halfPaid`).
-/

namespace Replica

/-- The operation is on one document: what it puts in place carries the key. -/
structure NetOp.OnOne (op : NetOp) : Prop where
  /-- The identifier can be one of a document. -/
  id_ne_null : op.id ≠ .null
  /-- A document that is put in place carries the key. -/
  keyed : ∀ doc, op.effect = .insert doc ∨ op.effect = .replace doc ∨
    op.effect = .deleteCreate doc → DocKey.ofDocument doc = .ok op.key
  /-- Modifiers leave the identifier alone. -/
  spares : ∀ ms upsert, op.effect = .update ms upsert → ∀ m ∈ ms, m.SparesId

namespace Job

variable {job : Job} {jobs parts : List Job} {s m s' : Store} {w : Workplace}

/-- There is one operation for each document. -/
structure Single (job : Job) : Prop where
  /-- No two operations are on one document. -/
  nodup : (job.ops.map NetOp.key).Nodup
  /-- Each operation is on one document. -/
  ops : ∀ op ∈ job.ops, op.OnOne

theorem WellFormed.single (h : job.WellFormed) : job.Single :=
  ⟨h.nodup, fun op hop => ⟨(h.ops op hop).id_ne_null, (h.ops op hop).keyed, (h.ops op hop).spares⟩⟩

/-- A job that is planned strictly is well-formed: what looks up no target can require none. -/
theorem Single.wellFormed (h : job.Single) {t : Transaction} (hplan : job.plan .strict s = .ok t) :
    job.WellFormed := by
  have hrequired : ∀ op ∈ job.ops, op.effect.needsTarget = false → op.requiresMatch = false := by
    intro op hop hneeds
    by_contra hr
    -- The targets that are looked up belong to other documents.
    have hkey : op.key ∉ (job.ops.filter fun op => op.effect.needsTarget).map NetOp.key := by
      intro hmem
      obtain ⟨op', hop', hkey⟩ := List.mem_map.1 hmem
      obtain ⟨hop', hneeds'⟩ := List.mem_filter.1 hop'
      obtain rfl := List.inj_on_of_nodup_map h.nodup hop' hop hkey
      rw [hneeds] at hneeds'
      cases hneeds'
    have hmissing : (job.targets s).get? op.key = none := by
      unfold targets
      dsimp only
      split_ifs
      · exact Table.get?_empty _
      · rw [Store.get?_findDids, if_neg hkey]
    have hmem : op ∈ job.ops.filter fun op =>
        op.requiresMatch && !(job.targets s).contains op.key := by
      refine List.mem_filter.2 ⟨hop, ?_⟩
      rw [Table.contains_eq, hmissing]
      simpa using hr
    unfold plan at hplan
    dsimp only at hplan
    rw [if_pos] at hplan
    · cases hplan
    · refine ⟨rfl, ?_⟩
      rw [List.isEmpty_iff]
      exact List.ne_nil_of_mem (List.mem_map_of_mem hmem)
  refine ⟨h.nodup, fun op hop => ⟨(h.ops op hop).id_ne_null, (h.ops op hop).keyed,
    (h.ops op hop).spares, fun heff => ?_, fun doc heff => ?_⟩⟩
  · exact hrequired op hop (by rw [heff]; rfl)
  · exact hrequired op hop (by rw [heff]; rfl)

/-- A job that is executed strictly has its effect or leaves the data. -/
theorem Single.done_or_sameData (h : job.Single) (hs : w.store.WellFormed) :
    job.Done .strict w.store (job.apply .strict w).2.store ∨
      w.store.SameData (job.apply .strict w).2.store := by
  rcases happly : job.apply .strict w with ⟨e | ⟨⟩, w'⟩
  · exact .inr (apply_eq_error happly)
  · obtain ⟨s, t, -, hplan, -⟩ := Workplace.perform_eq_ok happly
    exact .inl (apply_eq_ok hs (h.wellFormed hplan) happly)

/-! ## What is executed one after another -/

/-- Each operation took effect, strictly. -/
def Effective (job : Job) (s s' : Store) : Prop :=
  ∀ op ∈ job.ops, op.Takes .strict (s.document? job.ns op.key) (s'.document? job.ns op.key)

/-- No operation took effect. -/
def Ineffective (job : Job) (s s' : Store) : Prop :=
  ∀ op ∈ job.ops, s'.document? job.ns op.key = s.document? job.ns op.key

/-- Of some jobs, each took effect as a whole or not at all, and nothing else happened. -/
structure AllOrNothing (jobs : List Job) (s s' : Store) : Prop where
  /-- All operations of a job took effect or none did. -/
  whole : ∀ job ∈ jobs, job.Effective s s' ∨ job.Ineffective s s'
  /-- No operation took effect if a required target was missing. -/
  missing : ∀ job ∈ jobs, ∀ op ∈ job.ops, op.requiresMatch = true →
    s.document? job.ns op.key = none → job.Ineffective s s'
  /-- The documents that no operation is on are as before. -/
  others : ∀ ns key, (∀ job ∈ jobs, job.ns = ns → ∀ op ∈ job.ops, op.key ≠ key) →
    s'.document? ns key = s.document? ns key
  /-- The indexes are as before. -/
  indexes : ∀ ns, (s'.collection ns).indexes = (s.collection ns).indexes

namespace AllOrNothing

/-- A job with an effect found all targets that it requires. -/
theorem of_whole (hwhole : ∀ job ∈ jobs, job.Effective s s' ∨ job.Ineffective s s')
    (hothers : ∀ ns key, (∀ job ∈ jobs, job.ns = ns → ∀ op ∈ job.ops, op.key ≠ key) →
      s'.document? ns key = s.document? ns key)
    (hindexes : ∀ ns, (s'.collection ns).indexes = (s.collection ns).indexes) :
    AllOrNothing jobs s s' where
  whole := hwhole
  missing := fun job hjob op hop hr hmissing =>
    (hwhole job hjob).resolve_left fun heffective => (heffective op hop).present rfl hr hmissing
  others := hothers
  indexes := hindexes

theorem of_sameData (h : s.SameData s') : AllOrNothing jobs s s' :=
  of_whole (fun job _ => .inr fun op _ => h.document? job.ns op.key)
    (fun ns key _ => h.document? ns key) (fun ns => by rw [h.collection])

/-- A job that is all or nothing, before jobs on other documents that are. -/
theorem cons (hstep : job.Done .strict s m ∨ s.SameData m)
    (hapart : ∀ other ∈ jobs, job.Apart other) (h : AllOrNothing jobs m s') :
    AllOrNothing (job :: jobs) s s' := by
  -- The first job leaves the documents of the others, and they leave those of the first.
  have hfirst : ∀ ns key, (job.ns = ns → ∀ op ∈ job.ops, op.key ≠ key) →
      m.document? ns key = s.document? ns key := by
    intro ns key hkey
    rcases hstep with hdone | hsame
    · exact hdone.kept hkey
    · exact hsame.document? ns key
  have hrest : ∀ op ∈ job.ops, s'.document? job.ns op.key = m.document? job.ns op.key :=
    fun op hop => h.others job.ns op.key fun other hother hns op' hop' hkey =>
      hapart other hother hns.symm op hop op' hop' hkey.symm
  have hapart' : ∀ other ∈ jobs, ∀ op ∈ other.ops,
      m.document? other.ns op.key = s.document? other.ns op.key :=
    fun other hother op hop => hfirst other.ns op.key fun hns op' hop' =>
      hapart other hother hns op' hop' op hop
  refine of_whole (List.forall_mem_cons.2 ⟨?_, fun other hother => ?_⟩) ?_ ?_
  · rcases hstep with hdone | hsame
    · refine .inl fun op hop => ?_
      rw [hrest op hop]
      exact hdone.takes op hop
    · refine .inr fun op hop => ?_
      rw [hrest op hop, hsame.document?]
  · rcases h.whole other hother with heffective | hineffective
    · refine .inl fun op hop => ?_
      rw [← hapart' other hother op hop]
      exact heffective op hop
    · refine .inr fun op hop => ?_
      rw [hineffective op hop, hapart' other hother op hop]
  · intro ns key hkey
    obtain ⟨hkey, hkeys⟩ := List.forall_mem_cons.1 hkey
    rw [h.others ns key hkeys, hfirst ns key hkey]
  · intro ns
    rw [h.indexes]
    rcases hstep with hdone | hsame
    · exact hdone.indexes ns
    · rw [hsame.collection]

end AllOrNothing

/-- Jobs that are executed one after another, up to the first that fails, are all or nothing. -/
theorem allOrNothing_applyAll (hsingle : ∀ job ∈ jobs, job.Single) (hapart : jobs.Pairwise Apart)
    (hs : w.store.WellFormed) :
    AllOrNothing jobs w.store (applyAll .strict jobs w).2.store := by
  induction jobs generalizing w with
  | nil => exact .of_sameData (.refl _)
  | cons job jobs ih =>
    obtain ⟨hjob, hjobs⟩ := List.forall_mem_cons.1 hsingle
    obtain ⟨hfirst, hrest⟩ := List.pairwise_cons.1 hapart
    have hstep := hjob.done_or_sameData hs
    rw [applyAll]
    rcases happly : job.apply .strict w with ⟨e | ⟨⟩, w₁⟩
    · exact .of_sameData (apply_eq_error happly)
    · rw [happly] at hstep
      have hs₁ : w₁.store.WellFormed := hstep.elim (·.wellFormed) (·.wellFormed hs)
      exact .cons hstep hfirst (ih hjobs hrest hs₁)

end Job

namespace Executor

variable {c : Context} {x : Executor} {jobs parts : List Job} {w : Workplace}

/-- Sub-batches that are executed one after another, up to a cancellation, are all or nothing. -/
theorem allOrNothing_runSubBatches (hsingle : ∀ part ∈ parts, part.Single)
    (hapart : parts.Pairwise Job.Apart) (hs : w.store.WellFormed)
    (failure : Option ReplicationError) :
    Job.AllOrNothing parts w.store (runSubBatches .strict parts failure w).2.2.store := by
  induction parts generalizing failure w with
  | nil => exact .of_sameData (.refl _)
  | cons part parts ih =>
    obtain ⟨hpart, hparts⟩ := List.forall_mem_cons.1 hsingle
    obtain ⟨hfirst, hrest⟩ := List.pairwise_cons.1 hapart
    have hstep := hpart.done_or_sameData hs
    rw [runSubBatches]
    split_ifs
    · exact .of_sameData (.refl _)
    · have hs₁ : (part.apply .strict w).2.store.WellFormed :=
        hstep.elim (·.wellFormed) (·.wellFormed hs)
      -- A failure is noted, and the next sub-batch is started none the less.
      rcases happly : part.apply .strict w with ⟨e | ⟨⟩, w₁⟩ <;> rw [happly] at hstep hs₁
      · exact .cons hstep hfirst (ih (w := { w₁ with
          metrics := (w₁.metrics.recordSubBatch unmeasured).finish 1 }) hparts hrest hs₁ _)
      · exact .cons hstep hfirst (ih (w := { w₁ with
          metrics := (w₁.metrics.recordSubBatch unmeasured).finish 1 }) hparts hrest hs₁ _)

/-- In whatever order the sub-batches of a batch stand, each has operations of its own only. -/
theorem single_subBatches {size : Nat} (hns : (jobs.map Job.ns).Nodup)
    (hjobs : ∀ job ∈ jobs, job.Single)
    (hperm : parts.Perm (jobs.flatMap fun job => job.split size)) :
    (∀ part ∈ parts, part.Single) ∧ parts.Pairwise Job.Apart := by
  have hnodup : ∀ job ∈ jobs, (job.ops.map NetOp.key).Nodup :=
    fun job hjob => (hjobs job hjob).nodup
  refine ⟨fun part hpart => ?_, ?_⟩
  · obtain ⟨job, hjob, hpart⟩ := List.mem_flatMap.1 (hperm.mem_iff.1 hpart)
    exact ⟨(Job.nodup_split (hnodup job hjob) size).1 part hpart,
      fun op hop => (hjobs job hjob).ops op (Job.mem_of_mem_split hpart hop)⟩
  · exact (hperm.pairwise_iff fun hab => hab.symm).2 (Job.apart_subBatches hns hnodup size)

/-- A batch with one operation for each document that is executed strictly is all or nothing job by
job where the executor is sequential, and sub-batch by sub-batch where it is concurrent, whatever
the size and the order of the sub-batches. A job of no more operations than their size is one. -/
theorem allOrNothing_apply (hs : w.store.Reachable) (hns : (jobs.map Job.ns).Nodup)
    (hjobs : ∀ job ∈ jobs, job.Single) (hc : c.strictness = .strict) :
    (x.dispatch = .sequential →
      Job.AllOrNothing jobs w.store (x.apply c (.jobs jobs) w).2.store) ∧
    (∀ workers sizing running, x.dispatch = .concurrent workers sizing running →
      Job.AllOrNothing (jobs.flatMap fun job => job.split (sizing.size w.metrics)) w.store
        (x.apply c (.jobs jobs) w).2.store) ∧
    ∀ size parts, parts.Perm (jobs.flatMap fun job => job.split size) →
      (∀ failure, Job.AllOrNothing parts w.store
        (runSubBatches c.strictness parts failure w).2.2.store) ∧
      ∀ job ∈ jobs, job.ops.length ≤ max size 1 → job ∈ parts := by
  have hwf := hs.wellFormed
  rw [apply, runJobs, hc]
  refine ⟨fun hx => ?_, fun workers sizing running hx => ?_, fun size parts hperm => ⟨?_, ?_⟩⟩
  · rw [hx]
    refine Job.allOrNothing_applyAll hjobs ((List.pairwise_map.1 hns).imp ?_) hwf
    exact fun hne heq => absurd heq hne
  · rw [hx]
    cases running with
    | false => exact .of_sameData (.refl _)
    | true =>
      dsimp only
      unfold runConcurrently
      dsimp only
      obtain ⟨hsingle, hapart⟩ := single_subBatches hns hjobs
        (.refl (jobs.flatMap fun job => job.split (sizing.size w.metrics)))
      generalize (jobs.flatMap fun job => job.split (sizing.size w.metrics)) = parts at *
      have hrun := allOrNothing_runSubBatches (w := { w with
        metrics := w.metrics.submit parts.length }) hsingle hapart hwf none
      -- What is counted and reported afterwards leaves the store.
      split <;> split_ifs <;> exact hrun
  · obtain ⟨hsingle, hapart⟩ := single_subBatches hns hjobs hperm
    exact allOrNothing_runSubBatches hsingle hapart hwf
  · intro job hjob hlength
    refine hperm.mem_iff.2 (List.mem_flatMap.2 ⟨job, hjob, ?_⟩)
    rw [Job.split, if_pos hlength]
    exact List.mem_singleton.2 rfl

/-- Two members pay, the second of whom does not belong to the club. -/
def halfPaid : List Entry :=
  let ns : Namespace := ⟨"club", "members"⟩
  let paid : Json := .obj [("$set", .obj [("paid", .bool true)])]
  [⟨⟨1, 1⟩, 1, ns, .update (.int 1) paid false⟩, ⟨⟨1, 2⟩, 2, ns, .update (.int 3) paid false⟩]

/-- The job of the two. -/
def halfPaidJobs : List Job :=
  [⟨⟨"club", "members"⟩, [⟨.int 1, .update [.set "paid" (.bool true)] false, true⟩,
    ⟨.int 3, .update [.set "paid" (.bool true)] false, true⟩]⟩]

theorem allOrNothing_apply_halfPaid :
    Batch.ofEntries .steady halfPaid = .ok [.jobs halfPaidJobs] ∧
    (({} : Executor).apply .steady (.jobs halfPaidJobs) ⟨Race.seatingStore, {}, {}⟩).1 =
      .error (.jobMismatch "club" "members" [⟨.ofId (.int 3), "update"⟩]) ∧
    Job.AllOrNothing halfPaidJobs Race.seatingStore
      (({} : Executor).apply .steady (.jobs halfPaidJobs) ⟨Race.seatingStore, {}, {}⟩).2.store := by
  have hbatches : Batch.ofEntries .steady halfPaid = .ok [.jobs halfPaidJobs] := by decide +kernel
  have hjobs := Batch.wellFormed_of_ofEntries hbatches (List.mem_singleton.2 rfl)
  refine ⟨hbatches, by decide +kernel, ?_⟩
  exact (allOrNothing_apply (w := ⟨Race.seatingStore, {}, {}⟩) Race.reachable_seatingStore
    hjobs.nodup (fun job hjob => (hjobs.jobs job hjob).single) rfl).1 rfl

/-- In sub-batches of one operation the job fails for the second member, whose document is missing,
and the first one has paid. -/
theorem runConcurrently_halfPaid : ∃ w' : Workplace,
    ({ dispatch := .concurrent 1 (.fixed 1) true } : Executor).apply .steady (.jobs halfPaidJobs)
      ⟨Race.seatingStore, {}, {}⟩ =
        (.error (.jobMismatch "club" "members" [⟨.ofId (.int 3), "update"⟩]), w') ∧
    w'.store.document? ⟨"club", "members"⟩ (.ofId (.int 1)) =
      some (.obj [("_id", .int 1), ("paid", .bool true), ("seat", .str "a")]) ∧
    ¬ Job.AllOrNothing halfPaidJobs Race.seatingStore w'.store := by
  have hresult : (({ dispatch := .concurrent 1 (.fixed 1) true } : Executor).apply .steady
      (.jobs halfPaidJobs) ⟨Race.seatingStore, {}, {}⟩).1 =
        .error (.jobMismatch "club" "members" [⟨.ofId (.int 3), "update"⟩]) := by
    decide +kernel
  have hpaid : (({ dispatch := .concurrent 1 (.fixed 1) true } : Executor).apply .steady
      (.jobs halfPaidJobs) ⟨Race.seatingStore, {}, {}⟩).2.store.document? ⟨"club", "members"⟩
        (.ofId (.int 1)) =
          some (.obj [("_id", .int 1), ("paid", .bool true), ("seat", .str "a")]) := by
    decide +kernel
  refine ⟨_, Prod.ext hresult rfl, hpaid, fun h => ?_⟩
  have hleft := h.missing _ List.mem_cons_self
    ⟨.int 3, .update [.set "paid" (.bool true)] false, true⟩ (by decide) rfl (by decide +kernel)
    ⟨.int 1, .update [.set "paid" (.bool true)] false, true⟩ (by decide)
  have hbefore : Race.seatingStore.document? ⟨"club", "members"⟩ (.ofId (.int 1)) =
      some (.obj [("_id", .int 1), ("seat", .str "a")]) := by
    decide +kernel
  have hsame := hpaid.symm.trans (hleft.trans hbefore)
  revert hsame
  decide

end Executor

end Replica
