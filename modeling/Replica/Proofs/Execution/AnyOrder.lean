import Replica.Proofs.Execution.Schedules

/-!
# Sub-batches in any order

The sub-batches of a batch are executed as whole transactions in some order. While they are, each
document is either as it was before the batch or as the batch leaves it (`Midway`), so two documents
can collide in a unique index that they never collide in before or afterwards. They do in some order
exactly when one document takes the values that another one had (`Undisputed`). Hence a batch whose
jobs succeed one after another succeeds in sub-batches of every size and in every order if no values
are disputed, and otherwise it fails in some order (`runSubBatches_of_applyAll`), if not in the one
in which an executor hands them over (`runConcurrently_seatTaken`).
-/

namespace Replica

namespace Job

variable {st : Strictness} {job part : Job} {jobs parts rest : List Job} {s₀ s s' t : Store}
  {w w' : Workplace} {ns : Namespace} {key : DocKey} {op : NetOp}

/-- No document of a job takes the values of a unique index that another one had. -/
def Undisputed (job : Job) (s t : Store) : Prop :=
  ∀ index ∈ s.indexes job.ns, index.unique = true → ∀ op ∈ job.ops, ∀ op' ∈ job.ops,
    op.key ≠ op'.key → ∀ doc ∈ t.document? job.ns op.key, ∀ doc' ∈ s.document? job.ns op'.key,
      index.tuple doc ≠ index.tuple doc'

instance (job : Job) (s t : Store) : Decidable (job.Undisputed s t) :=
  inferInstanceAs (Decidable (∀ index ∈ s.indexes job.ns, index.unique = true → ∀ op ∈ job.ops,
    ∀ op' ∈ job.ops, op.key ≠ op'.key → ∀ doc ∈ t.document? job.ns op.key,
      ∀ doc' ∈ s.document? job.ns op'.key, index.tuple doc ≠ index.tuple doc'))

/-- What belongs to no operation is left as it was. -/
theorem Lead.others (h : Lead st jobs s t)
    (hkey : ∀ job ∈ jobs, job.ns = ns → ∀ op ∈ job.ops, op.key ≠ key) :
    t.document? ns key = s.document? ns key := by
  have hlead := h ns key
  cases hop : Gathering.op? jobs ns key with
  | none =>
    rw [hop] at hlead
    exact hlead
  | some op =>
    obtain ⟨job, hjob, hns, hmem, hkey'⟩ := Gathering.exists_of_op? hop
    exact absurd hkey' (hkey job hjob hns op hmem)

/-- What an operation of a job leads to. -/
theorem Lead.takes (h : Lead st jobs s t) (hjobs : Gathering.WellFormed jobs) (hjob : job ∈ jobs)
    (hop : op ∈ job.ops) :
    op.Takes st (s.document? job.ns op.key) (t.document? job.ns op.key) := by
  have hlead := h job.ns op.key
  rwa [Gathering.op?_of_mem hjobs hjob hop] at hlead

/-- The jobs of a batch lead from one well-formed store to another with the same indexes. -/
structure Leading (st : Strictness) (jobs : List Job) (s₀ t : Store) : Prop where
  /-- The jobs are well-formed. -/
  wellFormed : Gathering.WellFormed jobs
  /-- The store is well-formed before. -/
  start : s₀.WellFormed
  /-- The store is well-formed afterwards. -/
  last : t.WellFormed
  /-- The indexes are the same. -/
  indexes : ∀ ns, (t.collection ns).indexes = (s₀.collection ns).indexes
  /-- The operations lead from the one to the other. -/
  lead : Lead st jobs s₀ t

/-- While some sub-batches remain, their documents are as they were at first, and all others are as
they will be in the end. -/
structure Midway (s₀ t : Store) (rest : List Job) (s : Store) : Prop where
  /-- The store is well-formed. -/
  wellFormed : s.WellFormed
  /-- No commit is going to fail for a fault. -/
  healthy : s.Healthy
  /-- The indexes are those of the beginning. -/
  indexes : ∀ ns, (s.collection ns).indexes = (s₀.collection ns).indexes
  /-- What remains to be done is as it was. -/
  pending : ∀ part ∈ rest, ∀ op ∈ part.ops,
    s.document? part.ns op.key = s₀.document? part.ns op.key
  /-- All else is as it will be. -/
  settled : ∀ ns key, (∀ part ∈ rest, part.ns = ns → ∀ op ∈ part.ops, op.key ≠ key) →
    s.document? ns key = t.document? ns key

/-- A document of the end and a document of the beginning that is still to be changed do not
collide. -/
theorem Leading.eq_of_tuple (h : Leading st jobs s₀ t)
    (hundisputed : ∀ job ∈ jobs, job.Undisputed s₀ t) (hjob : job ∈ jobs) (hop : op ∈ job.ops)
    {index : IndexSpec} (hindex : index ∈ (s₀.collection job.ns).indexes.values)
    (hunique : index.unique = true) {doc doc' : Json} (hdoc : t.document? job.ns key = some doc)
    (hdoc' : s₀.document? job.ns op.key = some doc') (ht : index.tuple doc = index.tuple doc') :
    key = op.key := by
  by_cases hown : ∃ op' ∈ job.ops, op'.key = key
  · obtain ⟨op', hop', rfl⟩ := hown
    by_contra hne
    rw [← Store.indexes_eq] at hindex
    exact hundisputed job hjob index hindex hunique op' hop' op hop hne doc hdoc doc' hdoc' ht
  · -- The first document belongs to no operation, so it was there at the beginning, too.
    rw [h.lead.others] at hdoc
    · exact (h.start job.ns).unique index hindex hunique _ _ _ _ hdoc hdoc' ht
    · intro job' hjob' hns op' hop' hkey
      obtain rfl := List.inj_on_of_nodup_map h.wellFormed.nodup hjob' hjob hns
      exact hown ⟨op', hop', hkey⟩

/-- A sub-batch that comes next leads to what will be in the end. -/
theorem Midway.takes (h : Midway s₀ t (part :: rest) s) (hlead : Leading st jobs s₀ t)
    (hpart : ∀ op ∈ part.ops, ∃ job ∈ jobs, job.ns = part.ns ∧ op ∈ job.ops) (hop : op ∈ part.ops) :
    op.Takes st (s.document? part.ns op.key) (t.document? part.ns op.key) := by
  obtain ⟨job, hjob, hns, hmem⟩ := hpart op hop
  rw [h.pending part List.mem_cons_self op hop, ← hns]
  exact hlead.lead.takes hlead.wellFormed hjob hmem

/-- When it is done, its documents are as they will be. -/
theorem Midway.next (h : Midway s₀ t (part :: rest) s) (hdone : part.Done st s s')
    (hhealthy : s'.Healthy) (hapart : ∀ p ∈ rest, part.Apart p)
    (htakes : ∀ op ∈ part.ops,
      op.Takes st (s.document? part.ns op.key) (t.document? part.ns op.key)) :
    Midway s₀ t rest s' where
  wellFormed := hdone.wellFormed
  healthy := hhealthy
  indexes ns := by rw [hdone.indexes, h.indexes]
  pending p hp op hop := by
    rw [← h.pending p (List.mem_cons_of_mem _ hp) op hop]
    exact hdone.kept fun hns op' hop' => hapart p hp hns op' hop' op hop
  settled ns key hkey := by
    by_cases hown : part.ns = ns ∧ ∃ op ∈ part.ops, op.key = key
    · obtain ⟨rfl, op, hop, rfl⟩ := hown
      exact (hdone.takes op hop).unique (htakes op hop)
    · have hnone : part.ns = ns → ∀ op ∈ part.ops, op.key ≠ key :=
        fun hns op hop heq => hown ⟨hns, op, hop, heq⟩
      rw [hdone.kept hnone]
      exact h.settled ns key (List.forall_mem_cons.2 ⟨hnone, hkey⟩)

/-- The document with a key that a sub-batch is to leave in its collection: the one of the end if
one of its operations is on it. -/
def reaches (part : Job) (s t : Store) (key : DocKey) : Option Json :=
  if ∃ op ∈ part.ops, op.key = key then t.document? part.ns key else s.document? part.ns key

/-- Behind a sub-batch a document is one of the end, or one of the beginning that remains to be
changed. -/
theorem Midway.reaches_cases (h : Midway s₀ t (part :: rest) s)
    (hparts : ∀ p ∈ part :: rest, ∀ op ∈ p.ops, ∃ job ∈ jobs, job.ns = p.ns ∧ op ∈ job.ops)
    {doc : Json} (hdoc : part.reaches s t key = some doc) : t.document? part.ns key = some doc ∨
      s₀.document? part.ns key = some doc ∧ ∃ job ∈ jobs, job.ns = part.ns ∧
        ∃ op ∈ job.ops, op.key = key := by
  unfold reaches at hdoc
  split_ifs at hdoc with hown
  · exact .inl hdoc
  by_cases hremains : ∃ p ∈ rest, p.ns = part.ns ∧ ∃ op ∈ p.ops, op.key = key
  · obtain ⟨p, hp, hns, op, hop, rfl⟩ := hremains
    have hpending := h.pending p (List.mem_cons_of_mem _ hp) op hop
    obtain ⟨job, hjob, hjobns, hmem⟩ := hparts p (List.mem_cons_of_mem _ hp) op hop
    rw [hns] at hpending hjobns
    exact .inr ⟨hpending ▸ hdoc, job, hjob, hjobns, op, hmem, rfl⟩
  · refine .inl (h.settled part.ns key ?_ ▸ hdoc)
    refine List.forall_mem_cons.2 ⟨fun _ op hop hkey => hown ⟨op, hop, hkey⟩, ?_⟩
    exact fun p hp hns op hop hkey => hremains ⟨p, hp, hns, op, hop, hkey⟩

/-- No two of these documents collide. -/
theorem Midway.key_eq_of_reaches (h : Midway s₀ t (part :: rest) s) (hlead : Leading st jobs s₀ t)
    (hundisputed : ∀ job ∈ jobs, job.Undisputed s₀ t)
    (hparts : ∀ p ∈ part :: rest, ∀ op ∈ p.ops, ∃ job ∈ jobs, job.ns = p.ns ∧ op ∈ job.ops)
    {index : IndexSpec} (hindex : index ∈ (s₀.collection part.ns).indexes.values)
    (hunique : index.unique = true) {key' : DocKey} {doc doc' : Json}
    (hdoc : part.reaches s t key = some doc) (hdoc' : part.reaches s t key' = some doc')
    (htuple : index.tuple doc = index.tuple doc') : key = key' := by
  -- Both are of the end, or both of the beginning, or no values of the two are disputed.
  rcases h.reaches_cases hparts hdoc with hlast | ⟨hfirst, job, hjob, hns, op, hop, rfl⟩ <;>
    rcases h.reaches_cases hparts hdoc' with hlast' | ⟨hfirst', job', hjob', hns', op', hop', rfl⟩
  · rw [← hlead.indexes] at hindex
    exact (hlead.last part.ns).unique index hindex hunique _ _ _ _ hlast hlast' htuple
  · rw [← hns'] at hindex hlast hfirst'
    exact hlead.eq_of_tuple hundisputed hjob' hop' hindex hunique hlast hfirst' htuple
  · rw [← hns] at hindex hlast' hfirst
    exact (hlead.eq_of_tuple hundisputed hjob hop hindex hunique hlast' hfirst htuple.symm).symm
  · exact (hlead.start part.ns).unique index hindex hunique _ _ _ _ hfirst hfirst' htuple

/-- The next sub-batch succeeds, whichever it is. -/
theorem Midway.exists_apply (h : Midway s₀ t (part :: rest) w.store) (hlead : Leading st jobs s₀ t)
    (hundisputed : ∀ job ∈ jobs, job.Undisputed s₀ t)
    (hparts : ∀ p ∈ part :: rest, ∀ op ∈ p.ops, ∃ job ∈ jobs, job.ns = p.ns ∧ op ∈ job.ops)
    (hwf : part.WellFormed) (hapart : ∀ p ∈ rest, part.Apart p) :
    ∃ w', part.apply st w = (.ok (), w') ∧ Midway s₀ t rest w'.store := by
  have htakes : ∀ op ∈ part.ops,
      op.Takes st (w.store.document? part.ns op.key) (t.document? part.ns op.key) :=
    fun op hop => h.takes hlead (hparts part List.mem_cons_self) hop
  obtain ⟨w', happly⟩ : ∃ w', part.apply st w = (.ok (), w') := by
    refine Job.exists_apply (v := part.reaches w.store t) h.wellFormed h.healthy hwf ?_ ?_ ?_
    · intro op hop
      rw [reaches, if_pos ⟨op, hop, rfl⟩]
      exact htakes op hop
    · intro key hkey
      exact if_neg fun ⟨op, hop, heq⟩ => hkey op hop heq
    · intro index hindex hunique key key' doc doc' hdoc hdoc' htuple
      rw [h.indexes] at hindex
      exact h.key_eq_of_reaches hlead hundisputed hparts hindex hunique hdoc hdoc' htuple
  have hdone := apply_eq_ok h.wellFormed hwf happly
  have hhealthy : (part.apply st w).2.store.Healthy := healthy_apply h.healthy
  rw [happly] at hhealthy
  exact ⟨w', happly, h.next hdone hhealthy hapart htakes⟩

/-- The sub-batches succeed in the order in which they stand, whichever it is. -/
theorem Midway.exists_runSubBatches (h : Midway s₀ t parts w.store) (hlead : Leading st jobs s₀ t)
    (hundisputed : ∀ job ∈ jobs, job.Undisputed s₀ t)
    (hparts : ∀ p ∈ parts, ∀ op ∈ p.ops, ∃ job ∈ jobs, job.ns = p.ns ∧ op ∈ job.ops)
    (hwf : ∀ p ∈ parts, p.WellFormed) (hapart : parts.Pairwise Apart)
    (hfired : w.cancel.fired = false) (hfuse : w.cancel.fuse = 0) :
    ∃ after, Executor.runSubBatches st parts none w = (none, false, after) ∧
      Midway s₀ t [] after.store := by
  induction parts generalizing w with
  | nil => exact ⟨w, rfl, h⟩
  | cons part rest ih =>
    obtain ⟨hwf, hwfs⟩ := List.forall_mem_cons.1 hwf
    obtain ⟨hapart, haparts⟩ := List.pairwise_cons.1 hapart
    obtain ⟨w', happly, hnext⟩ := h.exists_apply hlead hundisputed hparts hwf hapart
    have hcancel : (part.apply st w).2.cancel = w.cancel := Workplace.cancel_perform hfuse
    rw [happly] at hcancel
    rw [Executor.runSubBatches, if_neg (by rw [hfired]; decide), happly]
    exact ih (w := { w' with
        metrics := (w'.metrics.recordSubBatch Executor.unmeasured).finish 1 }) hnext
      (fun p hp => hparts p (List.mem_cons_of_mem _ hp)) hwfs haparts
      ((congrArg Cancellation.fired hcancel).trans hfired)
      ((congrArg Cancellation.fuse hcancel).trans hfuse)

/-! ## The sub-batches of a batch -/

/-- At first all is as it was, and what belongs to no sub-batch stays so. -/
theorem Leading.midway {size : Nat} (h : Leading st jobs s₀ t) (hhealthy : s₀.Healthy)
    (hperm : parts.Perm (jobs.flatMap fun job => job.split size)) : Midway s₀ t parts s₀ := by
  refine ⟨h.start, hhealthy, fun _ => rfl, fun _ _ _ _ => rfl, fun ns key hkey => ?_⟩
  refine (h.lead.others fun job hjob hns op hop => ?_).symm
  obtain ⟨part, hpart, hns', hmem⟩ := exists_mem_subBatches.2 ⟨job, hjob, hns, hop⟩
  exact hkey part (hperm.mem_iff.2 hpart) hns' op hmem

/-- In whatever order the sub-batches stand, each has operations of its own only, and all of them
come of the jobs. -/
theorem perm_subBatches {size : Nat} (hjobs : Gathering.WellFormed jobs)
    (hperm : parts.Perm (jobs.flatMap fun job => job.split size)) :
    (∀ p ∈ parts, p.WellFormed) ∧ parts.Pairwise Apart ∧
      ∀ p ∈ parts, ∀ op ∈ p.ops, ∃ job ∈ jobs, job.ns = p.ns ∧ op ∈ job.ops := by
  obtain ⟨hwf, hapart⟩ := pairwise_subBatches hjobs size
  refine ⟨fun p hp => hwf p (hperm.mem_iff.1 hp), ?_, fun p hp op hop => ?_⟩
  · exact (hperm.pairwise_iff fun hab => hab.symm).2 hapart
  · exact exists_mem_subBatches.1 ⟨p, hperm.mem_iff.1 hp, rfl, hop⟩

theorem length_of_mem_pieces {size fuel : Nat} {l ops : List NetOp} (h : ops ∈ pieces size fuel l) :
    ops.length ≤ size := by
  induction fuel generalizing l with
  | zero => cases h
  | succ fuel ih =>
    cases l with
    | nil => cases h
    | cons op l =>
      have hcons : ops ∈ (op :: l).take size :: pieces size fuel ((op :: l).drop size) := h
      rcases List.mem_cons.1 hcons with rfl | h
      · exact List.length_take_le _ _
      · exact ih h

/-- A job is split into parts of the size at most. -/
theorem length_of_mem_split {size : Nat} (h : part ∈ job.split size) :
    part.ops.length ≤ max size 1 := by
  unfold split at h
  dsimp only at h
  split_ifs at h with hlength
  · rw [List.mem_singleton.1 h]
    exact hlength
  · obtain ⟨ops, hops, rfl⟩ := List.mem_map.1 h
    exact length_of_mem_pieces hops

/-- A part of size one has no second operation. -/
theorem eq_of_mem_split_one {op' : NetOp} (h : part ∈ job.split 1) (hop : op ∈ part.ops)
    (hop' : op' ∈ part.ops) : op = op' := by
  have hlength : part.ops.length ≤ 1 := length_of_mem_split h
  obtain ⟨i, hi, rfl⟩ := List.getElem_of_mem hop
  obtain ⟨j, hj, rfl⟩ := List.getElem_of_mem hop'
  obtain rfl : i = j := by omega
  rfl

/-- If a document takes values that another one had, its sub-batch fails where it is executed
first and has no other operation. -/
theorem Leading.exists_perm_ne_none (h : Leading st jobs w.store t) {job : Job} (hjob : job ∈ jobs)
    (hdisputed : ¬ job.Undisputed w.store t) (hfired : w.cancel.fired = false) :
    ∃ parts : List Job, parts.Perm (jobs.flatMap fun job => job.split 1) ∧
      (Executor.runSubBatches st parts none w).1 ≠ none := by
  unfold Undisputed at hdisputed
  push Not at hdisputed
  obtain ⟨index, hindex, hunique, op, hop, op', hop', hne, doc, hdoc, doc', hdoc', ht⟩ := hdisputed
  rw [Option.mem_def] at hdoc hdoc'
  rw [Store.indexes_eq] at hindex
  obtain ⟨part, hpart, hns, hmem⟩ := exists_mem_subBatches.2 ⟨job, hjob, rfl, hop⟩
  have hperm := (List.perm_cons_erase (a := part) hpart).symm
  refine ⟨_, hperm, fun hnone => ?_⟩
  obtain ⟨hwf, -, -⟩ := perm_subBatches h.wellFormed hperm
  have hpartwf := hwf part List.mem_cons_self
  rw [Executor.runSubBatches, if_neg (by rw [hfired]; decide)] at hnone
  rcases happly : part.apply st w with ⟨e | ⟨⟩, w₁⟩
  · rw [happly] at hnone
    exact Race.runSubBatches_ne_none hnone
  · have hdone := apply_eq_ok h.start hpartwf happly
    -- The sub-batch has one operation, so the other document is still there.
    have hother : ∀ o ∈ part.ops, o.key ≠ op'.key := by
      obtain ⟨j, -, hsplit⟩ := List.mem_flatMap.1 hpart
      intro o ho heq
      exact hne (eq_of_mem_split_one hsplit ho hmem ▸ heq)
    have hfinal : w₁.store.document? job.ns op.key = some doc := by
      rw [← hdoc, ← hns]
      refine (hdone.takes op hmem).unique ?_
      rw [hns]
      exact h.lead.takes h.wellFormed hjob hop
    have hformer : w₁.store.document? job.ns op'.key = some doc' := by
      rw [← hdoc', ← hns]
      exact hdone.others op'.key hother
    refine hne ((hdone.wellFormed job.ns).unique index ?_ hunique _ _ _ _ hfinal hformer ht)
    rwa [hdone.indexes]

end Job

namespace Executor

variable {c c' : Context} {x : Executor} {entries : List Entry} {batches : List Batch}
  {jobs : List Job} {w w' : Workplace}

/-- If the jobs of an analyzed batch succeed one after another on a reachable store without faults
and without a cancellation, and no values are disputed, then no sub-batch fails, whatever their size
and order, all contents are the same then, and a concurrent executor succeeds. If values are
disputed, some sub-batch fails in some order. -/
theorem runSubBatches_of_applyAll (hbatches : Batch.ofEntries c entries = .ok batches)
    (hjobs : .jobs jobs ∈ batches) (hs : w.store.Reachable) (hhealthy : w.store.Healthy)
    (hfired : w.cancel.fired = false) (hfuse : w.cancel.fuse = 0) (hx : x.dispatch = .sequential)
    (hsequential : x.apply c' (.jobs jobs) w = (.ok (), w')) :
    ((∀ job ∈ jobs, job.Undisputed w.store w'.store) →
      (∀ size, ∀ parts : List Job, parts.Perm (jobs.flatMap fun job => job.split size) →
        ∃ after, runSubBatches c'.strictness parts none w = (none, false, after) ∧
          ∀ ns, after.store.contents ns = w'.store.contents ns) ∧
      ∀ workers sizing, ∃ after,
        { x with dispatch := .concurrent workers sizing true }.apply c' (.jobs jobs) w =
          (.ok (), after) ∧ ∀ ns, after.store.contents ns = w'.store.contents ns) ∧
    ((∃ job ∈ jobs, ¬ job.Undisputed w.store w'.store) →
      ∃ parts : List Job, parts.Perm (jobs.flatMap fun job => job.split 1) ∧
        (runSubBatches c'.strictness parts none w).1 ≠ none) := by
  have hwf := Batch.wellFormed_of_ofEntries hbatches hjobs
  rw [apply, runJobs, hx] at hsequential
  obtain ⟨hs', hlead⟩ := Job.lead_of_applyAll hwf hs.wellFormed hsequential
  have hleading : Job.Leading c'.strictness jobs w.store w'.store :=
    ⟨hwf, hs.wellFormed, hs', Job.indexes_applyAll hwf hs.wellFormed hsequential, hlead⟩
  constructor
  swap
  · rintro ⟨job, hjob, hdisputed⟩
    exact hleading.exists_perm_ne_none hjob hdisputed hfired
  intro hundisputed
  have hall : ∀ {w₁ : Workplace} {size : Nat} {parts : List Job},
      parts.Perm (jobs.flatMap fun job => job.split size) → w₁.store = w.store →
      w₁.cancel = w.cancel → ∃ after,
        runSubBatches c'.strictness parts none w₁ = (none, false, after) ∧
          ∀ ns, after.store.contents ns = w'.store.contents ns := by
    intro w₁ size parts hperm hstore hcancel
    obtain ⟨hparts, hapart, hops⟩ := Job.perm_subBatches hwf hperm
    have hmidway := hleading.midway hhealthy hperm
    rw [← hstore] at hmidway hleading hundisputed
    obtain ⟨after, hrun, hlast⟩ := hmidway.exists_runSubBatches hleading hundisputed hops hparts
      hapart (hcancel ▸ hfired) (hcancel ▸ hfuse)
    refine ⟨after, hrun, fun ns => Store.contents_congr fun key => ?_⟩
    exact hlast.settled ns key (List.forall_mem_nil _)
  refine ⟨fun size parts hperm => hall hperm rfl rfl, fun workers sizing => ?_⟩
  -- An executor hands the sub-batches over in the order of the jobs.
  rw [apply, runJobs]
  dsimp only
  rw [runConcurrently]
  dsimp only
  generalize hparts : (jobs.flatMap fun job => job.split (sizing.size w.metrics)) = parts
  let w₁ : Workplace := { w with metrics := w.metrics.submit parts.length }
  obtain ⟨after, hrun, hcontents⟩ : ∃ after,
      runSubBatches c'.strictness parts none w₁ = (none, false, after) ∧
        ∀ ns, after.store.contents ns = w'.store.contents ns :=
    hall (.of_eq hparts.symm) rfl rfl
  rw [hrun]
  refine ⟨_, rfl, fun ns => ?_⟩
  rw [← hcontents ns]
  dsimp only
  split_ifs <;> rfl

/-- Two members of a club move to free seats. -/
def moves : List Entry :=
  let ns : Namespace := ⟨"club", "members"⟩
  [⟨⟨1, 1⟩, 11, ns, .update (.int 1) (.obj [("$set", .obj [("seat", .str "c")])]) false⟩,
    ⟨⟨1, 2⟩, 12, ns, .update (.int 2) (.obj [("$set", .obj [("seat", .str "d")])]) false⟩]

/-- The job of the two. -/
def moveJobs : List Job :=
  [⟨⟨"club", "members"⟩, [⟨.int 1, .update [.set "seat" (.str "c")] false, true⟩,
    ⟨.int 2, .update [.set "seat" (.str "d")] false, true⟩]⟩]

theorem runSubBatches_of_applyAll_moves : ∃ w' : Workplace,
    Batch.ofEntries .steady moves = .ok [.jobs moveJobs] ∧
    ({} : Executor).apply .steady (.jobs moveJobs) ⟨Race.seatingStore, {}, {}⟩ = (.ok (), w') ∧
    (∀ job ∈ moveJobs, job.Undisputed Race.seatingStore w'.store) ∧
    ∀ size, ∀ parts : List Job, parts.Perm (moveJobs.flatMap fun job => job.split size) →
      ∃ after, runSubBatches .strict parts none ⟨Race.seatingStore, {}, {}⟩ =
        (none, false, after) ∧ ∀ ns, after.store.contents ns = w'.store.contents ns := by
  have hbatches : Batch.ofEntries .steady moves = .ok [.jobs moveJobs] := by decide +kernel
  have hsequential : (({} : Executor).apply .steady (.jobs moveJobs)
      ⟨Race.seatingStore, {}, {}⟩).1 = .ok () := by
    decide +kernel
  have hundisputed : ∀ job ∈ moveJobs, job.Undisputed Race.seatingStore
      (({} : Executor).apply .steady (.jobs moveJobs) ⟨Race.seatingStore, {}, {}⟩).2.store := by
    decide +kernel
  have hall := runSubBatches_of_applyAll hbatches (List.mem_singleton.2 rfl)
    (w := ⟨Race.seatingStore, {}, {}⟩) Race.reachable_seatingStore ⟨by decide +kernel, rfl⟩ rfl rfl
    rfl (Prod.ext hsequential rfl)
  exact ⟨_, hbatches, Prod.ext hsequential rfl, hundisputed, (hall.1 hundisputed).1⟩

/-- The first member pays and takes the seat that the second one leaves. -/
def seatTaken : List Entry :=
  let ns : Namespace := ⟨"club", "members"⟩
  [⟨⟨1, 1⟩, 1, ns, .update (.int 1) (.obj [("$set", .obj [("paid", .bool true)])]) false⟩,
    ⟨⟨1, 2⟩, 2, ns, .update (.int 2) (.obj [("$set", .obj [("seat", .str "c")])]) false⟩,
    ⟨⟨1, 3⟩, 3, ns, .update (.int 1) (.obj [("$set", .obj [("seat", .str "b")])]) false⟩]

/-- The first member has the first operation of the batch, so in sub-batches of one operation the
seat is taken before it is left, while the whole job succeeds. -/
theorem runConcurrently_seatTaken : ∃ jobs, Batch.ofEntries .steady seatTaken = .ok [.jobs jobs] ∧
    (({} : Executor).apply .steady (.jobs jobs) ⟨Race.seatingStore, {}, {}⟩).1 = .ok () ∧
    (({ dispatch := .concurrent 1 (.fixed 1) true } : Executor).apply .steady (.jobs jobs)
      ⟨Race.seatingStore, {}, {}⟩).1 =
        .error (.duplicateKey "club.members" "seat_1 [\"\\\"b\\\"\"]") := by
  refine ⟨[⟨⟨"club", "members"⟩,
    [⟨.int 1, .update [.set "paid" (.bool true), .set "seat" (.str "b")] false, true⟩,
      ⟨.int 2, .update [.set "seat" (.str "c")] false, true⟩]⟩], ?_, ?_, ?_⟩ <;> decide +kernel

end Executor

end Replica
