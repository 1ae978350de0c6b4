import Replica.Execution.Executor
import Replica.Proofs.Execution.JobEffect

/-!
# The effect of a batch

Jobs on different collections are executed one after another. If their operations lead from a store
to another well-formed one with the same indexes, they succeed on a store without faults, and the
store is like the other one afterwards (`exists_applyAll`). On a store with faults they succeed as
well, if it lets through the commits that they need (`exists_applyAll_of_paid`). Jobs that succeed
lead to the store that they leave (`lead_of_applyAll`). If a required target of one of them is
missing at first, they do not succeed (`applyAll_of_missing`). Where a store has no faults and no
unique indexes (`Store.Plain`), they succeed if each operation can be applied to what it finds
(`exists_applyAll_of_takes`).
-/

namespace Replica

/-- Two stores show the same documents and have the same indexes. -/
structure Store.Alike (s t : Store) : Prop where
  /-- The documents by key are the same. -/
  documents : ∀ ns key, s.document? ns key = t.document? ns key
  /-- The indexes are the same. -/
  indexes : ∀ ns, (s.collection ns).indexes = (t.collection ns).indexes

theorem Store.Alike.refl (s : Store) : s.Alike s := ⟨fun _ _ => rfl, fun _ => rfl⟩

/-- Stores that show the same documents have the same contents. -/
theorem Store.Alike.contents {s t : Store} (h : s.Alike t) (ns : Namespace) :
    s.contents ns = t.contents ns :=
  Store.contents_congr (h.documents ns)

/-- The store has no faults, and no two documents can collide in an index. -/
structure Store.Plain (s : Store) : Prop where
  /-- No commit is going to fail for a fault. -/
  healthy : s.Healthy
  /-- No secondary index is unique. -/
  indexes : ∀ ns, ∀ index ∈ (s.collection ns).indexes.values, index.unique = false

namespace Job

variable {st : Strictness} {job : Job} {jobs : List Job} {s t : Store} {w w' : Workplace}
  {ns : Namespace} {key : DocKey} {op : NetOp}

/-- The operations of jobs lead from one store to another. -/
def Lead (st : Strictness) (jobs : List Job) (s t : Store) : Prop :=
  ∀ ns key, NetOp.Leads st (Gathering.op? jobs ns key) (s.document? ns key) (t.document? ns key)

/-- What is left to do leads on when the first job was done. -/
theorem Lead.tail (h : Lead st (job :: jobs) s t) (hjobs : Gathering.WellFormed (job :: jobs))
    {s' : Store} (hdone : job.Done st s s') : Lead st jobs s' t := by
  intro ns key
  have hlead := h ns key
  rw [Gathering.op?_cons] at hlead
  by_cases hns : job.ns = ns
  · subst hns
    rw [if_pos rfl] at hlead
    rw [Gathering.op?_of_not_mem (List.nodup_cons.1 hjobs.nodup).1]
    show t.document? job.ns key = s'.document? job.ns key
    cases hop : NetOp.on? job.ops key with
    | none =>
      rw [hop] at hlead
      have hkept := hdone.others key (NetOp.on?_eq_none.1 hop)
      exact Eq.trans hlead hkept.symm
    | some op =>
      rw [hop] at hlead
      obtain ⟨hmem, rfl⟩ := NetOp.on?_eq_some hop
      exact hlead.unique (hdone.takes op hmem)
  · rw [if_neg hns] at hlead
    rwa [hdone.document?_elsewhere (Ne.symm hns)]

/-- Jobs succeed exactly when the first does and the others do behind it. -/
theorem applyAll_cons_eq_ok : applyAll st (job :: jobs) w = (.ok (), w') ↔
    ∃ m, job.apply st w = (.ok (), m) ∧ applyAll st jobs m = (.ok (), w') := by
  rw [applyAll]
  rcases job.apply st w with ⟨e | ⟨⟩, m⟩ <;> simp

/-- What jobs need on the way from `s` to `t` was paid for: `s` lets through what `t` does and one
commit more for each of some collections, and operations find or leave documents in these only. -/
structure Paid (jobs : List Job) (s t : Store) (paid : Finset Namespace) : Prop where
  /-- One commit more is let through for each of the collections. -/
  outlasts : s.Outlasts t paid.card
  /-- The collections can be written to. -/
  writable : ∀ ns ∈ paid, ns ∉ s.failing
  /-- Operations find or leave documents in these collections only. -/
  covers : ∀ ns key, Gathering.op? jobs ns key ≠ none →
    s.document? ns key ≠ none ∨ t.document? ns key ≠ none → ns ∈ paid

/-- On a store without faults all is paid for. -/
theorem paid_of_healthy (h : s.Healthy) (t : Store) (jobs : List Job) :
    Paid jobs s t (jobs.map Job.ns).toFinset where
  outlasts := h.outlasts t _
  writable ns _ := by simp [h.failing]
  covers ns key hop _ := by
    rw [List.mem_toFinset]
    by_contra hns
    exact hop (Gathering.op?_of_not_mem hns key)

/-- What the other jobs need is paid for when the first job was done. -/
theorem Paid.tail {paid : Finset Namespace} (h : Paid (job :: jobs) w.store t paid)
    (hjobs : Gathering.WellFormed (job :: jobs)) (hdone : job.Done st w.store w'.store)
    (hfailing : w'.store.failing = w.store.failing)
    (houtlasts : w'.store.Outlasts t (paid.erase job.ns).card) :
    Paid jobs w'.store t (paid.erase job.ns) where
  outlasts := houtlasts
  writable ns hns := hfailing ▸ h.writable ns (Finset.mem_of_mem_erase hns)
  covers ns key hop hdoc := by
    have hne : ns ≠ job.ns := by
      rintro rfl
      exact hop (Gathering.op?_of_not_mem (List.nodup_cons.1 hjobs.nodup).1 key)
    rw [hdone.document?_elsewhere hne] at hdoc
    refine Finset.mem_erase.2 ⟨hne, h.covers ns key ?_ hdoc⟩
    rwa [Gathering.op?_cons, if_neg (Ne.symm hne)]

/-- Jobs that lead to a well-formed store with the same indexes succeed if the commits that they
need were paid for, and the store is like the other one then. -/
theorem exists_applyAll_of_paid {paid : Finset Namespace} (hjobs : Gathering.WellFormed jobs)
    (hs : w.store.WellFormed) (hpaid : Paid jobs w.store t paid) (ht : t.WellFormed)
    (hindexes : ∀ ns, (w.store.collection ns).indexes = (t.collection ns).indexes)
    (hlead : Lead st jobs w.store t) :
    ∃ w', applyAll st jobs w = (.ok (), w') ∧ w'.store.WellFormed ∧ w'.store.Outlasts t 0 ∧
      w'.store.Alike t := by
  induction jobs generalizing w paid with
  | nil =>
    exact ⟨w, rfl, hs, hpaid.outlasts.mono (Nat.zero_le _), fun ns key => (hlead ns key).symm,
      hindexes⟩
  | cons job jobs ih =>
    have hj := hjobs.jobs job List.mem_cons_self
    have hhere : ∀ key, NetOp.Leads st (NetOp.on? job.ops key) (w.store.document? job.ns key)
        (t.document? job.ns key) := by
      intro key
      have := hlead job.ns key
      rwa [Gathering.op?_cons, if_pos rfl] at this
    -- What the job leads to respects the unique indexes, so it meets no duplicate on its way.
    obtain ⟨w₁, happly, houtlasts⟩ : ∃ w₁, job.apply st w = (.ok (), w₁) ∧
        w₁.store.Outlasts t (paid.erase job.ns).card := by
      refine exists_apply_of_outlasts (v := t.document? job.ns) hs hj ?_ ?_ ?_
        (hpaid.outlasts.mono (Finset.card_le_card (Finset.erase_subset _ _))) ?_
      · intro op hop
        have := hhere op.key
        rwa [NetOp.on?_of_mem hj.nodup hop] at this
      · intro key hkey
        have := hhere key
        rwa [NetOp.on?_eq_none.2 hkey] at this
      · rw [hindexes]
        exact (ht job.ns).unique
      · -- An operation that finds or leaves a document is in a collection that was paid for.
        intro op hop hdoc
        have hmem : job.ns ∈ paid := by
          refine hpaid.covers job.ns op.key ?_ hdoc
          rw [Gathering.op?_cons, if_pos rfl, NetOp.on?_of_mem hj.nodup hop]
          exact Option.some_ne_none op
        refine ⟨hpaid.writable _ hmem, ?_⟩
        rw [Finset.card_erase_add_one hmem]
        exact hpaid.outlasts
    have hdone := apply_eq_ok hs hj happly
    obtain ⟨w', hrest, hwf', houtlasts', halike⟩ := ih hjobs.tail hdone.wellFormed
      (hpaid.tail hjobs hdone (failing_apply happly) houtlasts)
      (fun ns => by rw [hdone.indexes, hindexes]) (hlead.tail hjobs hdone)
    exact ⟨w', applyAll_cons_eq_ok.2 ⟨w₁, happly, hrest⟩, hwf', houtlasts', halike⟩

/-- Jobs that lead to a well-formed store with the same indexes succeed on a store without faults,
which is like the other one then. -/
theorem exists_applyAll (hjobs : Gathering.WellFormed jobs) (hs : w.store.WellFormed)
    (hhealthy : w.store.Healthy) (ht : t.WellFormed)
    (hindexes : ∀ ns, (w.store.collection ns).indexes = (t.collection ns).indexes)
    (hlead : Lead st jobs w.store t) :
    ∃ w', applyAll st jobs w = (.ok (), w') ∧ w'.store.WellFormed ∧ w'.store.Outlasts t 0 ∧
      w'.store.Alike t :=
  exists_applyAll_of_paid hjobs hs (paid_of_healthy hhealthy t jobs) ht hindexes hlead

/-- Jobs that succeed lead from the store that they find to the one that they leave. -/
theorem lead_of_applyAll (hjobs : Gathering.WellFormed jobs) (hs : w.store.WellFormed)
    (h : applyAll st jobs w = (.ok (), w')) :
    w'.store.WellFormed ∧ Lead st jobs w.store w'.store := by
  induction jobs generalizing w with
  | nil =>
    obtain ⟨-, rfl⟩ := Prod.mk.inj h
    exact ⟨hs, fun _ _ => rfl⟩
  | cons job jobs ih =>
    obtain ⟨w₁, happly, h⟩ := applyAll_cons_eq_ok.1 h
    have hdone := apply_eq_ok hs (hjobs.jobs job List.mem_cons_self) happly
    obtain ⟨hs', hlead⟩ := ih hjobs.tail hdone.wellFormed h
    refine ⟨hs', fun ns key => ?_⟩
    have hrest := hlead ns key
    rw [Gathering.op?_cons]
    split_ifs with hns
    · subst hns
      -- The jobs that follow are on other collections.
      rw [Gathering.op?_of_not_mem (List.nodup_cons.1 hjobs.nodup).1] at hrest
      have hkept : w'.store.document? job.ns key = w₁.store.document? job.ns key := hrest
      rw [hkept]
      cases hop : NetOp.on? job.ops key with
      | none => exact hdone.others key (NetOp.on?_eq_none.1 hop)
      | some op =>
        obtain ⟨hmem, rfl⟩ := NetOp.on?_eq_some hop
        exact hdone.takes op hmem
    · rwa [hdone.document?_elsewhere (Ne.symm hns)] at hrest

/-- Jobs that succeed leave all indexes. -/
theorem indexes_applyAll (hjobs : Gathering.WellFormed jobs) (hs : w.store.WellFormed)
    (h : applyAll st jobs w = (.ok (), w')) (ns : Namespace) :
    (w'.store.collection ns).indexes = (w.store.collection ns).indexes := by
  induction jobs generalizing w with
  | nil =>
    obtain ⟨-, rfl⟩ := Prod.mk.inj h
    rfl
  | cons job jobs ih =>
    obtain ⟨w₁, happly, h⟩ := applyAll_cons_eq_ok.1 h
    have hdone := apply_eq_ok hs (hjobs.jobs job List.mem_cons_self) happly
    rw [ih hjobs.tail hdone.wellFormed h, hdone.indexes]

/-- Jobs do not succeed if a required target is missing at first. -/
theorem applyAll_of_missing (hjobs : Gathering.WellFormed jobs) (hs : w.store.WellFormed)
    (hop : Gathering.op? jobs ns key = some op) (hr : op.requiresMatch = true)
    (hmissing : w.store.document? ns key = none) : applyAll .strict jobs w ≠ (.ok (), w') := by
  induction jobs generalizing w with
  | nil => cases hop
  | cons job jobs ih =>
    intro happlied
    obtain ⟨w₁, happly, hrest⟩ := applyAll_cons_eq_ok.1 happlied
    have hdone := apply_eq_ok hs (hjobs.jobs job List.mem_cons_self) happly
    rw [Gathering.op?_cons] at hop
    split_ifs at hop with hns
    · subst hns
      obtain ⟨hmem, rfl⟩ := NetOp.on?_eq_some hop
      exact (hdone.takes op hmem).present rfl hr hmissing
    · -- The job is on another collection, so the target is still missing.
      rw [← hdone.document?_elsewhere (Ne.symm hns)] at hmissing
      exact ih hjobs.tail hdone.wellFormed hop hmissing hrest

/-! ## Stores without faults and unique indexes -/

/-- A job leaves a store without faults and unique indexes such a one. -/
theorem plain_apply (hs : w.store.WellFormed) (hplain : w.store.Plain) (hj : job.WellFormed)
    (h : job.apply st w = (.ok (), w')) : w'.store.Plain := by
  have hhealthy : (job.apply st w).2.store.Healthy := healthy_apply hplain.healthy
  rw [h] at hhealthy
  refine ⟨hhealthy, fun ns => ?_⟩
  rw [(apply_eq_ok hs hj h).indexes]
  exact hplain.indexes ns

/-- Jobs leave a store without faults and unique indexes such a one. -/
theorem plain_applyAll (hjobs : Gathering.WellFormed jobs) (hs : w.store.WellFormed)
    (hplain : w.store.Plain) (h : applyAll st jobs w = (.ok (), w')) : w'.store.Plain := by
  induction jobs generalizing w with
  | nil =>
    obtain ⟨-, rfl⟩ := Prod.mk.inj h
    exact hplain
  | cons job jobs ih =>
    obtain ⟨w₁, happly, h⟩ := applyAll_cons_eq_ok.1 h
    have hj := hjobs.jobs job List.mem_cons_self
    exact ih hjobs.tail (apply_eq_ok hs hj happly).wellFormed (plain_apply hs hplain hj happly) h

/-- The document with a key that a job is to leave in its collection; nothing where its operation
cannot be applied. -/
def leaves (job : Job) (s : Store) (key : DocKey) : Option Json :=
  match NetOp.on? job.ops key with
  | none => s.document? job.ns key
  | some op => (op.outcome (s.document? job.ns key)).toOption.join

/-- Where nothing can collide, a job succeeds if its operations can be applied to what they find. -/
theorem exists_apply_of_takes (hs : w.store.WellFormed) (hplain : w.store.Plain)
    (hj : job.WellFormed)
    (hops : ∀ op ∈ job.ops, ∃ y, op.Takes st (w.store.document? job.ns op.key) y) :
    ∃ w', job.apply st w = (.ok (), w') := by
  refine exists_apply (v := job.leaves w.store) hs hplain.healthy hj ?_ ?_ ?_
  · intro op hop
    obtain ⟨y, hy⟩ := hops op hop
    have hleaves : job.leaves w.store op.key = y := by
      simp only [leaves, NetOp.on?_of_mem hj.nodup hop, hy.outcome]
      rfl
    rwa [hleaves]
  · intro key hkey
    simp only [leaves, NetOp.on?_eq_none.2 hkey]
  · intro index hindex hunique
    rw [hplain.indexes _ index hindex] at hunique
    cases hunique

/-- Where nothing can collide, jobs on different collections succeed if their operations can be
applied to what is there at first. -/
theorem exists_applyAll_of_takes (hjobs : Gathering.WellFormed jobs) (hs : w.store.WellFormed)
    (hplain : w.store.Plain)
    (hops : ∀ job ∈ jobs, ∀ op ∈ job.ops, ∃ y, op.Takes st (w.store.document? job.ns op.key) y) :
    ∃ w', applyAll st jobs w = (.ok (), w') := by
  induction jobs generalizing w with
  | nil => exact ⟨w, rfl⟩
  | cons job jobs ih =>
    have hj := hjobs.jobs job List.mem_cons_self
    obtain ⟨w₁, happly⟩ := exists_apply_of_takes hs hplain hj (hops job List.mem_cons_self)
    have hdone := apply_eq_ok hs hj happly
    obtain ⟨w', hrest⟩ := ih hjobs.tail hdone.wellFormed (plain_apply hs hplain hj happly) (by
      intro job' hjob' op hop
      have hns : job'.ns ≠ job.ns := fun heq =>
        (List.nodup_cons.1 hjobs.nodup).1 (heq ▸ List.mem_map_of_mem hjob')
      rw [hdone.document?_elsewhere hns]
      exact hops job' (List.mem_cons_of_mem _ hjob') op hop)
    exact ⟨w', applyAll_cons_eq_ok.2 ⟨w₁, happly, hrest⟩⟩

end Job

end Replica
