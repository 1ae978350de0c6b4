import Mathlib
import Replica.Pipeline.Run
import Replica.Proofs.Execution.Commits
import Replica.Proofs.Pipeline.Carried

/-!
# What a run of the pipeline writes

Filters let pass entries on databases that are replicated only, so the batches of these entries are
within the filters (`Batch.within_ofEntries`), and what an executor commits for them are
transactions on such databases (`commits_apply`), whether they succeed or not. A run keeps what each
of its steps keeps (`keeps_run`). So all that it does to the store and the checkpoint are such
commits and moves of the checkpoint, one after another (`effects_run`).
-/

namespace Replica

variable {filters : Filters}

/-! ## Transactions -/

/-- All writes of a transaction are on databases that are replicated. -/
def Transaction.Within (filters : Filters) (t : Transaction) : Prop :=
  ∀ w ∈ t, filters.acceptsDatabase w.database = true

/-- Transactions on databases that are replicated are committed one after another, each of them with
or without success. -/
def Store.Commits (filters : Filters) : Store → Store → Prop :=
  Relation.ReflTransGen fun s s' => ∃ t : Transaction, t.Within filters ∧ s' = (s.commit t).2

/-! ## Batches -/

namespace Batch

/-- All that a batch is about are databases that are replicated. -/
def Within (filters : Filters) : Batch → Prop
  | .jobs js => ∀ job ∈ js, filters.acceptsDatabase job.ns.database = true
  | .command e => filters.acceptsDatabase e.ns.database = true
  | .noop => True

/-- An entry that is applied is about a database that is replicated, unless it does nothing. -/
theorem acceptsDatabase_of_acceptsEntry {e : Entry} (h : filters.acceptsEntry e = true)
    (hne : e.action ≠ .noop) : filters.acceptsDatabase e.ns.database = true := by
  have hns (h : filters.acceptsNamespace e.ns = true) :
      filters.acceptsDatabase e.ns.database = true := by
    rw [Filters.acceptsNamespace, Bool.and_eq_true, Bool.and_eq_true] at h
    exact h.1.1
  unfold Filters.acceptsEntry at h
  split at h
  · exact h
  · rename_i heq
    exact absurd heq hne
  · exact hns h

/-- The batches of entries that pass the filters are within these. -/
theorem within_ofEntries {c : Context} {es : List Entry} {batches : List Batch}
    (hes : ∀ e ∈ es, filters.acceptsEntry e = true) (h : ofEntries c es = .ok batches) :
    ∀ b ∈ batches, b.Within filters := by
  intro b hb
  have hmade := madeOf_ofEntries h b hb
  cases b with
  | jobs jobs =>
    intro job hjob
    obtain ⟨e, he, op, hop, hns⟩ := hmade.2 job.ns (List.mem_map_of_mem hjob)
    rw [← hns]
    refine acceptsDatabase_of_acceptsEntry (hes e he) fun hnoop => ?_
    rw [NetOp.ofEntry?, hnoop] at hop
    cases hop
  | command e =>
    refine acceptsDatabase_of_acceptsEntry (hes e hmade.1) fun hnoop => ?_
    have hcommand := hmade.2
    rw [Entry.isCommand, hnoop] at hcommand
    cases hcommand
  | noop => trivial

end Batch

/-! ## The executor -/

/-- A job on a database that is replicated writes there. -/
theorem Job.within_plan {st : Strictness} {job : Job}
    (hjob : filters.acceptsDatabase job.ns.database = true) (s : Store) (t : Transaction)
    (h : job.plan st s = .ok t) : t.Within filters := by
  intro w hw
  rcases mem_plan h hw with ⟨dids, rfl⟩ | ⟨docs, rfl⟩ <;> exact hjob

/-- A command on a database that is replicated writes there. -/
theorem Command.within_plan {command : Command} {ns : Namespace} {c : Context}
    (hns : filters.acceptsDatabase ns.database = true) (f : Filters) (s : Store) (t : Transaction)
    (h : command.plan ns f c s = .ok t) : t.Within filters := by
  intro w hw
  cases plans_of_plan h w hw <;> exact hns

/-- For a batch that is about databases that are replicated an executor commits transactions on such
databases. -/
theorem Executor.commits_apply {x : Executor} {c : Context} {b : Batch} (hb : b.Within filters)
    (w : Workplace) : w.store.Commits filters (x.apply c b w).2.store := by
  have hcommit : ∀ {s : Store} {t : Transaction}, t.Within filters → w.store.Commits filters s →
      w.store.Commits filters (s.commit t).2 := fun ht hs => hs.tail ⟨_, ht, rfl⟩
  refine keeps_apply (P := fun s => w.store.Commits filters s) ?_ .refl
  cases b with
  | jobs jobs =>
    intro part hpart s t hplan
    obtain ⟨job, hjob, hns⟩ := List.mem_map.1 hpart
    exact hcommit (Job.within_plan (hns ▸ hb job hjob) s t hplan)
  | command e => exact fun command s t _ hplan => hcommit (Command.within_plan hb _ s t hplan)
  | noop => trivial

/-! ## The pipeline -/

/-- What a single step of the pipeline does to what it works on. -/
inductive Applied.Effect (filters : Filters) : Applied → Applied → Prop
  /-- A transaction on databases that are replicated is committed, with or without success. -/
  | commit {s : Applied} (t : Transaction) (within : t.Within filters) :
      Effect filters s { s with work := { s.work with store := (s.work.store.commit t).2 } }
  /-- The checkpoint moves on, if it can. -/
  | advance {s : Applied} (target : Mark) :
      Effect filters s { s with
        checkpoint := (s.checkpoint.advance target s.work.store).2.1
        work := { s.work with store := (s.checkpoint.advance target s.work.store).2.2 } }
  /-- Something is counted, or the token fires. -/
  | note {s : Applied} (metrics : PipelineMetrics) (work : Workplace) (executed : List Batch)
      (store : work.store = s.work.store) :
      Effect filters s { s with work := work, metrics := metrics, executed := executed }

/-- Any number of steps of the pipeline. -/
def Applied.Effects (filters : Filters) : Applied → Applied → Prop :=
  Relation.ReflTransGen (Effect filters)

namespace Applied

variable {s s' s'' : Applied}

theorem Effects.trans (h : s.Effects filters s') (h' : s'.Effects filters s'') :
    s.Effects filters s'' := Relation.ReflTransGen.trans h h'

theorem Effect.effects (h : s.Effect filters s') : s.Effects filters s' := .single h

theorem effects_store {store : Store} (h : s.work.store.Commits filters store) :
    s.Effects filters { s with work := { s.work with store := store } } := by
  induction h with
  | refl => exact .refl
  | tail _ hcommit ih =>
    obtain ⟨t, ht, rfl⟩ := hcommit
    exact ih.tail (.commit t ht)

/-- Commits are effects, whatever else is counted meanwhile. -/
theorem effects_of_commits (work : Workplace) (h : s.work.store.Commits filters work.store)
    (executed : List Batch) :
    s.Effects filters { s with work := work, executed := executed } :=
  -- What was counted on the way is noted at the end.
  (effects_store h).tail (.note s.metrics work executed rfl)

end Applied

namespace Pipeline

open Accumulation (flush join isDue flushes)
open Applied (Effect)

variable {p : Pipeline} {c : Context} {d : Disturbance} {b : RawBatch} {batch : Batch}
  {batches : List Batch} {P : Applied → Prop}

theorem effects_applyBatch (hb : batch.Within p.filters) (s : Applied) :
    s.Effects p.filters (p.applyBatch c d batch s).2 := by
  have happly := p.executor.commits_apply (c := c) hb s.work
  unfold applyBatch
  split_ifs
  · exact .refl
  · dsimp only
    split_ifs
    · exact (Effect.note s.metrics s.work _ rfl).effects
    · exact Applied.effects_of_commits { (p.executor.apply c batch s.work).2 with
        cancel := (p.executor.apply c batch s.work).2.cancel.fire } happly _
    · exact Applied.effects_of_commits _ happly _

theorem effects_complete (b : RawBatch) (s : Applied) :
    s.Effects p.filters (complete b s).2 := by
  unfold complete
  cases b.tail with
  | none => exact (Effect.note _ s.work s.executed rfl).effects
  | some tail =>
    have hadvance : s.Effect p.filters _ := .advance tail
    dsimp only
    rcases hmoved : s.checkpoint.advance tail s.work.store with ⟨e | ⟨⟩, checkpoint, store⟩
    · rw [hmoved] at hadvance
      exact hadvance.effects
    · rw [hmoved] at hadvance
      exact hadvance.effects.tail (.note _ _ _ rfl)

/-! ## What runs keep -/

/-- Batches that are applied in order keep what each of them keeps. -/
theorem keeps_applyBatches
    (happly : ∀ batch ∈ batches, ∀ s, P s → P (p.applyBatch c d batch s).2) {s : Applied}
    (hs : P s) : P (p.applyBatches c d batches s).2 := by
  induction batches generalizing s with
  | nil => exact hs
  | cons batch batches ih =>
    obtain ⟨hbatch, hbatches⟩ := List.forall_mem_cons.1 happly
    have hfirst := hbatch s hs
    unfold applyBatches
    rcases hanswer : p.applyBatch c d batch s with ⟨e | ⟨⟩, s'⟩
    · rw [hanswer] at hfirst
      exact hfirst
    · rw [hanswer] at hfirst
      exact ih hbatches hfirst

theorem keeps_execute
    (happly : ∀ batches, Batch.ofEntries c b.entries = .ok batches →
      ∀ batch ∈ batches, ∀ s, P s → P (p.applyBatch c d batch s).2)
    (hcomplete : ∀ b s, P s → P (complete b s).2) {s : Applied} (hs : P s) :
    P (p.execute c d b s).2 := by
  unfold execute
  split_ifs
  · exact hs
  · cases hread : Batch.ofEntries c b.entries with
    | error e => exact hs
    | ok batches =>
      have hfirst := keeps_applyBatches (happly batches hread) hs
      dsimp only
      rcases hanswer : p.applyBatches c d batches s with ⟨e | ⟨⟩, s'⟩
      · rw [hanswer] at hfirst
        exact hfirst
      · rw [hanswer] at hfirst
        exact hcomplete b s' hfirst

theorem keeps_executeAll {handedOn : List RawBatch}
    (happly : ∀ b ∈ handedOn, ∀ batches, Batch.ofEntries c b.entries = .ok batches →
      ∀ batch ∈ batches, ∀ s, P s → P (p.applyBatch c d batch s).2)
    (hcomplete : ∀ b s, P s → P (complete b s).2) {s : Applied} (hs : P s) :
    P (p.executeAll c d handedOn s).2 := by
  induction handedOn generalizing s with
  | nil => exact hs
  | cons b handedOn ih =>
    obtain ⟨hb, happly⟩ := List.forall_mem_cons.1 happly
    have hfirst := keeps_execute hb hcomplete hs
    unfold executeAll
    rcases hanswer : p.execute c d b s with ⟨e | ⟨⟩, s'⟩
    · rw [hanswer] at hfirst
      exact hfirst
    · rw [hanswer] at hfirst
      exact ih happly hfirst

section Flushes

variable {R : Entry → Prop} {held : Option RawBatch}

theorem forall_mem_flush (hheld : ∀ b ∈ held, ∀ e ∈ b.entries, R e) :
    ∀ b ∈ flush held, ∀ e ∈ b.entries, R e :=
  fun b hb => hheld b (Option.mem_toList.1 (List.mem_filter.1 hb).1)

theorem forall_mem_join (hheld : ∀ b ∈ held, ∀ e ∈ b.entries, R e)
    (hb : ∀ e ∈ b.entries, R e) : ∀ e ∈ (join held b).entries, R e := by
  cases held with
  | none => exact hb
  | some first => exact List.forall_mem_append.2 ⟨hheld first rfl, hb⟩

/-- What is handed on was delivered and has passed the filters. -/
theorem forall_mem_flushes (limits : PipelineLimits) (filters : Filters)
    (source : Source) (pending : Option RawBatch) (hpending : ∀ b ∈ pending, ∀ e ∈ b.entries, R e)
    (hsource : ∀ b ∈ source.delivered, ∀ e ∈ b.entries, filters.acceptsEntry e = true → R e) :
    ∀ b ∈ (flushes limits filters pending source).1, ∀ e ∈ b.entries, R e := by
  induction source generalizing pending with
  | nil => exact forall_mem_flush hpending
  | cons f rest ih =>
    cases f with
    | finish => exact forall_mem_flush hpending
    | failure e => exact fun _ h => nomatch h
    | lost => exact fun _ h => nomatch h
    | batch b late =>
      obtain ⟨hfetched, hrest⟩ := List.forall_mem_cons.1 hsource
      -- What is held back when the batch arrives has passed, and so does the batch joined to it.
      have hearly : ∀ b ∈ (if late then flush pending else []), ∀ e ∈ b.entries, R e := by
        split_ifs
        · exact forall_mem_flush hpending
        · exact fun _ h => nomatch h
      have hheld : ∀ b ∈ (if late then none else pending), ∀ e ∈ b.entries, R e := by
        split_ifs
        · exact fun _ h => nomatch h
        · exact hpending
      have hjoined := forall_mem_join (b := filters.apply b) hheld fun e he =>
        hfetched e (List.mem_filter.1 he).1 (List.mem_filter.1 he).2
      have hnext : ∀ b' ∈ some (join (if late then none else pending) (filters.apply b)),
          ∀ e ∈ b'.entries, R e := fun _ hb' => Option.some.inj hb' ▸ hjoined
      unfold flushes
      dsimp only
      split
      · exact hearly
      · cases hdue : isDue limits (join (if late then none else pending) (filters.apply b)) with
        | true =>
          have hlater := ih none (fun _ h => nomatch h) hrest
          exact List.forall_mem_append.2
            ⟨List.forall_mem_append.2 ⟨hearly, forall_mem_flush hnext⟩, hlater⟩
        | false =>
          rw [if_neg Bool.false_ne_true, List.append_nil]
          exact List.forall_mem_append.2 ⟨hearly, ih _ hnext hrest⟩

end Flushes

/-- A run keeps what is kept by applying each batch that is read from entries that were delivered
and have passed the filters, and by completing. -/
theorem keeps_run {source : Source} {s : Applied}
    (hbegin : ∀ work : Workplace, work.store = s.work.store →
      P { s with work := work, executed := [] })
    (happly : ∀ (es : List Entry) (batches : List Batch),
      (∀ e ∈ es, p.filters.acceptsEntry e = true ∧ ∃ b ∈ source.delivered, e ∈ b.entries) →
      Batch.ofEntries c es = .ok batches →
      ∀ batch ∈ batches, ∀ s, P s → P (p.applyBatch c d batch s).2)
    (hcomplete : ∀ b s, P s → P (complete b s).2) : P (p.run c d source s).2 := by
  have hpassed := forall_mem_flushes (R := fun e =>
    p.filters.acceptsEntry e = true ∧ ∃ b ∈ source.delivered, e ∈ b.entries) p.limits p.filters
    source none (fun _ h => nomatch h) fun b hb e he haccepted => ⟨haccepted, b, hb, he⟩
  unfold run
  rcases hflushes : flushes p.limits p.filters none source with ⟨handedOn, ending⟩
  rw [hflushes] at hpassed
  have hexecute := keeps_executeAll (d := d)
    (fun b hb batches hread => happly b.entries batches (hpassed b hb) hread) hcomplete
    (hbegin { s.work with
      cancel := { s.work.cancel with fired := s.work.cancel.fired || d.cancelAfter = some 0 } } rfl)
  dsimp only
  -- What is answered depends on how the source ended and on the token, but not what was done.
  split
  · rename_i hanswer
    rw [hanswer] at hexecute
    exact hexecute
  · rename_i hanswer
    rw [hanswer] at hexecute
    split_ifs
    · exact hexecute
    · cases ending <;> exact hexecute

/-- All that a run does to the store and the checkpoint are commits of transactions on databases
that are replicated, and moves of the checkpoint. -/
theorem effects_run (p : Pipeline) (c : Context) (d : Disturbance) (source : Source) (s : Applied) :
    s.Effects p.filters (p.run c d source s).2 := by
  refine keeps_run (P := fun s' => s.Effects p.filters s') (fun work hwork => ?_)
    (fun es batches hes hread batch hbatch s' hs' => ?_) fun b s' hs' => ?_
  · exact (Effect.note s.metrics work [] hwork).effects
  · have hwithin := Batch.within_ofEntries (fun e he => (hes e he).1) hread batch hbatch
    exact hs'.trans (effects_applyBatch hwithin s')
  · exact hs'.trans (effects_complete b s')

end Pipeline

end Replica
