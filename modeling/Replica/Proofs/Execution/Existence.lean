import Replica.Proofs.Analysis.Outlook
import Replica.Proofs.Execution.Schedules

/-!
# Documents in the way of batches

Batches that run in a strict context get past every document: none of them inserts one that is there
or misses one that it requires (`clears_of_runs`). Where nothing else can go wrong, that is all that
it takes: on a store without faults and unique indexes, entries that insert, replace and delete
succeed as a whole exactly if they get past every document (`applyEntries_eq_ok_iff_clears`).
-/

namespace Replica

namespace NetOp

variable {op first later folded : NetOp} {x : Option Json}

/-- The operation leaves a document that it brings along, or none, and modifies none. -/
def Whole (op : NetOp) : Prop := ∀ ms upsert, op.effect ≠ .update ms upsert

/-- Operations that modify nothing are folded into one that modifies nothing. -/
theorem Whole.fold (h : first.fold? later = some folded) (hfirst : first.Whole)
    (hlater : later.Whole) : folded.Whole := by
  obtain ⟨hfold, -⟩ := fold?_eq_some.1 h
  unfold Whole at *
  revert hfold
  fun_cases foldEffects? first later <;> intro hfold
  all_goals grind [Option.map_eq_some_iff]

/-- An operation that modifies nothing can be applied unless its document is in the way. -/
theorem Whole.exists_takes (hop : op.Whole)
    (h : ((Outlook.ofPresence x.isSome).next op).settled = true) : ∃ y, op.Takes .strict x y := by
  obtain ⟨y, hy⟩ : ∃ y, op.outcome x = .ok y := by
    unfold outcome
    cases heff : op.effect with
    | update ms upsert => exact absurd heff (hop ms upsert)
    | _ => exact ⟨_, rfl⟩
  refine ⟨y, fun _ hr hmissing => ?_, fun doc hdoc => ?_, hy⟩
  · rw [hmissing, Option.isSome_none, Outlook.next_required hr] at h
    cases h
  · by_contra hpresent
    rw [Option.isSome_iff_ne_none.2 hpresent, Outlook.next_insert hdoc] at h
    cases h

end NetOp

namespace Gathering

variable {g g' : Gathering} {ns : Namespace} {op : NetOp}

/-- What was gathered modifies nothing. -/
def Whole (g : Gathering) : Prop := ∀ ns key op, g.op? ns key = some op → op.Whole

theorem whole_nil : Whole [] := fun _ _ _ h => nomatch h

theorem Whole.add (hg : g.Whole) (hop : op.Whole) (hadd : g.add ns op = some g') : g'.Whole := by
  obtain ⟨merged, hmerged, hall⟩ := op?_add hadd
  intro ns' key o ho
  rw [hall] at ho
  split_ifs at ho
  · obtain rfl := Option.some.inj ho
    cases hfirst : g.op? ns op.key with
    | none =>
      rw [hfirst] at hmerged
      obtain rfl : merged = op := hmerged
      exact hop
    | some first =>
      rw [hfirst] at hmerged
      exact .fold hmerged (hg _ _ _ hfirst) hop
  · exact hg _ _ _ ho

end Gathering

namespace Executor

variable {x : Executor} {c : Context} {w w' m : Workplace} {e : Entry} {es : List Entry}
  {op : NetOp} {ns : Namespace} {key : DocKey} {g g' : Gathering} {bs : List Batch}

/-! ## Batches that run -/

/-- Where what was gathered runs in a strict context, the outlook on a document is what is there
afterwards. -/
theorem outlook_of_runs_close (hst : c.strictness = .strict) (hg : g.WellFormed)
    (hs : w.store.WellFormed) (hrun : x.Runs c g.close w w') (ns : Namespace) (key : DocKey) :
    (Outlook.ofPresence (w.store.document? ns key).isSome).after (g.op? ns key) =
      Outlook.ofPresence (w'.store.document? ns key).isSome := by
  have hlead := (lead_of_runs_close hg hs hrun).2 ns key
  rw [hst] at hlead
  rw [← Outlook.after_of_leads hlead, Gathering.op?_closeJobs hg]
  cases hop : g.op? ns key with
  | none => rfl
  | some op =>
    rw [Outlook.after_filter]
    split_ifs with heff
    · rfl
    · -- What does nothing is left out when the gathering is closed.
      rw [decide_eq_true_eq, not_not] at heff
      exact Outlook.next_noop (hg.of_op? hop).1 heff _

/-- Batches that run in a strict context get past every document. -/
theorem clears_of_runs (hst : c.strictness = .strict) (hes : ∀ e ∈ es, e.isCommand = false)
    (hg : g.WellFormed) (hs : w.store.WellFormed) (hgather : Batch.gather c g es = .ok bs)
    (hrun : x.Runs c bs w w') (ns : Namespace) (key : DocKey) :
    ((Outlook.ofPresence (w.store.document? ns key).isSome).after (g.op? ns key)).clears c ns key
      g es = true := by
  induction es generalizing g w bs with
  | nil =>
    obtain rfl := Except.ok.inj hgather
    rw [outlook_of_runs_close hst hg hs hrun]
    exact Outlook.settled_ofPresence _
  | cons e es ih =>
    obtain ⟨he, hes⟩ := List.forall_mem_cons.1 hes
    cases Batch.gathers_of_gather he hgather with
    | none read rest =>
      rw [Outlook.clears_none read]
      exact ih hes hg hs rest hrun
    | added read add rest =>
      have hop := NetOp.fresh_of_ofEntry? read
      rw [Outlook.clears_added read add, ← Outlook.after_add hg hop add]
      exact ih hes (hg.add add hop.wellFormed) hs rest hrun
    | @closed op later read full rest =>
      have hop := NetOp.fresh_of_ofEntry? read
      obtain ⟨m, hclose, hrest⟩ := runs_append.1 hrun
      have hm := (lead_of_runs_close hg hs hclose).1
      have hbegin : Gathering.add e.ns op [] = some [⟨e.ns, [op]⟩] := rfl
      have hrest := ih hes (Gathering.wellFormed_nil.add hbegin hop.wellFormed) hm rest hrest
      rw [Outlook.after_add Gathering.wellFormed_nil hop hbegin] at hrest
      rw [Outlook.clears_closed read full, outlook_of_runs_close hst hg hs hclose,
        Outlook.settled_ofPresence]
      exact hrest

/-! ## Batches that get past every document -/

/-- What was gathered runs on a store without faults and unique indexes if it modifies nothing and
no document is in the way. -/
theorem exists_runs_close (hx : x.dispatch = .sequential) (hst : c.strictness = .strict)
    (hg : g.WellFormed) (hwhole : g.Whole) (hs : w.store.WellFormed) (hplain : w.store.Plain)
    (h : ∀ ns key, ((Outlook.ofPresence (w.store.document? ns key).isSome).after
      (g.op? ns key)).settled = true) :
    ∃ m, x.Runs c g.close w m ∧ m.store.WellFormed ∧ m.store.Plain := by
  obtain ⟨m, happly⟩ : ∃ m, Job.applyAll c.strictness g.closeJobs w = (.ok (), m) := by
    rw [hst]
    refine Job.exists_applyAll_of_takes hg.closeJobs hs hplain fun job hjob op hop => ?_
    have hfound := Gathering.op?_of_mem hg.closeJobs hjob hop
    rw [Gathering.op?_closeJobs hg] at hfound
    have hfound := (Option.filter_eq_some_iff.1 hfound).1
    have hsettled := h job.ns op.key
    rw [hfound] at hsettled
    exact (hwhole _ _ _ hfound).exists_takes hsettled
  exact ⟨m, (runs_close hx).2 happly, (Job.lead_of_applyAll hg.closeJobs hs happly).1,
    Job.plain_applyAll hg.closeJobs hs hplain happly⟩

/-- Entries that modify nothing and get past every document are gathered into batches that run. -/
theorem exists_runs_of_clears (hx : x.dispatch = .sequential) (hst : c.strictness = .strict)
    (hes : ∀ e ∈ es, e.isCommand = false)
    (hwhole : ∀ e ∈ es, ∀ op, NetOp.ofEntry? c e = .ok (some op) → op.Whole)
    (hg : g.WellFormed) (hgathered : g.Whole) (hs : w.store.WellFormed) (hplain : w.store.Plain)
    (h : ∀ ns key, ((Outlook.ofPresence (w.store.document? ns key).isSome).after
      (g.op? ns key)).clears c ns key g es = true) :
    ∃ bs w', Batch.gather c g es = .ok bs ∧ x.Runs c bs w w' := by
  induction es generalizing g w with
  | nil =>
    obtain ⟨m, hrun, -⟩ := exists_runs_close hx hst hg hgathered hs hplain h
    exact ⟨g.close, m, rfl, hrun⟩
  | cons e es ih =>
    obtain ⟨he, hes⟩ := List.forall_mem_cons.1 hes
    obtain ⟨hfirst, hwhole⟩ := List.forall_mem_cons.1 hwhole
    cases hread : NetOp.ofEntry? c e with
    | error err =>
      -- What cannot be read is in the way of every document.
      have hclears := h e.ns (.ofId .null)
      rw [Outlook.clears_error hread] at hclears
      cases hclears
    | ok op? =>
      cases op? with
      | none =>
        simp only [Outlook.clears_none hread] at h
        rw [Batch.gather_none he hread]
        exact ih hes hwhole hg hgathered hs hplain h
      | some op =>
        have hop := NetOp.fresh_of_ofEntry? hread
        cases hadd : g.add e.ns op with
        | some g' =>
          simp only [Outlook.clears_added hread hadd, ← Outlook.after_add hg hop hadd] at h
          rw [Batch.gather_added he hread hadd]
          exact ih hes hwhole (hg.add hadd hop.wellFormed)
            (hgathered.add (hfirst op hread) hadd) hs hplain h
        | none =>
          simp only [Outlook.clears_closed hread hadd, Bool.and_eq_true] at h
          obtain ⟨m, hclose, hm, hplain'⟩ :=
            exists_runs_close hx hst hg hgathered hs hplain fun ns key => (h ns key).1
          -- A new gathering begins with the operation where the first one has led.
          have hbegin : Gathering.add e.ns op [] = some [⟨e.ns, [op]⟩] := rfl
          obtain ⟨later, w', hlater, hrun⟩ := ih hes hwhole
            (Gathering.wellFormed_nil.add hbegin hop.wellFormed)
            (Gathering.whole_nil.add (hfirst op hread) hbegin) hm hplain' fun ns key => by
              rw [Outlook.after_add Gathering.wellFormed_nil hop hbegin]
              have hrest := (h ns key).2
              rwa [outlook_of_runs_close hst hg hs hclose] at hrest
          rw [Batch.gather_closed he hread hadd, hlater]
          exact ⟨_, w', rfl, runs_append.2 ⟨m, hclose, hrun⟩⟩

/-- Whether entries that insert, replace and delete succeed as a whole depends on nothing but which
documents are there: on a store without faults and unique indexes they do in a strict context
exactly if they get past every document. -/
theorem applyEntries_eq_ok_iff_clears (hx : x.dispatch = .sequential) (hst : c.strictness = .strict)
    (hes : ∀ e ∈ es, e.isCommand = false)
    (hwhole : ∀ e ∈ es, ∀ op, NetOp.ofEntry? c e = .ok (some op) → op.Whole)
    (hs : w.store.WellFormed) (hplain : w.store.Plain) :
    (∃ w', x.applyEntries c es w = (.ok (), w')) ↔ ∀ ns key,
      (Outlook.ofPresence (w.store.document? ns key).isSome).clears c ns key [] es = true := by
  constructor
  · rintro ⟨w', happly⟩ ns key
    obtain ⟨bs, hgather, hrun⟩ := applyEntries_eq_ok.1 happly
    exact clears_of_runs hst hes Gathering.wellFormed_nil hs hgather hrun ns key
  · intro h
    obtain ⟨bs, w', hgather, hrun⟩ := exists_runs_of_clears hx hst hes hwhole
      Gathering.wellFormed_nil Gathering.whole_nil hs hplain h
    exact ⟨w', applyEntries_eq_ok.2 ⟨bs, hgather, hrun⟩⟩

end Executor

end Replica
