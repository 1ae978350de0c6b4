import Replica.Proofs.Analysis.Stopping
import Replica.Proofs.Execution.CatchUp
import Replica.Proofs.Store.Sessions

/-!
# Applying a window again

Entries that were applied one at a time are applied again in recovery, cut in whatever way. On a
store without faults and without unique indexes a job fails there only where modifiers cannot be
applied to what is found (`Job.fails_of_applyAll`), so the history of some document stops
(`stops_applyCuts`). Hence a window that was applied can be applied again, unless it has left
something in the way of a path that it sets (`applyCuts_again`), as one does that first sets a field
of a field and then replaces the latter by a number (`applyCuts_resized`).
-/

namespace Replica

namespace Job

variable {st : Strictness} {job : Job} {jobs : List Job} {w w' : Workplace} {e : ReplicationError}

/-- An operation that may be applied again inserts what it is to leave. -/
theorem inserts_of_reapplicable {op : NetOp} (hop : op.Reapplicable) (x : Option Json) :
    op.inserts x = op.outcome x := by
  refine NetOp.inserts_eq_outcome fun hnoop => ?_
  rwa [NetOp.Reapplicable, hnoop] at hop

/-- Where missing targets are passed over, a job whose operations may be applied again cannot be
planned only for an operation that cannot be applied to what it finds. -/
theorem fails_of_plan (hs : w.store.WellFormed) (hops : ∀ op ∈ job.ops, op.Reapplicable)
    (h : job.plan .lenient w.store = .error e) :
    ∃ op ∈ job.ops, ∃ err, op.outcome (w.store.document? job.ns op.key) = .error err ∧
      e = .entry err := by
  unfold plan writes at h
  dsimp only at h
  rw [if_neg fun hmissing => nomatch hmissing.1] at h
  split at h
  · rename_i err hinserted
    rw [inserted_eq hs] at hinserted
    cases hmap : job.ops.mapM fun op : NetOp => op.inserts (w.store.document? job.ns op.key) with
    | ok _ =>
      rw [hmap] at hinserted
      cases hinserted
    | error err' =>
      rw [hmap] at hinserted
      obtain rfl := Except.error.inj hinserted
      obtain ⟨op, hop, hfail⟩ := exists_of_mapM_eq_error hmap
      rw [inserts_of_reapplicable (hops op hop)] at hfail
      exact ⟨op, hop, err', hfail, (Except.error.inj h).symm⟩
  · cases h

/-- Where missing targets are passed over and nothing can collide, a job that is planned and whose
operations may be applied again succeeds. -/
theorem exists_apply_of_plan (hs : w.store.WellFormed) (hplain : w.store.Plain)
    (hj : job.WellFormed) (hops : ∀ op ∈ job.ops, op.Reapplicable) {t : Transaction}
    (h : job.plan .lenient w.store = .ok t) : ∃ w', job.apply .lenient w = (.ok (), w') := by
  obtain ⟨-, hall, -⟩ := (plan_eq_ok hs hj).1 h
  refine exists_apply_of_takes hs hplain hj fun op hop => ?_
  obtain ⟨d, hd⟩ := hall op hop
  rw [inserts_of_reapplicable (hops op hop)] at hd
  exact ⟨d, (hops op hop).takes_iff.2 hd⟩

/-- Where missing targets are passed over and nothing can collide, a job whose operations may be
applied again fails at one that cannot be applied to what it finds. -/
theorem fails_of_apply (hs : w.store.WellFormed) (hplain : w.store.Plain) (hj : job.WellFormed)
    (hops : ∀ op ∈ job.ops, op.Reapplicable) (h : (job.apply .lenient w).1 = .error e) :
    ∃ op ∈ job.ops, ∃ err, op.outcome (w.store.document? job.ns op.key) = .error err ∧
      e = .entry err := by
  cases hplan : job.plan .lenient w.store with
  | error e' =>
    obtain ⟨op, hop, err, hfail, rfl⟩ := fails_of_plan hs hops hplan
    rw [apply, Workplace.perform_of_plan_error hplan fun _ heq => nomatch heq] at h
    exact ⟨op, hop, err, hfail, (Except.error.inj h).symm⟩
  | ok t =>
    obtain ⟨w', hsuccess⟩ := exists_apply_of_plan hs hplain hj hops hplan
    rw [hsuccess] at h
    cases h

/-- Jobs on different collections fail where an operation of one of them cannot be applied to what
was there at first. -/
theorem fails_of_applyAll (hjobs : Gathering.WellFormed jobs) (hs : w.store.WellFormed)
    (hplain : w.store.Plain) (hops : ∀ job ∈ jobs, ∀ op ∈ job.ops, op.Reapplicable)
    (h : (applyAll .lenient jobs w).1 = .error e) : ∃ job ∈ jobs, ∃ op ∈ job.ops, ∃ err,
      op.outcome (w.store.document? job.ns op.key) = .error err ∧ e = .entry err := by
  induction jobs generalizing w with
  | nil => cases h
  | cons job jobs ih =>
    have hj := hjobs.jobs job List.mem_cons_self
    rw [applyAll] at h
    split at h
    · rename_i w₁ happly
      have hdone := apply_eq_ok hs hj happly
      obtain ⟨job', hjob', op, hop, err, hfail, he⟩ := ih hjobs.tail hdone.wellFormed
        (plain_apply hs hplain hj happly) (fun j hj' => hops j (List.mem_cons_of_mem _ hj')) h
      have hns : job'.ns ≠ job.ns := fun heq =>
        (List.nodup_cons.1 hjobs.nodup).1 (heq ▸ List.mem_map_of_mem hjob')
      rw [hdone.document?_elsewhere hns] at hfail
      exact ⟨job', List.mem_cons_of_mem _ hjob', op, hop, err, hfail, he⟩
    · obtain ⟨op, hop, err, hfail, he⟩ :=
        fails_of_apply hs hplain hj (hops job List.mem_cons_self) h
      exact ⟨job, List.mem_cons_self, op, hop, err, hfail, he⟩

end Job

namespace Executor

open NetOp (Reapplicable Follows Reaches Upserts Stops modifiers)

variable {x : Executor} {c : Context} {w w' : Workplace} {e : Entry} {es : List Entry} {op : NetOp}
  {ns : Namespace} {key : DocKey} {err : ReplicationError} {bs bs' : List Batch}

/-! ## Stores without faults and unique indexes -/

/-- The batches of entries on documents leave a store without faults and unique indexes such a
one. -/
theorem plain_of_runs (hx : x.dispatch = .sequential) (hes : ∀ e ∈ es, e.isCommand = false)
    (hbs : ∀ b ∈ bs, b.MadeOf c es) (hs : w.store.WellFormed) (hplain : w.store.Plain)
    (h : x.Runs c bs w w') : w'.store.WellFormed ∧ w'.store.Plain := by
  induction bs generalizing w with
  | nil => exact runs_nil.1 h ▸ ⟨hs, hplain⟩
  | cons b bs ih =>
    obtain ⟨hb, hrest⟩ := List.forall_mem_cons.1 hbs
    obtain ⟨m, happly, hlater⟩ := runs_cons.1 h
    cases b with
    | jobs jobs =>
      rw [apply, runJobs, hx] at happly
      exact ih hrest (Job.lead_of_applyAll hb.1 hs happly).1
        (Job.plain_applyAll hb.1 hs hplain happly) hlater
    | command e =>
      have hcommand := hb.2
      rw [hes e hb.1] at hcommand
      cases hcommand
    | noop =>
      obtain ⟨-, rfl⟩ := Prod.mk.inj happly
      exact ih hrest hs hplain hlater

/-- Entries that succeed in a cut leave a store without faults and unique indexes such a one. -/
theorem plain_applyCuts (hx : x.dispatch = .sequential) {cuts : List (List Entry)}
    (hcuts : ∀ e ∈ cuts.flatten, e.isCommand = false) (hs : w.store.WellFormed)
    (hplain : w.store.Plain) (h : x.applyCuts c cuts w = (.ok (), w')) :
    w'.store.WellFormed ∧ w'.store.Plain := by
  induction cuts generalizing w with
  | nil =>
    obtain ⟨-, rfl⟩ := Prod.mk.inj h
    exact ⟨hs, hplain⟩
  | cons es cuts ih =>
    rw [List.flatten_cons] at hcuts
    obtain ⟨w₁, happly, h⟩ := applyCuts_cons_eq_ok.1 h
    obtain ⟨bs, hgather, hrun⟩ := applyEntries_eq_ok.1 happly
    obtain ⟨hs₁, hplain₁⟩ := plain_of_runs hx (fun e he => hcuts e (List.mem_append_left _ he))
      (Batch.madeOf_gather hgather) hs hplain hrun
    exact ih (fun e he => hcuts e (List.mem_append_right _ he)) hs₁ hplain₁ h

/-! ## What was gathered -/

/-- What was gathered from histories, its upserts having all modifiers of their histories. -/
structure Retraced (g : Gathering) (past : Namespace → DocKey → List NetOp) : Prop
    extends Replayed g past where
  /-- A document without an operation has no history. -/
  untouched : ∀ {ns key}, g.op? ns key = none → past ns key = []
  /-- An upsert stands for the upserts of its history. -/
  upserts : ∀ {ns key op ms}, g.op? ns key = some op → op.effect = .update ms true →
    Upserts (past ns key) ∧ modifiers (past ns key) = ms ∧ ∃ o ∈ past ns key, o.id = op.id

variable {g g' : Gathering} {past : Namespace → DocKey → List NetOp}

theorem Retraced.nil : Retraced [] fun _ _ => [] :=
  { Replayed.nil with
    untouched := fun _ => rfl
    upserts := fun hop => nomatch hop }

/-- An operation that is added is the next one of its history. -/
theorem Retraced.add (h : Retraced g past) (hop : op.WellFormed) (hagain : op.Reapplicable)
    (hadd : g.add ns op = some g') :
    Retraced g' fun ns' key =>
      past ns' key ++ if ns' = ns ∧ key = op.key then [op] else [] := by
  obtain ⟨merged, hmerged, hall⟩ := Gathering.op?_add hadd
  refine { h.toReplayed.add hop hagain hadd with untouched := ?_, upserts := ?_ }
  · intro ns' key hnone
    rw [hall] at hnone
    split_ifs at hnone ⊢ with hcase
    rw [List.append_nil]
    exact h.untouched hnone
  · intro ns' key o ms ho hms
    rw [hall] at ho
    split_ifs at ho ⊢ with hcase
    · obtain ⟨rfl, rfl⟩ := hcase
      obtain rfl := Option.some.inj ho
      cases hfirst : g.op? ns' op.key with
      | none =>
        rw [hfirst] at hmerged
        obtain rfl : merged = op := hmerged
        rw [h.untouched hfirst, List.nil_append]
        refine ⟨List.forall_mem_singleton.2 ⟨ms, hms⟩, ?_, merged, List.mem_singleton_self _, rfl⟩
        rw [NetOp.modifiers_cons hms]
        exact List.append_nil ms
      | some first =>
        rw [hfirst] at hmerged
        obtain ⟨earlier, later, hearlier, hlater, rfl⟩ :=
          NetOp.upsert_of_fold hmerged (h.reapplicable hfirst) hagain hms
        obtain ⟨hupserts, hmodifiers, o, ho, hid⟩ := h.upserts hfirst hearlier
        refine ⟨List.forall_mem_append.2 ⟨hupserts, List.forall_mem_singleton.2 ⟨_, hlater⟩⟩, ?_, o,
          List.mem_append_left _ ho, hid.trans (NetOp.fold?_eq_some.1 hmerged).2.symm⟩
        rw [NetOp.modifiers_append, hmodifiers, NetOp.modifiers_cons hlater]
        exact congrArg _ (List.append_nil later)
    · rw [List.append_nil]
      exact h.upserts ho hms

/-- If what was gathered fails when it is closed, some history stops. -/
theorem Retraced.stops_close (hx : x.dispatch = .sequential) (h : Retraced g past)
    (hs : w.store.WellFormed) (hplain : w.store.Plain)
    (hfail : (x.applyAll .recovery g.close w).1 = .error err) :
    ∃ ns key e, err = .entry e ∧ Stops (past ns key) (w.store.document? ns key) e := by
  have hjobs : (Job.applyAll .lenient g.closeJobs w).1 = .error err := by
    rw [Gathering.close_eq] at hfail
    split_ifs at hfail
    · cases hfail
    · rw [applyAll, apply, runJobs, hx] at hfail
      dsimp only at hfail
      split at hfail
      · rename_i heq
        exact (congrArg Prod.fst heq).trans hfail
      · cases hfail
  have hop? : ∀ {job : Job} {op : NetOp}, job ∈ g.closeJobs → op ∈ job.ops →
      g.op? job.ns op.key = some op := by
    intro job op hjob hop
    have hfound := Gathering.op?_of_mem h.gathering.closeJobs hjob hop
    rw [Gathering.op?_closeJobs h.gathering] at hfound
    exact (Option.filter_eq_some_iff.1 hfound).1
  obtain ⟨job, hjob, op, hop, e, houtcome, rfl⟩ := Job.fails_of_applyAll h.gathering.closeJobs hs
    hplain (fun job hjob op hop => h.reapplicable (hop? hjob hop)) hjobs
  have hfound := hop? hjob hop
  refine ⟨job.ns, op.key, e, rfl, ?_⟩
  -- Deletes and replacements can always be applied.
  rcases (h.reapplicable hfound).effect_cases with heff | ⟨doc, heff⟩ | ⟨ms, heff⟩
  · rw [NetOp.outcome_delete heff] at houtcome
    cases houtcome
  · rw [NetOp.outcome_deleteCreate heff] at houtcome
    cases houtcome
  · obtain ⟨hupserts, rfl, o, ho, hid⟩ := h.upserts hfound heff
    refine ⟨[], past job.ns op.key, [], _, (List.append_nil _).symm, .inl rfl, hupserts, o, ho, ?_⟩
    rw [hid]
    exact NetOp.outcome_upsert_error heff houtcome

/-! ## Entries -/

/-- Batches that fail do so in their first part, or in their second part behind it. -/
theorem applyAll_append_error (h : (x.applyAll c (bs ++ bs') w).1 = .error err) :
    (x.applyAll c bs w).1 = .error err ∨
      ∃ m, x.Runs c bs w m ∧ (x.applyAll c bs' m).1 = .error err := by
  induction bs generalizing w with
  | nil => exact .inr ⟨w, runs_nil.2 rfl, h⟩
  | cons b bs ih =>
    rw [List.cons_append, applyAll] at h
    rw [applyAll]
    rcases happly : x.apply c b w with ⟨e | ⟨⟩, m⟩
    · rw [happly] at h
      exact .inl h
    · rw [happly] at h
      rcases ih h with hfirst | ⟨m', hrun, hlast⟩
      · exact .inl hfirst
      · exact .inr ⟨m', runs_cons.2 ⟨m, happly, hrun⟩, hlast⟩

/-- If entries can be gathered and do not run, some history stops. -/
theorem Retraced.stops_gather (hx : x.dispatch = .sequential) (hes : ∀ e ∈ es, e.isCommand = false)
    (hagain : ∀ ns key, ∀ op ∈ history ns key es, op.Reapplicable) (h : Retraced g past)
    (hs : w.store.WellFormed) (hplain : w.store.Plain)
    (hgather : Batch.gather .recovery g es = .ok bs)
    (hfail : (x.applyAll .recovery bs w).1 = .error err) :
    ∃ ns key e, err = .entry e ∧
      Stops (past ns key ++ history ns key es) (w.store.document? ns key) e := by
  induction es generalizing g past w bs with
  | nil =>
    obtain rfl := Except.ok.inj hgather
    simpa only [history, List.filterMap_nil, List.append_nil] using h.stops_close hx hs hplain hfail
  | cons e es ih =>
    have he := hes e List.mem_cons_self
    have hes' := fun e' he' => hes e' (List.mem_cons_of_mem _ he')
    have hagain' : ∀ ns key, ∀ op ∈ history ns key es, op.Reapplicable :=
      fun ns key op hop => hagain ns key op (mem_history_cons hop)
    cases Batch.gathers_of_gather he hgather with
    | none read rest =>
      simp only [history_cons, opOn?_none read, Option.toList_none, List.nil_append]
      exact ih hes' hagain' h hs hplain rest hfail
    | added read add rest =>
      have hop := hagain _ _ _ (mem_history_self read es)
      have hadded := h.add (NetOp.fresh_of_ofEntry? read).wellFormed hop add
      simp only [history_cons_some read, ← List.append_assoc]
      exact ih hes' hagain' hadded hs hplain rest hfail
    | closed read full rest =>
      rcases applyAll_append_error hfail with hclose | ⟨m, hclose, hrest⟩
      · obtain ⟨ns, key, e, rfl, hstops⟩ := h.stops_close hx hs hplain hclose
        exact ⟨ns, key, e, rfl, hstops.append _⟩
      · -- The histories were reached up to here, and one of them stops behind.
        obtain ⟨hm, hreaches⟩ := h.toReplayed.close hs hclose
        have hplain' := Job.plain_applyAll h.gathering.closeJobs hs hplain
          ((runs_close hx).1 hclose)
        have hop := hagain _ _ _ (mem_history_self read es)
        have hwf := (NetOp.fresh_of_ofEntry? read).wellFormed
        obtain ⟨ns, key, e, rfl, hstops⟩ :=
          ih hes' hagain' (Retraced.nil.add hwf hop rfl) hm hplain' rest hrest
        refine ⟨ns, key, e, rfl, ?_⟩
        rw [history_cons_some read]
        exact (hreaches ns key).stops hstops

/-- Entries that can be read in recovery can be gathered. -/
theorem exists_gather (hes : ∀ e ∈ es, e.isCommand = false)
    (hread : ∀ e ∈ es, ∃ op?, NetOp.ofEntry? c e = .ok op?) (g : Gathering) :
    ∃ bs, Batch.gather c g es = .ok bs := by
  induction es generalizing g with
  | nil => exact ⟨g.close, rfl⟩
  | cons e es ih =>
    obtain ⟨he, hes⟩ := List.forall_mem_cons.1 hes
    obtain ⟨⟨op?, hop⟩, hread⟩ := List.forall_mem_cons.1 hread
    cases op? with
    | none =>
      rw [Batch.gather_none he hop]
      exact ih hes hread g
    | some op =>
      cases hadd : g.add e.ns op with
      | some g' =>
        rw [Batch.gather_added he hop hadd]
        exact ih hes hread g'
      | none =>
        obtain ⟨later, hlater⟩ := ih hes hread [⟨e.ns, [op]⟩]
        rw [Batch.gather_closed he hop hadd, hlater]
        exact ⟨_, rfl⟩

/-- Entries that can be gathered fail where their batches do. -/
theorem applyAll_of_applyEntries (hgather : Batch.gather c [] es = .ok bs)
    (h : (x.applyEntries c es w).1 = .error err) : (x.applyAll c bs w).1 = .error err := by
  unfold applyEntries Batch.ofEntries at h
  rw [hgather] at h
  simp only [bind, Except.bind, pure, Except.pure] at h
  split_ifs at h with hnoop
  · -- A batch that does nothing does not fail.
    cases h
  · exact h

/-- Entries that can be read in recovery fail in a cut only where the history of some document
stops. -/
theorem stops_applyCuts (hx : x.dispatch = .sequential) {cuts : List (List Entry)}
    (hcuts : ∀ e ∈ cuts.flatten, e.isCommand = false)
    (hread : ∀ e ∈ cuts.flatten, ∃ op?, NetOp.ofEntry? .recovery e = .ok op?)
    (hagain : ∀ ns key, ∀ op ∈ history ns key cuts.flatten, op.Reapplicable)
    (hs : w.store.WellFormed) (hplain : w.store.Plain)
    (hfail : (x.applyCuts .recovery cuts w).1 = .error err) : ∃ ns key e, err = .entry e ∧
      Stops (history ns key cuts.flatten) (w.store.document? ns key) e := by
  induction cuts generalizing w with
  | nil => cases hfail
  | cons es cuts ih =>
    rw [List.flatten_cons] at hcuts hread hagain
    simp only [List.flatten_cons, history_append] at hagain ⊢
    have hfirst := fun e he => hcuts e (List.mem_append_left _ he)
    have hagainFirst := fun ns key op hop => hagain ns key op (List.mem_append_left _ hop)
    obtain ⟨bs, hgather⟩ :=
      exists_gather hfirst (fun e he => hread e (List.mem_append_left _ he)) []
    rw [applyCuts] at hfail
    split at hfail
    · rename_i w₁ happly
      have hcut : x.applyCuts .recovery [es] w = (.ok (), w₁) :=
        applyCuts_cons_eq_ok.2 ⟨w₁, happly, rfl⟩
      obtain ⟨hs₁, hplain₁⟩ := plain_applyCuts hx (by simpa using hfirst) hs hplain hcut
      obtain ⟨bs', hgather', hrun⟩ := applyEntries_eq_ok.1 happly
      have hreaches := (Replayed.nil.gather hfirst hagainFirst hs hgather' hrun).2
      obtain ⟨ns, key, e, rfl, hstops⟩ := ih (fun e he => hcuts e (List.mem_append_right _ he))
        (fun e he => hread e (List.mem_append_right _ he))
        (fun ns key op hop => hagain ns key op (List.mem_append_right _ hop)) hs₁ hplain₁ hfail
      exact ⟨ns, key, e, rfl, (hreaches ns key).stops hstops⟩
    · obtain ⟨ns, key, e, rfl, hstops⟩ := Retraced.nil.stops_gather hx hfirst hagainFirst hs hplain
        hgather (applyAll_of_applyEntries hgather hfail)
      exact ⟨ns, key, e, rfl, hstops.append _⟩

/-! ## The second pass -/

/-- Entries that succeed one at a time can be read in recovery. -/
theorem exists_ofEntry?_of_applyEach (hx : x.dispatch = .sequential)
    (hes : ∀ e ∈ es, e.isCommand = false) (hcanonical : ∀ e ∈ es, e.Canonical)
    (h : x.applyEach .steady es w = (.ok (), w')) :
    ∀ e ∈ es, ∃ op?, NetOp.ofEntry? .recovery e = .ok op? := by
  induction es generalizing w with
  | nil => exact fun _ he => nomatch he
  | cons e es ih =>
    obtain ⟨he, hes⟩ := List.forall_mem_cons.1 hes
    obtain ⟨hcanonical, hrest⟩ := List.forall_mem_cons.1 hcanonical
    obtain ⟨w₁, hfirst, h⟩ := applyEach_cons_eq_ok.1 h
    refine List.forall_mem_cons.2 ⟨?_, ih hes hrest h⟩
    rw [applyEntries_singleton hx he] at hfirst
    split at hfirst
    · cases congrArg Prod.fst hfirst
    · rename_i hop
      exact ⟨none, NetOp.ofEntry?_recovery_none hop⟩
    · rename_i op hop
      obtain ⟨op', hop', -⟩ := NetOp.exists_ofEntry?_recovery hcanonical hop
      exact ⟨some op', hop'⟩

end Executor

/-- The entry is an update that sets a field of the document with a key at a path. -/
def Entry.Sets (e : Entry) (key : DocKey) (path : String) : Prop :=
  ∃ id update upsert ms value, e.action = .update id update upsert ∧ DocKey.ofId id = key ∧
    Update.parse update = .ok (.modify ms) ∧ .set path value ∈ ms

/-- An entry that is read into an upsert sets what the upsert sets. -/
theorem Entry.sets_of_ofEntry? {c : Context} {e : Entry} {op : NetOp} {ms : List Modifier}
    {path : String} {value : Json} (h : NetOp.ofEntry? c e = .ok (some op))
    (hms : op.effect = .update ms true) (hset : .set path value ∈ ms) : e.Sets op.key path := by
  cases NetOp.readOff_of_ofEntry? h with
  | insert action identified =>
    dsimp only at hms
    split_ifs at hms
  | replace action identified parsed carries => split_ifs at hms
  | modify action identified parsed =>
    obtain ⟨rfl, -⟩ := Effect.update.inj hms
    exact ⟨_, _, _, _, value, action, rfl, parsed, hset⟩
  | delete action identified => cases hms

namespace Executor

/-- A window that was applied can be applied again: if entries succeed one at a time on a store
without faults and without unique secondary indexes, then every cut of them succeeds in recovery on
the store that they leave, unless they have left a document with something in the way of a path at
which one of them sets a field of it. -/
theorem applyCuts_again (x : Executor) (cuts : List (List Entry)) (w w' : Workplace)
    (hx : x.dispatch = .sequential) (hcuts : ∀ e ∈ cuts.flatten, e.isCommand = false)
    (hcanonical : ∀ e ∈ cuts.flatten, e.Canonical) (hw : w.store.Reachable)
    (hhealthy : w.store.Healthy)
    (hindexes : ∀ ns, ∀ index ∈ w.store.indexes ns, index.unique = false)
    (heach : x.applyEach .steady cuts.flatten w = (.ok (), w')) :
    (x.applyCuts .recovery cuts w').1 = .ok () ∨
      ∃ e ∈ cuts.flatten, ∃ key path reason doc, e.Sets key path ∧
        w'.store.document? e.ns key = some doc ∧ doc.Obstructs (pathSegments path) ∧
        (x.applyCuts .recovery cuts w').1 = .error (.entry (.typeMismatch path reason)) := by
  have hplain : w.store.Plain := by
    refine ⟨hhealthy, fun ns => ?_⟩
    rw [← Store.indexes_eq]
    exact hindexes ns
  have hsingle : ∀ e ∈ (cuts.flatten.map fun e => [e]).flatten, e.isCommand = false := by
    rwa [← List.flatMap_def, List.flatMap_singleton']
  obtain ⟨hs', hplain'⟩ := plain_applyCuts hx hsingle hw.wellFormed hplain heach
  have hfollows := (follows_applyEach hx hcuts hcanonical hw.wellFormed heach).2
  have hread := exists_ofEntry?_of_applyEach hx hcuts hcanonical heach
  cases hresult : (x.applyCuts .recovery cuts w').1 with
  | ok _ => exact .inl rfl
  | error err =>
    -- The second pass stops at one document, whose operations the first pass has applied.
    obtain ⟨ns, key, e, rfl, hstops⟩ := stops_applyCuts hx hcuts hread
      (fun ns key op hop => ((hfollows ns key).2 op hop).1) hs' hplain' hresult
    obtain ⟨hfirst, hops⟩ := hfollows ns key
    obtain ⟨op, hop, ms, path, value, reason, doc, hms, hset, hdoc, hobstructs, rfl⟩ :=
      hstops.obstructed (fun op hop => (hops op hop).2) (fun op hop => (hops op hop).1)
        (fun op hop => by
          obtain ⟨e, -, hentry, -⟩ := exists_of_mem_history hop
          exact (NetOp.fresh_of_ofEntry? hentry).wellFormed)
        (fun doc hdoc => by
          obtain ⟨members, _, heq, -⟩ :=
            Collection.WellFormed.exists_id_of_ofDocument ((hs' ns).ofDocument hdoc)
          exact ⟨members, heq⟩) hfirst
    obtain ⟨entry, hentry, hread, rfl, rfl⟩ := exists_of_mem_history hop
    exact .inr ⟨entry, hentry, op.key, path, reason, doc, Entry.sets_of_ofEntry? hread hms hset,
      hdoc, hobstructs, rfl⟩

/-- Items whose width is set before their size becomes a number. -/
def resized : List Entry :=
  let ns : Namespace := ⟨"shop", "items"⟩
  [⟨⟨1, 1⟩, 1, ns, .update (.int 1) (.obj [("$set", .obj [("size.width", .int 3)])]) false⟩,
    ⟨⟨1, 2⟩, 2, ns, .update (.int 1) (.obj [("$set", .obj [("size", .int 7)])]) false⟩]

/-- An item without a size. -/
def unsized : Workplace :=
  ⟨(Store.empty.commit [.insert ⟨"shop", "items"⟩ [.obj [("_id", .int 1)]]]).2, {}, {}⟩

theorem applyCuts_again_resized : ∃ w', applyEach {} .steady resized unsized = (.ok (), w') ∧
    ((applyCuts {} .recovery [resized] w').1 = .ok () ∨
      ∃ e ∈ resized, ∃ key path reason doc, e.Sets key path ∧
        w'.store.document? e.ns key = some doc ∧ doc.Obstructs (pathSegments path) ∧
        (applyCuts {} .recovery [resized] w').1 = .error (.entry (.typeMismatch path reason))) := by
  have heach : (applyEach {} .steady resized unsized).1 = .ok () := by decide +kernel
  have hcanonical : ∀ e ∈ resized, e.Canonical := by
    simp [resized, Entry.Canonical, Json.Canonical, Json.CanonicalMembers, Assoc.Ascending]
  have hreachable : unsized.store.Reachable := by
    refine .commit .empty _ fun w hw => ?_
    rw [List.mem_singleton.1 hw]
    intro doc hdoc
    rw [List.mem_singleton.1 hdoc]
    simp [Json.Canonical, Json.CanonicalMembers, Assoc.Ascending]
  have hindexes : ∀ ns, ∀ index ∈ unsized.store.indexes ns, index.unique = false :=
    Store.forall_mem_indexes (by decide +kernel)
  exact ⟨_, Prod.ext heach rfl, applyCuts_again {} [resized] unsized _ rfl (by decide) hcanonical
    hreachable ⟨rfl, rfl⟩ hindexes (Prod.ext heach rfl)⟩

/-- The width of an item whose size has become a number cannot be set a second time. -/
theorem applyCuts_resized : ∃ w', applyEach {} .steady resized unsized = (.ok (), w') ∧
    w'.store.contents ⟨"shop", "items"⟩ = [.obj [("_id", .int 1), ("size", .int 7)]] ∧
    (applyCuts {} .recovery [resized] w').1 =
      .error (.entry (.typeMismatch "size.width" "'size' holds non-object 7")) := by
  have heach : (applyEach {} .steady resized unsized).1 = .ok () := by decide +kernel
  exact ⟨_, Prod.ext heach rfl, by decide +kernel, by decide +kernel⟩

end Executor

end Replica
