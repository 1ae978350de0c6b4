import Replica.Proofs.Analysis.Batches
import Replica.Proofs.Execution.BatchEffect

/-!
# Cutting a part of the log into batches

Entries can be applied one at a time, or cut into runs each of which is folded into batches. What
was gathered so far leads from the store before the gathering to the one that single entries have
led to, and single entries have made its commits before (`Gathered`). An operation that is added and
the closing keep this, so it is carried along the entries (`Carried.exists_runs`), and a cut changes
nothing (`applyCuts_exact`).
-/

namespace Replica.Executor

variable {x : Executor} {c : Context} {w w' : Workplace} {e : Entry} {es : List Entry}

/-- Applies runs of entries one after another, up to the first that fails. -/
def applyCuts (x : Executor) (c : Context) :
    List (List Entry) → Workplace → Except ReplicationError Unit × Workplace
  | [], w => (.ok (), w)
  | es :: cuts, w =>
    match x.applyEntries c es w with
    | (.ok (), w) => applyCuts x c cuts w
    | outcome => outcome

/-- Applies entries one at a time, up to the first that fails. -/
def applyEach (x : Executor) (c : Context) (es : List Entry) (w : Workplace) :
    Except ReplicationError Unit × Workplace :=
  x.applyCuts c (es.map fun e => [e]) w

/-- Some batches succeed and lead from one workplace to another. -/
def Runs (x : Executor) (c : Context) (bs : List Batch) (w w' : Workplace) : Prop :=
  (x.applyAll c bs w).1 = .ok () ∧ (x.applyAll c bs w).2.2 = w'

theorem runs_nil : x.Runs c [] w w' ↔ w = w' := and_iff_right rfl

theorem runs_cons {b : Batch} {bs : List Batch} :
    x.Runs c (b :: bs) w w' ↔ ∃ m, x.apply c b w = (.ok (), m) ∧ x.Runs c bs m w' := by
  unfold Runs
  rw [applyAll]
  rcases x.apply c b w with ⟨e | ⟨⟩, m⟩
  · simp
  · simp

theorem runs_append {bs bs' : List Batch} :
    x.Runs c (bs ++ bs') w w' ↔ ∃ m, x.Runs c bs w m ∧ x.Runs c bs' m w' := by
  induction bs generalizing w with
  | nil => simp [runs_nil]
  | cons b bs ih =>
    simp only [List.cons_append, runs_cons, ih]
    constructor
    · rintro ⟨m, hb, m', hbs, hbs'⟩
      exact ⟨m', ⟨m, hb, hbs⟩, hbs'⟩
    · rintro ⟨m', ⟨m, hb, hbs⟩, hbs'⟩
      exact ⟨m, hb, m', hbs, hbs'⟩

/-- Entries succeed exactly when they can be interpreted and the batches that come of them do. -/
theorem applyEntries_eq_ok : x.applyEntries c es w = (.ok (), w') ↔
    ∃ batches, Batch.gather c [] es = .ok batches ∧ x.Runs c batches w w' := by
  unfold applyEntries Batch.ofEntries
  cases hgather : Batch.gather c [] es with
  | error e => simp [bind, Except.bind]
  | ok batches =>
    simp only [bind, Except.bind, pure, Except.pure, Except.ok.injEq, exists_eq_left']
    split_ifs with hnoop
    · -- A batch that does nothing stands for none.
      rw [Bool.and_eq_true, List.isEmpty_iff] at hnoop
      rw [hnoop.1]
      simp [applyAll, apply, Runs]
    · simp only [Runs]
      rcases x.applyAll c batches w with ⟨r, n, m⟩
      exact Prod.mk_inj

/-- What was gathered runs as its jobs do, one after another. -/
theorem runs_close (hx : x.dispatch = .sequential) {g : Gathering} :
    x.Runs c g.close w w' ↔ Job.applyAll c.strictness g.closeJobs w = (.ok (), w') := by
  rw [Gathering.close_eq]
  split_ifs with hjobs
  · rw [List.isEmpty_iff] at hjobs
    rw [runs_nil, hjobs, Job.applyAll]
    simp
  · simp [runs_cons, runs_nil, apply, runJobs, hx]

theorem applyAll_singleton (job : Job) (st : Strictness) (w : Workplace) :
    Job.applyAll st [job] w = job.apply st w := by
  rw [Job.applyAll]
  rcases job.apply st w with ⟨e | ⟨⟩, m⟩ <;> rfl

theorem applyEntries_command (he : e.isCommand = true)
    (h : x.applyEntries c [e] w = (.ok (), w')) : e.applyCommand x.filters c w = (.ok (), w') := by
  obtain ⟨bs, hgather, hrun⟩ := applyEntries_eq_ok.1 h
  rw [Batch.gather_command he] at hgather
  obtain rfl := Except.ok.inj hgather
  obtain ⟨m, happly, hnil⟩ := runs_cons.1 hrun
  rw [← runs_nil.1 hnil]
  exact happly

/-- A single entry has the effect of its operation, if it has one. -/
theorem applyEntries_singleton (hx : x.dispatch = .sequential) (he : e.isCommand = false) :
    x.applyEntries c [e] w =
      match NetOp.ofEntry? c e with
      | .error err => (.error (.entry err), w)
      | .ok none => (.ok (), w)
      | .ok (some op) => Job.apply ⟨e.ns, [op]⟩ c.strictness w := by
  unfold applyEntries Batch.ofEntries
  cases hop : NetOp.ofEntry? c e with
  | error err =>
    rw [Batch.gather_error he hop]
    rfl
  | ok op? =>
    cases op? with
    | none =>
      rw [Batch.gather_none he hop]
      simp only [Batch.gather, bind, Except.bind, pure, Except.pure]
      cases hnoop : [e].any fun e => e.action == .noop <;> rfl
    | some op =>
      have hclose : Gathering.close [⟨e.ns, [op]⟩] = [.jobs [⟨e.ns, [op]⟩]] := by
        have hne : decide (op.effect ≠ .noop) = true :=
          decide_eq_true (NetOp.fresh_of_ofEntry? hop).ne_noop
        rw [Gathering.close_eq, Gathering.closeJobs_cons, List.filter_cons, if_pos hne]
        rfl
      have hgather : Batch.gather c [] [e] = .ok [.jobs [⟨e.ns, [op]⟩]] := by
        rw [Batch.gather_added he hop rfl, Batch.gather, hclose]
      simp only [hgather, bind, Except.bind, List.isEmpty_cons, Bool.false_and, Bool.false_eq_true,
        if_false, pure, Except.pure, applyAll, apply, runJobs, hx, applyAll_singleton]
      rcases Job.apply ⟨e.ns, [op]⟩ c.strictness w with ⟨err | ⟨⟩, m⟩ <;> rfl

theorem applyEach_cons : x.applyEach c (e :: es) w =
    match x.applyEntries c [e] w with
    | (.ok (), w) => x.applyEach c es w
    | outcome => outcome := rfl

/-- Entries that are cut succeed exactly when those of the first cut do and the others do behind
them. -/
theorem applyCuts_cons_eq_ok {cuts : List (List Entry)} :
    x.applyCuts c (es :: cuts) w = (.ok (), w') ↔
      ∃ m, x.applyEntries c es w = (.ok (), m) ∧ x.applyCuts c cuts m = (.ok (), w') := by
  rw [applyCuts]
  rcases x.applyEntries c es w with ⟨err | ⟨⟩, m⟩ <;> simp

theorem applyEach_cons_eq_ok : x.applyEach c (e :: es) w = (.ok (), w') ↔
    ∃ m, x.applyEntries c [e] w = (.ok (), m) ∧ x.applyEach c es m = (.ok (), w') :=
  applyCuts_cons_eq_ok

/-! ## The invariant -/

/-- What was gathered leads from `s`, where the gathering began, to `t`, where single entries have
led. -/
structure Gathered (st : Strictness) (g : Gathering) (s t : Store) : Prop where
  /-- What was gathered is well-formed. -/
  gathering : g.WellFormed
  /-- The store is well-formed where the gathering began. -/
  start : s.WellFormed
  /-- Single entries have paid for the commits of what was gathered. -/
  paid : ∃ paid, Job.Paid g s t paid
  /-- The store is well-formed where single entries have led. -/
  reached : t.WellFormed
  /-- The indexes are the same. -/
  indexes : ∀ ns, (s.collection ns).indexes = (t.collection ns).indexes
  /-- What was gathered leads from one to the other. -/
  lead : Job.Lead st g s t

variable {st : Strictness} {g g' : Gathering} {s t t' : Store} {v v' : Workplace} {op : NetOp}
  {ns : Namespace}

/-- At first nothing was gathered. -/
theorem Gathered.of_outlasts (hs : s.WellFormed) (houtlasts : s.Outlasts t 0) (ht : t.WellFormed)
    (halike : s.Alike t) : Gathered st [] s t :=
  ⟨Gathering.wellFormed_nil, hs, ⟨∅, houtlasts, fun _ hns => by simp at hns,
    fun _ _ hop => absurd rfl hop⟩, ht, halike.indexes,
    fun ns key => (halike.documents ns key).symm⟩

theorem Gathered.nil (hs : s.WellFormed) (hhealthy : s.Healthy) (ht : t.WellFormed)
    (halike : s.Alike t) : Gathered st [] s t :=
  .of_outlasts hs (hhealthy.outlasts t 0) ht halike

theorem Gathered.outlasts (h : Gathered st g s t) : s.Outlasts t 0 := by
  obtain ⟨paid, hpaid⟩ := h.paid
  exact hpaid.outlasts.mono (Nat.zero_le _)

/-- The job of a single well-formed operation is well-formed. -/
theorem wellFormed_singleton (hop : op.WellFormed) : Job.WellFormed ⟨ns, [op]⟩ :=
  ⟨List.nodup_singleton _, fun _ ho => List.mem_singleton.1 ho ▸ hop⟩

/-- A document that a single operation is not on stays as it is. -/
theorem document?_single (hv : v.store.WellFormed) (hop : op.WellFormed)
    (happly : Job.apply ⟨ns, [op]⟩ st v = (.ok (), v')) {n : Namespace} {key : DocKey}
    (hcase : ¬(n = ns ∧ key = op.key)) : v'.store.document? n key = v.store.document? n key := by
  refine (Job.apply_eq_ok hv (wellFormed_singleton hop) happly).kept fun hns o ho hkey => ?_
  exact hcase ⟨hns.symm, by rw [← hkey, List.mem_singleton.1 ho]⟩

/-- An operation that is added and applied on its own pays for itself. -/
theorem Gathered.paid_add (h : Gathered st g s v.store) (hop : op.Fresh)
    (hadd : g.add ns op = some g') (happly : Job.apply ⟨ns, [op]⟩ st v = (.ok (), v')) :
    ∃ paid, Job.Paid g' s v'.store paid := by
  obtain ⟨paid, hpaid⟩ := h.paid
  obtain ⟨merged, -, hall⟩ := Gathering.op?_add hadd
  have hothers : ∀ n key, ¬(n = ns ∧ key = op.key) → g'.op? n key ≠ none →
      s.document? n key ≠ none ∨ v'.store.document? n key ≠ none → n ∈ paid := by
    intro n key hcase hfound hdoc
    rw [hall, if_neg hcase] at hfound
    rw [document?_single h.reached hop.wellFormed happly hcase] at hdoc
    exact hpaid.covers n key hfound hdoc
  by_cases hdoc : v.store.document? ns op.key ≠ none ∨ v'.store.document? ns op.key ≠ none
  · -- Its commit is one that the store where the gathering began has in reserve now.
    obtain ⟨hwritable, houtlasts⟩ := Job.outlasts_of_document? h.reached
      (wellFormed_singleton hop.wellFormed) happly (List.mem_singleton_self op) hop.ne_noop hdoc
    refine ⟨insert ns paid, ?_, fun n hn => ?_, fun n key hfound hdoc => ?_⟩
    · exact (hpaid.outlasts.trans houtlasts).mono (Finset.card_insert_le ns paid)
    · obtain rfl | hn := Finset.mem_insert.1 hn
      · exact fun hmem => hwritable (hpaid.outlasts.failing _ hmem)
      · exact hpaid.writable n hn
    · by_cases hcase : n = ns ∧ key = op.key
      · exact hcase.1 ▸ Finset.mem_insert_self ns paid
      · exact Finset.mem_insert_of_mem (hothers n key hcase hfound hdoc)
  · -- It neither finds nor leaves a document, so a former operation did if there was one at first.
    push Not at hdoc
    obtain ⟨_, -, houtlasts, -⟩ := Job.outlasts_of_apply happly
    refine ⟨paid, (hpaid.outlasts.trans houtlasts).mono (Nat.le_add_right _ _), hpaid.writable,
      fun n key hfound hdoc' => ?_⟩
    by_cases hcase : n = ns ∧ key = op.key
    · obtain ⟨rfl, rfl⟩ := hcase
      have hfirst : s.document? n op.key ≠ none := hdoc'.resolve_right (not_not_intro hdoc.2)
      refine hpaid.covers n op.key (fun hnone => hfirst ?_) (.inl hfirst)
      have hlead := h.lead n op.key
      rw [hnone] at hlead
      exact Eq.trans (Eq.symm hlead) hdoc.1
    · exact hothers n key hcase hfound hdoc'

/-- The invariant is kept by an operation that is added and applied on its own. -/
theorem Gathered.add (h : Gathered st g s v.store) (hop : op.Fresh) (hadd : g.add ns op = some g')
    (happly : Job.apply ⟨ns, [op]⟩ st v = (.ok (), v')) : Gathered st g' s v'.store := by
  have hdone := Job.apply_eq_ok h.reached (wellFormed_singleton hop.wellFormed) happly
  refine ⟨h.gathering.add hadd hop.wellFormed, h.start, h.paid_add hop hadd happly,
    hdone.wellFormed, fun n => by rw [h.indexes, hdone.indexes], fun n key => ?_⟩
  refine Gathering.leads_add h.gathering hadd n key (h.lead n key) ?_
  split_ifs with hcase
  · obtain ⟨rfl, rfl⟩ := hcase
    exact hdone.takes op (List.mem_singleton_self op)
  · exact document?_single h.reached hop.wellFormed happly hcase

/-- What was gathered is closed with success, and nothing is gathered then. -/
theorem Gathered.close (hx : x.dispatch = .sequential)
    (h : Gathered c.strictness g w.store t) :
    ∃ w', x.Runs c g.close w w' ∧ Gathered c.strictness [] w'.store t := by
  obtain ⟨paid, hpaid⟩ := h.paid
  have hcovers : ∀ ns key, Gathering.op? g.closeJobs ns key ≠ none → g.op? ns key ≠ none := by
    intro ns key hop hnone
    rw [Gathering.op?_closeJobs h.gathering, hnone] at hop
    exact hop rfl
  have hclosed : Job.Paid g.closeJobs w.store t paid :=
    { hpaid with covers := fun ns key hop => hpaid.covers ns key (hcovers ns key hop) }
  obtain ⟨w', happly, hwf, houtlasts, halike⟩ := Job.exists_applyAll_of_paid
    h.gathering.closeJobs h.start hclosed h.reached h.indexes
    fun ns key => Gathering.leads_closeJobs h.gathering (h.lead ns key)
  exact ⟨w', (runs_close hx).2 happly, .of_outlasts hwf houtlasts h.reached halike⟩

/-! ## Gathering along single entries -/

/-- A relation of what was gathered, of the store where the gathering began and of the one that
single entries have led to is carried along. -/
structure Carried (x : Executor) (c : Context) (P : Gathering → Store → Store → Prop) : Prop where
  /-- An operation is added and applied on its own. -/
  add : ∀ {g g' : Gathering} {s : Store} {v v' : Workplace} {ns : Namespace} {op : NetOp},
    P g s v.store → op.Fresh → g.add ns op = some g' →
    Job.apply ⟨ns, [op]⟩ c.strictness v = (.ok (), v') → P g' s v'.store
  /-- What was gathered is closed. -/
  close : ∀ {g : Gathering} {w : Workplace} {t : Store}, P g w.store t →
    ∃ w', x.Runs c g.close w w' ∧ P [] w'.store t

theorem Gathered.carried (hx : x.dispatch = .sequential) :
    Carried x c (Gathered c.strictness) :=
  ⟨fun h hop hadd happly => h.add hop hadd happly, fun h => h.close hx⟩

variable {P : Gathering → Store → Store → Prop}

/-- An entry without a command that succeeds on its own can be gathered; batches that come of this
run. -/
theorem Carried.entry (hP : Carried x c P) (hx : x.dispatch = .sequential)
    (he : e.isCommand = false) (h : P g w.store v.store)
    (happly : x.applyEntries c [e] v = (.ok (), v')) :
    ∃ bs g' w', x.Runs c bs w w' ∧ P g' w'.store v'.store ∧ ∀ es,
      Batch.gather c g (e :: es) = (Batch.gather c g' es).map fun later => bs ++ later := by
  have hnone : ∀ r : Except EntryError (List Batch), r = r.map fun later => [] ++ later := by
    intro r
    cases r <;> rfl
  rw [applyEntries_singleton hx he] at happly
  split at happly
  · cases congrArg Prod.fst happly
  · rename_i hop
    obtain ⟨-, rfl⟩ := Prod.mk.inj happly
    exact ⟨[], g, w, runs_nil.2 rfl, h, fun es => by rw [Batch.gather_none he hop, ← hnone]⟩
  · rename_i op hop
    have hfresh := NetOp.fresh_of_ofEntry? hop
    cases hadd : g.add e.ns op with
    | some g' =>
      exact ⟨[], g', w, runs_nil.2 rfl, hP.add h hfresh hadd happly,
        fun es => by rw [Batch.gather_added he hop hadd, ← hnone]⟩
    | none =>
      -- The gathering is closed, and a new one begins with the operation.
      obtain ⟨w₁, hrun, hnil⟩ := hP.close h
      exact ⟨g.close, [⟨e.ns, [op]⟩], w₁, hrun, hP.add hnil hfresh rfl happly,
        fun es => Batch.gather_closed he hop hadd⟩

/-- If single entries succeed, the entries can be gathered and run to a store that is related to
theirs. -/
theorem Carried.exists_runs (hP : Carried x c P) (hx : x.dispatch = .sequential)
    (hes : ∀ e ∈ es, e.isCommand = false) (h : P g w.store v.store)
    (heach : x.applyEach c es v = (.ok (), v')) :
    ∃ bs w', Batch.gather c g es = .ok bs ∧ x.Runs c bs w w' ∧ P [] w'.store v'.store := by
  induction es generalizing g w v with
  | nil =>
    obtain ⟨-, rfl⟩ := Prod.mk.inj heach
    obtain ⟨w', hrun, hnil⟩ := hP.close h
    exact ⟨g.close, w', rfl, hrun, hnil⟩
  | cons e es ih =>
    obtain ⟨he, hes⟩ := List.forall_mem_cons.1 hes
    obtain ⟨v₁, hfirst, heach⟩ := applyEach_cons_eq_ok.1 heach
    obtain ⟨bs, g', w₁, hrun, hnext, hgather⟩ := hP.entry hx he h hfirst
    obtain ⟨later, w', hlater, hrest, hlast⟩ := ih hes hnext heach
    exact ⟨bs ++ later, w', by rw [hgather, hlater]; rfl, runs_append.2 ⟨w₁, hrun, hrest⟩, hlast⟩

theorem Gathered.exists_runs (hx : x.dispatch = .sequential)
    (hes : ∀ e ∈ es, e.isCommand = false) {t t' : Workplace}
    (h : Gathered c.strictness g w.store t.store) (heach : x.applyEach c es t = (.ok (), t')) :
    ∃ bs w', Batch.gather c g es = .ok bs ∧ x.Runs c bs w w' ∧
      Gathered c.strictness [] w'.store t'.store :=
  (Gathered.carried hx).exists_runs hx hes h heach

/-! ## Missing targets -/

theorem Runs.unique {bs : List Batch} {w₁ w₂ : Workplace} (h₁ : x.Runs c bs w w₁)
    (h₂ : x.Runs c bs w w₂) : w₁ = w₂ := h₁.2.symm.trans h₂.2

/-- What was gathered does not run if a target that it requires is missing. -/
theorem not_runs_close (hx : x.dispatch = .sequential) (hst : c.strictness = .strict)
    (hg : g.WellFormed) (hs : w.store.WellFormed) {key : DocKey} (hop : g.op? ns key = some op)
    (hr : op.requiresMatch = true) (hmissing : w.store.document? ns key = none) :
    ¬ x.Runs c g.close w w' := by
  have hne : op.effect ≠ .noop := fun hnoop => by
    rw [(hg.of_op? hop).1.noop hnoop] at hr
    cases hr
  have hclosed : Gathering.op? g.closeJobs ns key = some op := by
    rw [Gathering.op?_closeJobs hg, hop, Option.filter_some, if_pos (decide_eq_true hne)]
  rw [runs_close hx, hst]
  exact Job.applyAll_of_missing hg.closeJobs hs hclosed hr hmissing

/-- Nor do the batches that come of it with later entries. -/
theorem not_runs_of_missing (hx : x.dispatch = .sequential) (hst : c.strictness = .strict)
    (hes : ∀ e ∈ es, e.isCommand = false) (hg : g.WellFormed) (hs : w.store.WellFormed)
    {key : DocKey} (hop : g.op? ns key = some op) (hr : op.requiresMatch = true)
    (hmissing : w.store.document? ns key = none) {bs : List Batch}
    (hgather : Batch.gather c g es = .ok bs) : ¬ x.Runs c bs w w' := by
  induction es generalizing g op bs with
  | nil =>
    obtain rfl := Except.ok.inj hgather
    exact not_runs_close hx hst hg hs hop hr hmissing
  | cons e es ih =>
    have he := hes e List.mem_cons_self
    have hes' := fun e' he' => hes e' (List.mem_cons_of_mem _ he')
    cases Batch.gathers_of_gather he hgather with
    | none _ rest => exact ih hes' hg hop hr rest
    | added read add rest =>
      have hg' := hg.add add (NetOp.fresh_of_ofEntry? read).wellFormed
      obtain ⟨merged, hmerged, hall⟩ := Gathering.op?_add add
      have hkept := hall ns key
      -- Merging keeps the requirement of the operation that was there first.
      split_ifs at hkept with hcase
      · obtain ⟨rfl, rfl⟩ := hcase
        rw [hop] at hmerged
        exact ih hes' hg' hkept (NetOp.requiresMatch_fold hmerged (hg.of_op? hop).1 hr) rest
      · exact ih hes' hg' (hkept.trans hop) hr rest
    | closed =>
      -- The gathering is closed here, and what is closed runs before all that follows.
      rw [runs_append]
      rintro ⟨m, hclose, -⟩
      exact not_runs_close hx hst hg hs hop hr hmissing hclose

/-- An operation whose required target single entries have removed is missed by what was gathered,
too. -/
theorem Gathered.missing_add (h : Gathered .strict g s t) (hop : op.Fresh)
    (hr : op.requiresMatch = true) (hmissing : t.document? ns op.key = none)
    (hadd : g.add ns op = some g') : ∃ merged, g'.op? ns op.key = some merged ∧
      merged.requiresMatch = true ∧ s.document? ns op.key = none := by
  obtain ⟨merged, hmerged, hall⟩ := Gathering.op?_add hadd
  have hlead := h.lead ns op.key
  have hfound := hall ns op.key
  rw [if_pos ⟨rfl, rfl⟩] at hfound
  cases hfirst : g.op? ns op.key with
  | none =>
    rw [hfirst] at hlead hmerged
    obtain rfl : merged = op := hmerged
    exact ⟨merged, hfound, hr, Eq.trans (Eq.symm hlead) hmissing⟩
  | some first =>
    rw [hfirst, hmissing] at hlead
    rw [hfirst] at hmerged
    obtain ⟨hrequired, hnone⟩ := NetOp.requiresMatch_of_next hmerged hlead hop hr
    exact ⟨merged, hfound, hrequired, hnone⟩

/-- If a single entry misses a required target, the entries do not run. -/
theorem Gathered.not_runs (hx : x.dispatch = .sequential) (hst : c.strictness = .strict)
    (hes : ∀ e ∈ es, e.isCommand = false) {t t' : Workplace}
    (h : Gathered c.strictness g w.store t.store) {database collection : String}
    {missing : List Mismatch}
    (heach : x.applyEach c es t = (.error (.jobMismatch database collection missing), t'))
    {bs : List Batch} (hgather : Batch.gather c g es = .ok bs) : ¬ x.Runs c bs w w' := by
  induction es generalizing g w t bs with
  | nil => cases congrArg Prod.fst heach
  | cons e es ih =>
    have he := hes e List.mem_cons_self
    have hes' := fun e' he' => hes e' (List.mem_cons_of_mem _ he')
    rw [applyEach_cons, applyEntries_singleton hx he] at heach
    -- An operation that is added runs no more than it does on its own.
    have hadded : ∀ {op : NetOp} {g g' : Gathering} {w : Workplace} {bs : List Batch},
        NetOp.ofEntry? c e = .ok (some op) → Gathered c.strictness g w.store t.store →
        g.add e.ns op = some g' → Batch.gather c g' es = .ok bs → ¬ x.Runs c bs w w' := by
      intro op g g' w bs read h hadd hrest
      have hfresh := NetOp.fresh_of_ofEntry? read
      have hjob : Job.WellFormed ⟨e.ns, [op]⟩ := wellFormed_singleton hfresh.wellFormed
      rw [read] at heach
      dsimp only at heach
      split at heach
      · rename_i t₁ hfirst
        exact ih hes' (h.add hfresh hadd hfirst) heach hrest
      · obtain ⟨-, o, ho, hr, hmissing⟩ := Job.exists_missing h.reached hjob heach
        obtain rfl := List.mem_singleton.1 ho
        rw [hst] at h
        obtain ⟨merged, hfound, hrequired, hnone⟩ := h.missing_add hfresh hr hmissing hadd
        exact not_runs_of_missing hx hst hes' (h.gathering.add hadd hfresh.wellFormed) h.start
          hfound hrequired hnone hrest
    cases Batch.gathers_of_gather he hgather with
    | none read rest =>
      rw [read] at heach
      exact ih hes' h heach rest
    | added read add rest => exact hadded read h add rest
    | closed read full rest =>
      rw [runs_append]
      rintro ⟨m, hclose, hrun⟩
      -- What was gathered before runs, so what remains begins where single entries are.
      obtain ⟨w₁, hclose₁, hnil⟩ := h.close hx
      obtain rfl := hclose₁.unique hclose
      exact hadded read hnil rfl rest hrun

/-! ## Cuts -/

/-- Entries in two parts are applied part by part. -/
theorem applyEach_append (es fs : List Entry) : x.applyEach c (es ++ fs) w =
    match x.applyEach c es w with
    | (.ok (), w) => x.applyEach c fs w
    | outcome => outcome := by
  induction es generalizing w with
  | nil => rfl
  | cons e es ih =>
    rw [List.cons_append, applyEach_cons, applyEach_cons]
    rcases x.applyEntries c [e] w with ⟨err | ⟨⟩, m⟩
    · rfl
    · exact ih

theorem applyEach_append_eq_ok {es fs : List Entry} :
    x.applyEach c (es ++ fs) w = (.ok (), w') ↔
      ∃ m, x.applyEach c es w = (.ok (), m) ∧ x.applyEach c fs m = (.ok (), w') := by
  rw [applyEach_append]
  rcases x.applyEach c es w with ⟨err | ⟨⟩, m⟩ <;> simp

/-- If single entries succeed, they succeed in every cut and show the same then. -/
theorem exists_applyCuts (hx : x.dispatch = .sequential) {cuts : List (List Entry)}
    (hcuts : ∀ e ∈ cuts.flatten, e.isCommand = false) {t t' : Workplace}
    (h : Gathered c.strictness [] w.store t.store)
    (heach : x.applyEach c cuts.flatten t = (.ok (), t')) :
    ∃ w', x.applyCuts c cuts w = (.ok (), w') ∧
      Gathered c.strictness [] w'.store t'.store := by
  induction cuts generalizing w t with
  | nil =>
    obtain ⟨-, rfl⟩ := Prod.mk.inj heach
    exact ⟨w, rfl, h⟩
  | cons es cuts ih =>
    rw [List.flatten_cons] at hcuts heach
    obtain ⟨t₁, hfirst, heach⟩ := applyEach_append_eq_ok.1 heach
    obtain ⟨bs, w₁, hgather, hrun, hnil⟩ := h.exists_runs hx
      (fun e he => hcuts e (List.mem_append_left _ he)) hfirst
    obtain ⟨w', hrest, hlast⟩ := ih (fun e he => hcuts e (List.mem_append_right _ he)) hnil heach
    have happly : x.applyEntries c es w = (.ok (), w₁) :=
      applyEntries_eq_ok.2 ⟨bs, hgather, hrun⟩
    exact ⟨w', applyCuts_cons_eq_ok.2 ⟨w₁, happly, hrest⟩, hlast⟩

/-- If a single entry misses a required target, no cut succeeds. -/
theorem applyCuts_ne_ok (hx : x.dispatch = .sequential) (hst : c.strictness = .strict)
    {cuts : List (List Entry)} (hcuts : ∀ e ∈ cuts.flatten, e.isCommand = false)
    {t t' : Workplace} (h : Gathered c.strictness [] w.store t.store)
    {database collection : String} {missing : List Mismatch}
    (heach : x.applyEach c cuts.flatten t =
      (.error (.jobMismatch database collection missing), t')) :
    x.applyCuts c cuts w ≠ (.ok (), w') := by
  induction cuts generalizing w t with
  | nil => cases congrArg Prod.fst heach
  | cons es cuts ih =>
    intro hok
    rw [List.flatten_cons] at hcuts heach
    have hes : ∀ e ∈ es, e.isCommand = false := fun e he => hcuts e (List.mem_append_left _ he)
    obtain ⟨w₁, happly, hok⟩ := applyCuts_cons_eq_ok.1 hok
    obtain ⟨bs, hgather, hrun⟩ := applyEntries_eq_ok.1 happly
    rw [applyEach_append] at heach
    split at heach
    · rename_i t₁ hfirst
      obtain ⟨bs', w₂, hgather', hrun', hnil⟩ := h.exists_runs hx hes hfirst
      obtain rfl := Except.ok.inj (hgather.symm.trans hgather')
      obtain rfl := hrun.unique hrun'
      exact ih (fun e he => hcuts e (List.mem_append_right _ he)) hnil heach hok
    · exact h.not_runs hx hst hes heach hgather hrun

/-- Cutting is exact: on a reachable store without faults, entries that succeed one at a time
succeed in every cut and leave the same contents everywhere; and where one at a time they stop in a
strict context because a required target is missing, every cut fails, too. -/
theorem applyCuts_exact (x : Executor) (c : Context) (w : Workplace) (cuts : List (List Entry))
    (hx : x.dispatch = .sequential) (hreachable : w.store.Reachable)
    (hhealthy : w.store.Healthy) (hcuts : ∀ e ∈ cuts.flatten, e.isCommand = false) :
    (∀ w₁, x.applyEach c cuts.flatten w = (.ok (), w₁) →
      ∃ w₂, x.applyCuts c cuts w = (.ok (), w₂) ∧
        ∀ ns, w₂.store.contents ns = w₁.store.contents ns) ∧
    (c.strictness = .strict → ∀ database collection missing w₁,
      x.applyEach c cuts.flatten w = (.error (.jobMismatch database collection missing), w₁) →
      ∃ e w₂, x.applyCuts c cuts w = (.error e, w₂)) := by
  -- Both parts follow the run of single entries from the store at which no jobs are gathered yet.
  have hnil : Gathered c.strictness [] w.store w.store :=
    .nil hreachable.wellFormed hhealthy hreachable.wellFormed (.refl _)
  constructor
  · intro w₁ heach
    obtain ⟨w₂, happly, hlast⟩ := exists_applyCuts hx hcuts hnil heach
    refine ⟨w₂, happly, fun ns => Store.contents_congr fun key => ?_⟩
    exact (hlast.lead ns key).symm
  · intro hst database collection missing w₁ heach
    rcases happly : x.applyCuts c cuts w with ⟨e | ⟨⟩, w₂⟩
    · exact ⟨e, w₂, rfl⟩
    · exact absurd happly (applyCuts_ne_ok hx hst hcuts hnil heach)

/-- A cart that is opened, filled and cleared, cut before it is cleared. -/
def cartCuts : List (List Entry) :=
  let ns : Namespace := ⟨"shop", "carts"⟩
  [[⟨⟨1, 1⟩, 11, ns, .insert (.obj [("_id", .int 1)])⟩,
    ⟨⟨1, 2⟩, 12, ns, .update (.int 1) (.obj [("$set", .obj [("total", .int 3)])]) false⟩],
    [⟨⟨1, 3⟩, 13, ns, .delete (.int 1)⟩]]

theorem applyCuts_exact_cart : ∃ w₁ w₂ : Workplace,
    applyEach {} .steady cartCuts.flatten ⟨.empty, {}, {}⟩ = (.ok (), w₁) ∧
    applyCuts {} .steady cartCuts ⟨.empty, {}, {}⟩ = (.ok (), w₂) ∧
    ∀ ns, w₂.store.contents ns = w₁.store.contents ns := by
  have heach : (applyEach {} .steady cartCuts.flatten ⟨.empty, {}, {}⟩).1 = .ok () := by
    decide +kernel
  obtain ⟨w₂, happly, hcontents⟩ := (applyCuts_exact {} .steady ⟨.empty, {}, {}⟩ cartCuts rfl
    .empty ⟨rfl, rfl⟩ (by decide)).1 _ (Prod.ext heach rfl)
  exact ⟨_, w₂, Prod.ext heach rfl, happly, hcontents⟩

end Replica.Executor
