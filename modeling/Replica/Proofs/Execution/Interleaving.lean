import Replica.Proofs.Execution.SubBatches
import Replica.Proofs.Store.Numbers

/-!
# Sub-batches side by side

The sub-batches of a batch run at the same time: each finds its targets, loads what it modifies and
commits, and between any two of these steps others may take theirs. A step of one sub-batch leaves
everything but its own documents as it was (`Job.Spares`), so what another one has read is what it
would read now (`Job.SameView`), and a commit that succeeds has the effect that the sub-batch would
have had on the store at the beginning. Hence, if all sub-batches commit, the jobs executed one
after another succeed, too, and leave the same documents (`sequential_of_committed`).
-/

namespace Replica

/-- How far a sub-batch has come. -/
inductive SubBatchStage where
  /-- It has read nothing yet. -/
  | ready
  /-- It has found its targets. -/
  | found (dids : Table DocKey Did)
  /-- It has loaded what it modifies. -/
  | loaded (dids : Table DocKey Did) (docs : Table Did Json)
  /-- It has come to an end. -/
  | ended (result : Except ReplicationError Unit)

/-- A sub-batch that is run. -/
structure SubBatch where
  /-- What it does. -/
  job : Job
  /-- How far it has come. -/
  stage : SubBatchStage := .ready
  /-- How often it may begin anew if its commit is refused. -/
  retries : Nat := Workplace.retries

namespace SubBatch

/-- The next step of a sub-batch on the store that it finds. -/
def step (st : Strictness) (b : SubBatch) (s : Store) : SubBatch × Store :=
  match b.stage with
  | .ready =>
    let dids := b.job.targets s
    let missing := b.job.mismatches dids
    if st = .strict ∧ ¬ missing.isEmpty then
      let failure := .jobMismatch b.job.ns.database b.job.ns.collection missing
      ({ b with stage := .ended (.error failure) }, s)
    else ({ b with stage := .found dids }, s)
  | .found dids => ({ b with stage := .loaded dids (b.job.loaded dids s) }, s)
  | .loaded dids docs =>
    match b.job.writes dids docs with
    | .error e => ({ b with stage := .ended (.error e) }, s)
    | .ok t =>
      match s.commit t, b.retries with
      | (.error (.rollback _), s), n + 1 => ({ b with stage := .ready, retries := n }, s)
      | (result, s), _ => ({ b with stage := .ended result }, s)
  | .ended _ => (b, s)

/-- Whether a sub-batch has committed. -/
def committed (b : SubBatch) : Bool :=
  match b.stage with
  | .ended (.ok ()) => true
  | _ => false

end SubBatch

/-- A store with the sub-batches that run on it. -/
structure Race where
  /-- The store. -/
  store : Store
  /-- The sub-batches. -/
  parts : List SubBatch

namespace Race

/-- The sub-batches of some jobs at the beginning. -/
def start (parts : List Job) (s : Store) : Race := ⟨s, parts.map fun job => { job }⟩

/-- The sub-batch with an index takes its next step. -/
def advance (st : Strictness) (r : Race) (i : Nat) : Race :=
  match r.parts[i]? with
  | none => r
  | some b =>
    let (b, s) := b.step st r.store
    ⟨s, r.parts.set i b⟩

/-- The sub-batches take steps in the order of a schedule. -/
def run (st : Strictness) (schedule : List Nat) (r : Race) : Race :=
  schedule.foldl (advance st) r

/-- Whether all sub-batches have committed. -/
def committed (r : Race) : Bool := r.parts.all SubBatch.committed

end Race

/-! ## What a step of a sub-batch leaves -/

namespace Job

variable {st : Strictness} {job part : Job} {s s' s'' : Store} {t : Transaction}

/-- All documents but those of a job are as before, under the numbers that they had. -/
structure Spares (job : Job) (s s' : Store) : Prop where
  /-- The store is well-formed. -/
  wellFormed : s'.WellFormed
  /-- All indexes are as before. -/
  indexes : ∀ ns, (s'.collection ns).indexes = (s.collection ns).indexes
  /-- All other keys have the numbers that they had. -/
  ids : ∀ ns key, (job.ns = ns → ∀ op ∈ job.ops, op.key ≠ key) →
    (s'.collection ns).ids.get? key = (s.collection ns).ids.get? key
  /-- All other documents are as before. -/
  documents : ∀ ns key, (job.ns = ns → ∀ op ∈ job.ops, op.key ≠ key) →
    s'.document? ns key = s.document? ns key

/-- A job finds the same documents under the same numbers. -/
def SameView (job : Job) (s s' : Store) : Prop :=
  ∀ op ∈ job.ops,
    (s'.collection job.ns).ids.get? op.key = (s.collection job.ns).ids.get? op.key ∧
    s'.document? job.ns op.key = s.document? job.ns op.key

theorem Spares.of_sameData (hs : s.WellFormed) (h : s.SameData s') : job.Spares s s' where
  wellFormed := h.wellFormed hs
  indexes ns := by rw [h.collection]
  ids ns key _ := by rw [h.collection]
  documents ns key _ := h.document? ns key

/-- A job that is committed leaves all documents but its own, under their numbers. -/
theorem Spares.of_commit (hs : s.WellFormed) (hj : job.WellFormed) (hplan : job.plan st s = .ok t)
    (hcommit : s.commit t = (.ok (), s')) : job.Spares s s' := by
  have hdone := done_of_commit hs hj hplan hcommit
  obtain ⟨hins, -⟩ := insertAll_of_commit hs hj hplan hcommit
  refine ⟨hdone.wellFormed, hdone.indexes, fun ns key hkey => ?_, fun ns key hkey => ?_⟩
  · by_cases hns : job.ns = ns
    · subst hns
      rw [Collection.ids_insertAll hins, left, (hs job.ns).ids_foldl_delete, if_neg]
      · rintro ⟨did, hdid, hid⟩
        obtain ⟨op, hop, -, hop'⟩ := mem_removed.1 hdid
        exact hkey rfl op hop ((hs job.ns).ids_inj hop' hid)
      · intro doc hdoc heq
        obtain ⟨op, hop, hinserts⟩ := mem_arriving.1 hdoc
        rw [ofDocument_inserts hs hj hop hinserts, Except.ok.injEq] at heq
        exact hkey rfl op hop heq
    · rw [hdone.elsewhere ns (Ne.symm hns)]
  · exact hdone.kept hkey

/-- A job on other documents finds what it found before. -/
theorem Spares.sameView (h : job.Spares s s') (hapart : part.Apart job) : part.SameView s s' := by
  intro op hop
  have hkey : job.ns = part.ns → ∀ op' ∈ job.ops, op'.key ≠ op.key :=
    fun hns op' hop' heq => hapart hns.symm op hop op' hop' heq.symm
  exact ⟨h.ids part.ns op.key hkey, h.documents part.ns op.key hkey⟩

namespace SameView

/-- The targets that are found are the same. -/
theorem targets (h : job.SameView s s') : job.targets s' = job.targets s := by
  unfold Job.targets
  dsimp only
  split_ifs
  · rfl
  · refine Table.ext_get? fun key => ?_
    rw [Store.get?_findDids, Store.get?_findDids]
    split_ifs with hkey
    · obtain ⟨op, hop, rfl⟩ := List.mem_map.1 hkey
      exact (h op (List.mem_filter.1 hop).1).1
    · rfl

/-- The contents that are loaded are the same. -/
theorem loaded (h : job.SameView s s') :
    job.loaded (job.targets s) s' = job.loaded (job.targets s) s := by
  unfold Job.loaded
  dsimp only
  split_ifs
  · rfl
  · refine Table.ext_get? fun did => ?_
    rw [Store.get?_fetch, Store.get?_fetch]
    split_ifs with hdid
    · obtain ⟨op, hop, hfound⟩ := List.mem_filterMap.1 hdid
      obtain ⟨hop, hcontent⟩ := List.mem_filter.1 hop
      have hneeds : op.effect.needsTarget = true := by
        cases heff : op.effect <;> rw [heff] at hcontent <;> first | rfl | cases hcontent
      -- The number is still that of the key, and the document at the key is the same.
      have hid : (s.collection job.ns).ids.get? op.key = some did := by
        rw [← get?_targets hop hneeds, hfound]
      obtain ⟨hids, hdoc⟩ := h op hop
      have hid' := hids.trans hid
      rw [Store.document?, Store.document?, Collection.document?, Collection.document?, hid,
        hid'] at hdoc
      exact hdoc
    · rfl

end SameView

end Job

/-! ## One sub-batch -/

namespace SubBatch

variable {st : Strictness} {b : SubBatch} {s₀ s s' : Store}

/-- The documents of a sub-batch are those of the beginning. -/
def Untouched (b : SubBatch) (s₀ s : Store) : Prop :=
  ∀ op ∈ b.job.ops, s.document? b.job.ns op.key = s₀.document? b.job.ns op.key

/-- What a sub-batch has found is what it would find now. -/
def Current (st : Strictness) (b : SubBatch) (s : Store) (dids : Table DocKey Did) : Prop :=
  dids = b.job.targets s ∧ (st = .strict → b.job.mismatches dids = [])

/-- Until a sub-batch commits, its documents are those of the beginning and what it has read is what
it would read now; when it has committed, its operations had their effect on the documents of the
beginning. -/
def Sound (st : Strictness) (s₀ s : Store) (b : SubBatch) : Prop :=
  match b.stage with
  | .ready => b.Untouched s₀ s
  | .found dids => b.Untouched s₀ s ∧ b.Current st s dids
  | .loaded dids docs =>
    b.Untouched s₀ s ∧ b.Current st s dids ∧ docs = b.job.loaded dids s
  | .ended (.ok ()) => ∀ op ∈ b.job.ops,
    op.Takes st (s₀.document? b.job.ns op.key) (s.document? b.job.ns op.key)
  | .ended (.error _) => True

/-- A sub-batch that finds the same documents as before is as it was. -/
theorem Sound.of_sameView (h : b.Sound st s₀ s) (hview : b.job.SameView s s') :
    b.Sound st s₀ s' := by
  have huntouched : b.Untouched s₀ s → b.Untouched s₀ s' :=
    fun h op hop => (hview op hop).2.trans (h op hop)
  unfold Sound at h ⊢
  cases hstage : b.stage with
  | ready =>
    rw [hstage] at h
    exact huntouched h
  | found dids =>
    rw [hstage] at h
    obtain ⟨hbefore, rfl, hpresent⟩ := h
    exact ⟨huntouched hbefore, hview.targets.symm, hpresent⟩
  | loaded dids docs =>
    rw [hstage] at h
    obtain ⟨hbefore, ⟨rfl, hpresent⟩, rfl⟩ := h
    exact ⟨huntouched hbefore, ⟨hview.targets.symm, hpresent⟩, hview.loaded.symm⟩
  | ended result =>
    rw [hstage] at h
    cases result with
    | error e => trivial
    | ok u =>
      intro op hop
      rw [(hview op hop).2]
      exact h op hop

/-- What was read is what can be read now, so the writes are those of a plan on this store. -/
theorem plan_of_current {job : Job} {t : Transaction}
    (hpresent : st = .strict → job.mismatches (job.targets s) = [])
    (hwrites : job.writes (job.targets s) (job.loaded (job.targets s) s) = .ok t) :
    job.plan st s = .ok t := by
  unfold Job.plan
  dsimp only
  rw [if_neg, hwrites]
  rintro ⟨hst, hne⟩
  rw [hpresent hst] at hne
  exact hne rfl

/-- A step of a sub-batch leaves all documents but its own, and the sub-batch stays sound. -/
theorem Sound.step (h : b.Sound st s₀ s) (hs : s.WellFormed) (hj : b.job.WellFormed) :
    (b.step st s).1.job = b.job ∧ b.job.Spares s (b.step st s).2 ∧
      (b.step st s).1.Sound st s₀ (b.step st s).2 := by
  have hkept : b.job.Spares s s := .of_sameData hs (.refl s)
  unfold SubBatch.step
  unfold Sound at h
  cases hstage : b.stage with
  | ready =>
    rw [hstage] at h
    dsimp only
    split_ifs with hmissing
    · exact ⟨rfl, hkept, trivial⟩
    · refine ⟨rfl, hkept, h, rfl, fun hst => ?_⟩
      by_contra hne
      exact hmissing ⟨hst, by rwa [List.isEmpty_iff]⟩
  | found dids =>
    rw [hstage] at h
    exact ⟨rfl, hkept, h.1, h.2, rfl⟩
  | loaded dids docs =>
    rw [hstage] at h
    obtain ⟨hbefore, ⟨rfl, hpresent⟩, rfl⟩ := h
    dsimp only
    cases hwrites : b.job.writes (b.job.targets s) (b.job.loaded (b.job.targets s) s) with
    | error e => exact ⟨rfl, hkept, trivial⟩
    | ok t =>
      have hplan := plan_of_current hpresent hwrites
      dsimp only
      rcases hcommit : s.commit t with ⟨e | ⟨⟩, s'⟩
      -- A refused commit that is tried again starts over, and nothing was written so far.
      · obtain ⟨hsame, -⟩ := Store.commit_eq_error hcommit
        split
        · rename_i s₁ n hpair _
          obtain ⟨-, rfl⟩ := Prod.mk.inj hpair
          exact ⟨rfl, .of_sameData hs hsame,
            fun op hop => (hsame.document? _ _).trans (hbefore op hop)⟩
        · rename_i result s₁ hpair _
          obtain ⟨rfl, rfl⟩ := Prod.mk.inj hpair
          exact ⟨rfl, .of_sameData hs hsame, trivial⟩
      · refine ⟨rfl, .of_commit hs hj hplan hcommit, fun op hop => ?_⟩
        rw [← hbefore op hop]
        exact (Job.done_of_commit hs hj hplan hcommit).takes op hop
  | ended result =>
    rw [hstage] at h
    refine ⟨rfl, hkept, ?_⟩
    unfold Sound
    rw [hstage]
    exact h

end SubBatch

/-! ## All sub-batches -/

namespace Race

variable {st : Strictness} {r : Race} {parts jobs : List Job} {s₀ : Store}

/-- Every sub-batch is sound, and what belongs to none of them is as at the beginning. -/
structure Sound (st : Strictness) (s₀ : Store) (parts : List Job) (r : Race) : Prop where
  /-- The store is well-formed. -/
  wellFormed : r.store.WellFormed
  /-- All indexes are those of the beginning. -/
  indexes : ∀ ns, (r.store.collection ns).indexes = (s₀.collection ns).indexes
  /-- The sub-batches are those of the beginning. -/
  jobs : r.parts.map SubBatch.job = parts
  /-- Every sub-batch is sound. -/
  sound : ∀ b ∈ r.parts, b.Sound st s₀ r.store
  /-- What belongs to no sub-batch is as at the beginning. -/
  others : ∀ ns key, (∀ part ∈ parts, part.ns = ns → ∀ op ∈ part.ops, op.key ≠ key) →
    r.store.document? ns key = s₀.document? ns key

theorem Sound.start (st : Strictness) (hs : s₀.WellFormed) (parts : List Job) :
    (start parts s₀).Sound st s₀ parts where
  wellFormed := hs
  indexes _ := rfl
  jobs := by
    rw [Race.start, List.map_map]
    exact List.map_id parts
  sound b hb := by
    obtain ⟨job, -, rfl⟩ := List.mem_map.1 hb
    exact fun _ _ => rfl
  others _ _ _ := rfl

/-- Two sub-batches at different places are on different documents. -/
theorem apart_of_ne (hapart : parts.Pairwise Job.Apart) {i j : Nat} {a b : Job} (hij : i ≠ j)
    (ha : parts[i]? = some a) (hb : parts[j]? = some b) : a.Apart b := by
  obtain ⟨hi, rfl⟩ := List.getElem?_eq_some_iff.1 ha
  obtain ⟨hj, rfl⟩ := List.getElem?_eq_some_iff.1 hb
  have hall := List.pairwise_iff_getElem.1 hapart
  rcases Nat.lt_or_gt_of_ne hij with hlt | hgt
  · exact hall i j hi hj hlt
  · exact (hall j i hj hi hgt).symm

/-- A step of one sub-batch leaves all sub-batches sound. -/
theorem Sound.advance (h : r.Sound st s₀ parts) (hparts : ∀ part ∈ parts, part.WellFormed)
    (hapart : parts.Pairwise Job.Apart) (i : Nat) : (r.advance st i).Sound st s₀ parts := by
  rw [Race.advance]
  cases hb : r.parts[i]? with
  | none => exact h
  | some b =>
    have hplace : ∀ {j : Nat} {b : SubBatch}, r.parts[j]? = some b → parts[j]? = some b.job := by
      intro j b hj
      rw [← h.jobs, List.getElem?_map, hj, Option.map_some]
    have hmem : b.job ∈ parts := List.mem_of_getElem? (hplace hb)
    obtain ⟨hjob, hspares, hsound⟩ :=
      (h.sound b (List.mem_of_getElem? hb)).step h.wellFormed (hparts _ hmem)
    refine ⟨hspares.wellFormed, fun ns => (hspares.indexes ns).trans (h.indexes ns), ?_, ?_, ?_⟩
    · show (r.parts.set i (b.step st r.store).1).map SubBatch.job = parts
      rw [List.map_set, hjob, h.jobs]
      obtain ⟨hi, hjob⟩ := List.getElem?_eq_some_iff.1 (hplace hb)
      rw [← hjob, List.set_getElem_self hi]
    · intro b' hb'
      obtain ⟨j, hj⟩ := List.mem_iff_getElem?.1 hb'
      rw [List.getElem?_set] at hj
      split_ifs at hj with hij
      · obtain rfl := Option.some_inj.1 hj
        exact hsound
      -- Another sub-batch is on other documents, and those are spared.
      · exact (h.sound b' (List.mem_of_getElem? hj)).of_sameView
          (hspares.sameView (apart_of_ne hapart (Ne.symm hij) (hplace hj) (hplace hb)))
    · intro ns key hkey
      exact (hspares.documents ns key (hkey b.job hmem)).trans (h.others ns key hkey)

/-- Whatever steps the sub-batches take, they stay sound. -/
theorem Sound.run (h : r.Sound st s₀ parts) (hparts : ∀ part ∈ parts, part.WellFormed)
    (hapart : parts.Pairwise Job.Apart) (schedule : List Nat) :
    (r.run st schedule).Sound st s₀ parts := by
  induction schedule generalizing r with
  | nil => exact h
  | cons i schedule ih => exact ih (h.advance hparts hapart i)

/-- A sub-batch that has committed had its effect on the documents of the beginning. -/
theorem Sound.takes (h : r.Sound st s₀ parts) (hall : r.committed = true) {part : Job}
    (hpart : part ∈ parts) {op : NetOp} (hop : op ∈ part.ops) :
    op.Takes st (s₀.document? part.ns op.key) (r.store.document? part.ns op.key) := by
  rw [← h.jobs] at hpart
  obtain ⟨b, hb, rfl⟩ := List.mem_map.1 hpart
  have hcommitted := List.all_eq_true.1 hall b hb
  have hsound := h.sound b hb
  unfold SubBatch.committed at hcommitted
  unfold SubBatch.Sound at hsound
  split at hcommitted
  · rename_i hstage
    rw [hstage] at hsound
    exact hsound op hop
  · cases hcommitted

/-- If all sub-batches of some jobs have committed, the operations of the jobs lead from the store
of the beginning to that of the end. -/
theorem Sound.lead {size : Nat} (hjobs : Gathering.WellFormed jobs)
    (h : r.Sound st s₀ (jobs.flatMap fun job => job.split size)) (hall : r.committed = true) :
    Job.Lead st jobs s₀ r.store := by
  intro ns key
  cases hop : Gathering.op? jobs ns key with
  | none =>
    refine h.others ns key fun part hpart hns op hmem hkey => ?_
    obtain ⟨job, hjob, rfl, hmem⟩ := Job.exists_mem_subBatches.1 ⟨part, hpart, hns, hmem⟩
    rw [← hkey, Gathering.op?_of_mem hjobs hjob hmem] at hop
    cases hop
  | some op =>
    obtain ⟨job, hjob, rfl, hmem, rfl⟩ := Gathering.exists_of_op? hop
    obtain ⟨part, hpart, hns, hmem⟩ := Job.exists_mem_subBatches.2 ⟨job, hjob, rfl, hmem⟩
    rw [← hns]
    exact h.takes hall hpart hmem

/-- Sub-batches whose reads and commits are interleaved in whatever order leave what the jobs leave
when they are executed one after another: if all sub-batches of an analyzed batch commit, the jobs
succeed in order on the store of the beginning, and every collection has the same contents then. -/
theorem sequential_of_committed {x : Executor} {c c' : Context} {entries : List Entry}
    {batches : List Batch} {w : Workplace} {size : Nat} {schedule : List Nat}
    (hbatches : Batch.ofEntries c entries = .ok batches) (hjobs : .jobs jobs ∈ batches)
    (hs : w.store.Reachable) (hhealthy : w.store.Healthy) (hx : x.dispatch = .sequential)
    (hall : ((start (jobs.flatMap fun job => job.split size) w.store).run c'.strictness
      schedule).committed = true) :
    ∃ w', x.apply c' (.jobs jobs) w = (.ok (), w') ∧ ∀ ns, w'.store.contents ns =
      ((start (jobs.flatMap fun job => job.split size) w.store).run c'.strictness
        schedule).store.contents ns := by
  have hwf := Batch.wellFormed_of_ofEntries hbatches hjobs
  obtain ⟨hparts, hapart⟩ := Job.pairwise_subBatches hwf size
  have hsound := (Sound.start c'.strictness hs.wellFormed _).run hparts hapart schedule
  obtain ⟨w', happly, -, -, halike⟩ := Job.exists_applyAll hwf hs.wellFormed hhealthy
    hsound.wellFormed (fun ns => (hsound.indexes ns).symm) (hsound.lead hwf hall)
  refine ⟨w', ?_, halike.contents⟩
  rw [Executor.apply, Executor.runJobs, hx]
  exact happly

/-- Two members of a club take the seats `c` and `a`; the second one sat at `b` and the first one at
`a`, and no two members sit at one seat. -/
def seating : List Entry :=
  let ns : Namespace := ⟨"club", "members"⟩
  [⟨⟨1, 1⟩, 11, ns, .update (.int 1) (.obj [("$set", .obj [("seat", .str "c")])]) false⟩,
    ⟨⟨1, 2⟩, 12, ns, .update (.int 2) (.obj [("$set", .obj [("seat", .str "a")])]) false⟩]

/-- The job of the two. -/
def seatingJobs : List Job :=
  [⟨⟨"club", "members"⟩, [⟨.int 1, .update [.set "seat" (.str "c")] false, true⟩,
    ⟨.int 2, .update [.set "seat" (.str "a")] false, true⟩]⟩]

/-- The store before. -/
def seatingStore : Store :=
  let ns : Namespace := ⟨"club", "members"⟩
  ((Store.empty.commit [.insert ns [.obj [("_id", .int 1), ("seat", .str "a")],
    .obj [("_id", .int 2), ("seat", .str "b")]]]).2.commit
    [.createIndex ns ⟨"seat_1", ["seat"], true⟩]).2

theorem reachable_seatingStore : seatingStore.Reachable := by
  have hseat : "_id" < "seat" := by decide +kernel
  refine (Store.Reachable.empty.commit _ fun w hw => ?_).commit _ fun w hw => ?_
  · obtain rfl := List.mem_singleton.1 hw
    intro doc hdoc
    fin_cases hdoc <;> exact ⟨by simpa [Assoc.Ascending] using hseat, trivial, trivial, trivial⟩
  · obtain rfl := List.mem_singleton.1 hw
    trivial

/-- Both sub-batches find and load before one of them commits. -/
theorem sequential_of_committed_seating :
    let r := (start (seatingJobs.flatMap fun job => job.split 1) seatingStore).run .strict
      [1, 0, 1, 0, 0, 1]
    Batch.ofEntries .steady seating = .ok [.jobs seatingJobs] ∧ seatingStore.Reachable ∧
    seatingStore.Healthy ∧ r.committed = true ∧
    ∃ w', ({} : Executor).apply .steady (.jobs seatingJobs) ⟨seatingStore, {}, {}⟩ = (.ok (), w') ∧
      ∀ ns, w'.store.contents ns = r.store.contents ns := by
  intro r
  have hbatches : Batch.ofEntries .steady seating = .ok [.jobs seatingJobs] := by decide +kernel
  have hreachable := reachable_seatingStore
  have hhealthy : seatingStore.Healthy := ⟨by decide +kernel, rfl⟩
  have hall : r.committed = true := by decide +kernel
  exact ⟨hbatches, hreachable, hhealthy, hall,
    sequential_of_committed (w := ⟨seatingStore, {}, {}⟩) hbatches (List.mem_singleton.2 rfl)
      hreachable hhealthy rfl hall⟩

end Race

end Replica
