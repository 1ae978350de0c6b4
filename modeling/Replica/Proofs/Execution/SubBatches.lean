import Replica.Proofs.Execution.Cutting

/-!
# Sub-batches

The jobs of an analyzed batch are on different collections and have one operation for each document
(`wellFormed_of_ofEntries`). So the sub-batches that they are split into have the operations of the
jobs between them (`exists_mem_subBatches`), and no two of them are on one document
(`pairwise_subBatches`).
-/

namespace Replica

/-! ## The jobs of a batch -/

/-- What a batch is made of: its jobs are well-formed and on collections that entries change, and
its command is an entry. -/
def Batch.MadeOf (c : Context) (es : List Entry) : Batch → Prop
  | .jobs js => Gathering.WellFormed js ∧ ∀ ns ∈ js.map Job.ns,
      ∃ e ∈ es, ∃ op, NetOp.ofEntry? c e = .ok (some op) ∧ e.ns = ns
  | .command e => e ∈ es ∧ e.isCommand = true
  | .noop => True

theorem Batch.madeOf_gather {c : Context} {es : List Entry} {batches : List Batch}
    (h : gather c [] es = .ok batches) : ∀ b ∈ batches, b.MadeOf c es := by
  let Changed (ns : Namespace) : Prop :=
    ∃ e ∈ es, ∃ op, NetOp.ofEntry? c e = .ok (some op) ∧ e.ns = ns
  refine forall_mem_gather (Q := fun g => g.WellFormed ∧ ∀ ns ∈ g.map Job.ns, Changed ns)
    ⟨Gathering.wellFormed_nil, fun _ h => nomatch h⟩ ?_ ?_ (fun e he hcommand => ⟨he, hcommand⟩)
    ⟨Gathering.wellFormed_nil, fun _ h => nomatch h⟩ h
  · rintro g g' e op he hop ⟨hg, hns⟩ hadd
    refine ⟨hg.add hadd (NetOp.fresh_of_ofEntry? hop).wellFormed, ?_⟩
    rcases Gathering.ns_add hadd with ⟨hsame, -⟩ | ⟨hmore, -⟩
    · exact hsame ▸ hns
    · rw [hmore]
      exact List.forall_mem_append.2
        ⟨hns, List.forall_mem_singleton.2 ⟨e, he, op, hop, rfl⟩⟩
  · rintro g ⟨hg, hns⟩ b hb
    rw [Gathering.close_eq] at hb
    split_ifs at hb
    · cases hb
    · rw [List.mem_singleton.1 hb]
      refine ⟨hg.closeJobs, List.forall_mem_map.2 fun job hjob => ?_⟩
      -- Closing leaves out operations and jobs, and keeps the collections of the others.
      obtain ⟨-, before, hbefore, rfl⟩ := Gathering.exists_of_mem_closeJobs hjob
      exact hns before.ns (List.mem_map_of_mem hbefore)

theorem Batch.madeOf_ofEntries {c : Context} {es : List Entry} {batches : List Batch}
    (h : ofEntries c es = .ok batches) : ∀ b ∈ batches, b.MadeOf c es :=
  forall_mem_ofEntries trivial (fun _ => madeOf_gather) h

/-- The jobs of an analyzed batch are well-formed. -/
theorem Batch.wellFormed_of_ofEntries {c : Context} {es : List Entry} {batches : List Batch}
    {jobs : List Job} (h : ofEntries c es = .ok batches) (hjobs : .jobs jobs ∈ batches) :
    Gathering.WellFormed jobs := (madeOf_ofEntries h _ hjobs).1

/-- The operation on a document is the one of the job on its collection. -/
theorem Gathering.op?_of_mem {g : Gathering} (hg : g.WellFormed) {job : Job} (hjob : job ∈ g)
    {op : NetOp} (hop : op ∈ job.ops) : g.op? job.ns op.key = some op := by
  induction g with
  | nil => cases hjob
  | cons first rest ih =>
    rw [op?_cons]
    rcases List.mem_cons.1 hjob with rfl | hjob
    · rw [if_pos rfl]
      exact NetOp.on?_of_mem (hg.jobs job List.mem_cons_self).nodup hop
    · have hne : first.ns ≠ job.ns := fun heq =>
        (List.nodup_cons.1 hg.nodup).1 (heq ▸ List.mem_map_of_mem hjob)
      rw [if_neg hne]
      exact ih hg.tail hjob

theorem Gathering.exists_of_op? {g : Gathering} {ns : Namespace} {key : DocKey} {op : NetOp}
    (h : g.op? ns key = some op) : ∃ job ∈ g, job.ns = ns ∧ op ∈ job.ops ∧ op.key = key := by
  obtain ⟨job, hfind, hfound⟩ := Option.bind_eq_some_iff.1 h
  obtain ⟨hmem, hkey⟩ := NetOp.on?_eq_some hfound
  have hns := List.find?_some hfind
  exact ⟨job, List.mem_of_find?_eq_some hfind, of_decide_eq_true hns, hmem, hkey⟩

/-! ## Splitting -/

namespace Job

variable {job part : Job} {jobs : List Job} {size : Nat} {op : NetOp}

/-- Two jobs are on different collections or on different documents. -/
def Apart (a b : Job) : Prop := a.ns = b.ns → ∀ op ∈ a.ops, ∀ op' ∈ b.ops, op.key ≠ op'.key

theorem Apart.symm {a b : Job} (h : a.Apart b) : b.Apart a :=
  fun hns op hop op' hop' heq => h hns.symm op' hop' op hop heq.symm

/-- Pieces that are not empty are all of a list. -/
theorem flatten_pieces {α : Type} (hsize : 0 < size) (fuel : Nat) (l : List α)
    (hfuel : l.length ≤ fuel) : (pieces size fuel l).flatten = l := by
  induction fuel generalizing l with
  | zero =>
    obtain rfl := List.length_eq_zero_iff.1 (Nat.le_zero.1 hfuel)
    rfl
  | succ fuel ih =>
    cases l with
    | nil => rfl
    | cons a l =>
      have hshorter : ((a :: l).drop size).length ≤ fuel := by
        rw [List.length_drop, List.length_cons] at *
        omega
      rw [pieces, List.flatten_cons, ih _ hshorter, List.take_append_drop]
      exact fun h => nomatch h

/-- The parts of a job are on its collection. -/
theorem ns_of_mem_split (h : part ∈ job.split size) : part.ns = job.ns := by
  unfold split at h
  dsimp only at h
  split_ifs at h
  · rw [List.mem_singleton.1 h]
  · obtain ⟨ops, -, rfl⟩ := List.mem_map.1 h
    rfl

/-- The parts of a job have its operations between them, in order. -/
theorem flatten_split (job : Job) (size : Nat) :
    ((job.split size).map Job.ops).flatten = job.ops := by
  unfold split
  dsimp only
  split_ifs
  · exact List.append_nil _
  · rw [List.map_map]
    show (List.map id _).flatten = _
    rw [List.map_id]
    exact flatten_pieces (lt_max_of_lt_right Nat.one_pos) _ _ le_rfl

/-- Splitting jobs neither loses an operation nor adds one. -/
theorem exists_mem_subBatches {ns : Namespace} :
    (∃ part ∈ jobs.flatMap fun job => job.split size, part.ns = ns ∧ op ∈ part.ops) ↔
      ∃ job ∈ jobs, job.ns = ns ∧ op ∈ job.ops := by
  have hmem : ∀ job : Job, op ∈ job.ops ↔ ∃ part ∈ job.split size, op ∈ part.ops := by
    intro job
    conv_lhs => rw [← flatten_split job size]
    simp only [List.mem_flatten, List.mem_map, exists_exists_and_eq_and]
  constructor
  · rintro ⟨part, hpart, rfl, hop⟩
    obtain ⟨job, hjob, hpart⟩ := List.mem_flatMap.1 hpart
    exact ⟨job, hjob, (ns_of_mem_split hpart).symm, (hmem job).2 ⟨part, hpart, hop⟩⟩
  · rintro ⟨job, hjob, rfl, hop⟩
    obtain ⟨part, hpart, hop⟩ := (hmem job).1 hop
    exact ⟨part, List.mem_flatMap.2 ⟨job, hjob, hpart⟩, ns_of_mem_split hpart, hop⟩

theorem mem_of_mem_split (hpart : part ∈ job.split size) (hop : op ∈ part.ops) : op ∈ job.ops := by
  rw [← flatten_split job size]
  exact List.mem_flatten.2 ⟨part.ops, List.mem_map_of_mem hpart, hop⟩

/-- If no two operations of a job are on one document, none of a part are, and no two parts are. -/
theorem nodup_split (hnodup : (job.ops.map NetOp.key).Nodup) (size : Nat) :
    (∀ part ∈ job.split size, (part.ops.map NetOp.key).Nodup) ∧
      (job.split size).Pairwise Apart := by
  have hkeys : (((job.split size).map Job.ops).flatten).Pairwise fun a b => a.key ≠ b.key := by
    rw [flatten_split]
    exact List.pairwise_map.1 hnodup
  obtain ⟨hwithin, hbetween⟩ := List.pairwise_flatten.1 hkeys
  refine ⟨fun part hpart => ?_, ?_⟩
  · exact List.pairwise_map.2 (hwithin part.ops (List.mem_map_of_mem hpart))
  · refine (List.pairwise_map.1 hbetween).imp ?_
    intro a b h _
    exact h

/-- If the jobs are on different collections, and no two operations of one are on one document, no
two sub-batches are on one document. -/
theorem apart_subBatches (hns : (jobs.map Job.ns).Nodup)
    (hnodup : ∀ job ∈ jobs, (job.ops.map NetOp.key).Nodup) (size : Nat) :
    (jobs.flatMap fun job => job.split size).Pairwise Apart := by
  refine List.pairwise_flatMap.2 ⟨fun job hjob => (nodup_split (hnodup job hjob) size).2, ?_⟩
  refine (List.pairwise_map.1 hns).imp fun {a b} hne p hp q hq heq => ?_
  rw [ns_of_mem_split hp, ns_of_mem_split hq] at heq
  exact absurd heq hne

/-- The parts of a well-formed job are well-formed. -/
theorem WellFormed.split (hj : job.WellFormed) (hpart : part ∈ job.split size) : part.WellFormed :=
  ⟨(nodup_split hj.nodup size).1 part hpart,
    fun op hop => hj.ops op (mem_of_mem_split hpart hop)⟩

/-- The sub-batches of well-formed jobs are well-formed, and no two of them are on one document. -/
theorem pairwise_subBatches (hjobs : Gathering.WellFormed jobs) (size : Nat) :
    (∀ part ∈ jobs.flatMap fun job => job.split size, part.WellFormed) ∧
      (jobs.flatMap fun job => job.split size).Pairwise Apart := by
  refine ⟨fun part hpart => ?_,
    apart_subBatches hjobs.nodup (fun job hjob => (hjobs.jobs job hjob).nodup) size⟩
  obtain ⟨job, hjob, hpart⟩ := List.mem_flatMap.1 hpart
  exact (hjobs.jobs job hjob).split hpart

end Job

end Replica
