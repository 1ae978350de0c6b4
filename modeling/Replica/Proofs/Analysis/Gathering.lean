import Replica.Analysis.Batch
import Replica.Proofs.Analysis.Fold

/-!
# Gathering operations

What was gathered is known from the operation on each document (`Gathering.op?`). Adding an
operation folds it into the one on its document (`op?_add`) and keeps one operation for each
document (`WellFormed.add`). Closing leaves out what does nothing.
-/

namespace Replica

variable {st : Strictness} {op first : NetOp} {ops ops' : List NetOp} {key : DocKey}
  {ns : Namespace} {x y z : Option Json}

/-- There is one operation for each document, and each of them is well-formed. -/
structure Job.WellFormed (job : Job) : Prop where
  /-- No two operations are on one document. -/
  nodup : (job.ops.map NetOp.key).Nodup
  /-- The operations are well-formed. -/
  ops : ∀ op ∈ job.ops, op.WellFormed

/-- Operations of a job on one document are one. -/
theorem Job.WellFormed.op_unique {job : Job} (h : job.WellFormed) {op' : NetOp}
    (hop : op ∈ job.ops) (hop' : op' ∈ job.ops) (hkey : op.key = op'.key) : op = op' :=
  List.inj_on_of_nodup_map h.nodup hop hop' hkey

/-- The operation on a document among some operations. -/
def NetOp.on? (ops : List NetOp) (key : DocKey) : Option NetOp := ops.find? fun op => op.key = key

/-- What an operation leads to, nothing being changed where there is none. -/
def NetOp.Leads (st : Strictness) : Option NetOp → Option Json → Option Json → Prop
  | none, x, y => y = x
  | some op, x, y => op.Takes st x y

namespace NetOp

theorem on?_cons (op : NetOp) (ops : List NetOp) (key : DocKey) :
    on? (op :: ops) key = if op.key = key then some op else on? ops key := by
  unfold on?
  rw [List.find?_cons]
  split_ifs with h <;> simp [h]

theorem on?_eq_some (h : on? ops key = some op) : op ∈ ops ∧ op.key = key :=
  ⟨List.mem_of_find?_eq_some h, by simpa using List.find?_some h⟩

/-- Where there is one operation for each document, each is found. -/
theorem on?_of_mem (hnodup : (ops.map NetOp.key).Nodup) (hop : op ∈ ops) :
    on? ops op.key = some op := by
  cases hfound : on? ops op.key with
  | none =>
    have := List.find?_eq_none.1 hfound op hop
    simp at this
  | some op' =>
    obtain ⟨hop', hkey⟩ := on?_eq_some hfound
    rw [List.inj_on_of_nodup_map hnodup hop' hop hkey]

theorem on?_eq_none : on? ops key = none ↔ ∀ op ∈ ops, op.key ≠ key := by
  unfold on?
  simp [List.find?_eq_none]

end NetOp

namespace Gathering

/-! ## One collection -/

/-- The operation that comes of adding `op` to what was there for its document. -/
def Merged (op : NetOp) : Option NetOp → NetOp → Prop
  | none, merged => merged = op
  | some first, merged => first.fold? op = some merged

/-- The operation that is added is merged with the one on its document. -/
theorem on?_addOp (h : addOp op ops = some ops') :
    ∃ merged, Merged op (NetOp.on? ops op.key) merged ∧ ∀ key, NetOp.on? ops' key =
      if key = op.key then some merged else NetOp.on? ops key := by
  induction ops generalizing ops' with
  | nil =>
    obtain rfl := Option.some.inj h
    refine ⟨op, rfl, fun key => ?_⟩
    rw [NetOp.on?_cons]
    exact if_congr eq_comm rfl rfl
  | cons o rest ih =>
    rw [addOp] at h
    rw [NetOp.on?_cons]
    split_ifs at h ⊢ with ho
    · obtain ⟨folded, hfold, rfl⟩ := Option.map_eq_some_iff.1 h
      refine ⟨folded, hfold, fun key => ?_⟩
      rw [NetOp.on?_cons, NetOp.on?_cons, NetOp.key_fold hfold, ho]
      by_cases hkey : key = op.key
      · rw [if_pos hkey, if_pos hkey.symm]
      · rw [if_neg hkey, if_neg (Ne.symm hkey), if_neg (Ne.symm hkey)]
    · obtain ⟨rest', hrest, rfl⟩ := Option.map_eq_some_iff.1 h
      obtain ⟨merged, hmerged, hall⟩ := ih hrest
      refine ⟨merged, hmerged, fun key => ?_⟩
      rw [NetOp.on?_cons, NetOp.on?_cons, hall]
      by_cases hkey : key = op.key
      · rw [hkey, if_neg ho]
        simp
      · rw [if_neg hkey, if_neg hkey]

/-- Adding an operation adds its key if that is new. -/
theorem keys_addOp (h : addOp op ops = some ops') :
    ops'.map NetOp.key = ops.map NetOp.key ∧ op.key ∈ ops.map NetOp.key ∨
      ops'.map NetOp.key = ops.map NetOp.key ++ [op.key] ∧ op.key ∉ ops.map NetOp.key := by
  induction ops generalizing ops' with
  | nil =>
    obtain rfl := Option.some.inj h
    exact .inr ⟨rfl, List.not_mem_nil⟩
  | cons o rest ih =>
    rw [addOp] at h
    split_ifs at h with ho
    · obtain ⟨folded, hfold, rfl⟩ := Option.map_eq_some_iff.1 h
      rw [List.map_cons, List.map_cons, NetOp.key_fold hfold, ho]
      exact .inl ⟨rfl, List.mem_cons_self⟩
    · obtain ⟨rest', hrest, rfl⟩ := Option.map_eq_some_iff.1 h
      rw [List.map_cons, List.map_cons]
      rcases ih hrest with ⟨hkeys, hold⟩ | ⟨hkeys, hnew⟩
      · exact .inl ⟨by rw [hkeys], List.mem_cons_of_mem _ hold⟩
      · refine .inr ⟨by rw [hkeys]; rfl, fun hmem => ?_⟩
        rcases List.mem_cons.1 hmem with heq | hmem
        · exact ho heq.symm
        · exact hnew hmem

/-- Adding a well-formed operation keeps the operations well-formed. -/
theorem wellFormed_addOp (h : addOp op ops = some ops') (hop : op.WellFormed)
    (hops : ∀ o ∈ ops, o.WellFormed) : ∀ o ∈ ops', o.WellFormed := by
  induction ops generalizing ops' with
  | nil =>
    obtain rfl := Option.some.inj h
    intro o ho
    rw [List.mem_singleton.1 ho]
    exact hop
  | cons o rest ih =>
    have hrest := fun o' ho' => hops o' (List.mem_cons_of_mem _ ho')
    rw [addOp] at h
    split_ifs at h with ho
    · obtain ⟨folded, hfold, rfl⟩ := Option.map_eq_some_iff.1 h
      intro o' ho'
      rcases List.mem_cons.1 ho' with rfl | ho'
      · exact (hops o List.mem_cons_self).fold hfold ho hop
      · exact hrest o' ho'
    · obtain ⟨rest', hrest', rfl⟩ := Option.map_eq_some_iff.1 h
      intro o' ho'
      rcases List.mem_cons.1 ho' with rfl | ho'
      · exact hops o' List.mem_cons_self
      · exact ih hrest' hrest o' ho'

/-! ## All collections -/

/-- The operation on a document. -/
def op? (g : Gathering) (ns : Namespace) (key : DocKey) : Option NetOp :=
  (g.find? fun job => job.ns = ns).bind fun job => NetOp.on? job.ops key

/-- There is one job for each collection, and each of them is well-formed. -/
structure WellFormed (g : Gathering) : Prop where
  /-- No two jobs are on one collection. -/
  nodup : (g.map Job.ns).Nodup
  /-- The jobs are well-formed. -/
  jobs : ∀ job ∈ g, job.WellFormed

variable {g g' : Gathering} {job : Job}

theorem op?_cons (job : Job) (g : Gathering) (ns : Namespace) (key : DocKey) :
    op? (job :: g) ns key = if job.ns = ns then NetOp.on? job.ops key else op? g ns key := by
  unfold op?
  rw [List.find?_cons]
  split_ifs with h <;> simp [h]

theorem wellFormed_nil : WellFormed [] := ⟨.nil, fun _ h => nomatch h⟩

theorem WellFormed.tail (h : WellFormed (job :: g)) : WellFormed g :=
  ⟨(List.nodup_cons.1 h.nodup).2, fun j hj => h.jobs j (List.mem_cons_of_mem _ hj)⟩

/-- A collection without a job has no operations. -/
theorem op?_of_not_mem (h : ns ∉ g.map Job.ns) (key : DocKey) : g.op? ns key = none := by
  unfold op?
  rw [List.find?_eq_none.2, Option.bind_none]
  intro job hjob
  have : job.ns ≠ ns := fun heq => h (List.mem_map.2 ⟨job, hjob, heq⟩)
  simpa using this

/-- The operation on a document is well-formed and has its key. -/
theorem WellFormed.of_op? (h : g.WellFormed) (hop : g.op? ns key = some op) :
    op.WellFormed ∧ op.key = key := by
  obtain ⟨job, hjob, hfound⟩ := Option.bind_eq_some_iff.1 hop
  obtain ⟨hmem, hkey⟩ := NetOp.on?_eq_some hfound
  exact ⟨(h.jobs job (List.mem_of_find?_eq_some hjob)).ops op hmem, hkey⟩

/-- The operation that is added is merged with the one on its document. -/
theorem op?_add (h : g.add ns op = some g') :
    ∃ merged, Merged op (g.op? ns op.key) merged ∧ ∀ ns' key, g'.op? ns' key =
      if ns' = ns ∧ key = op.key then some merged else g.op? ns' key := by
  induction g generalizing g' with
  | nil =>
    obtain rfl := Option.some.inj h
    refine ⟨op, rfl, fun ns' key => ?_⟩
    rw [op?_cons, NetOp.on?_cons]
    by_cases hns : ns' = ns
    · by_cases hkey : key = op.key
      · rw [if_pos hns.symm, if_pos hkey.symm, if_pos ⟨hns, hkey⟩]
      · rw [if_pos hns.symm, if_neg (Ne.symm hkey), if_neg fun h => hkey h.2]
        rfl
    · rw [if_neg (Ne.symm hns), if_neg fun h => hns h.1]
  | cons job rest ih =>
    rw [add] at h
    rw [op?_cons]
    split_ifs at h ⊢ with hjob
    · obtain ⟨ops, hops, rfl⟩ := Option.map_eq_some_iff.1 h
      obtain ⟨merged, hmerged, hall⟩ := on?_addOp hops
      refine ⟨merged, hmerged, fun ns' key => ?_⟩
      rw [op?_cons, op?_cons, hjob, hall]
      by_cases hns : ns' = ns
      · simp [hns]
      · rw [if_neg (Ne.symm hns), if_neg (Ne.symm hns), if_neg fun h => hns h.1]
    · obtain ⟨rest', hrest, rfl⟩ := Option.map_eq_some_iff.1 h
      obtain ⟨merged, hmerged, hall⟩ := ih hrest
      refine ⟨merged, hmerged, fun ns' key => ?_⟩
      rw [op?_cons, op?_cons, hall]
      by_cases hns : ns' = ns
      · rw [hns, if_neg hjob, if_neg hjob]
      · simp only [hns, false_and, if_false]

/-- Adding an operation adds its collection if that is new. -/
theorem ns_add (h : g.add ns op = some g') :
    g'.map Job.ns = g.map Job.ns ∧ ns ∈ g.map Job.ns ∨
      g'.map Job.ns = g.map Job.ns ++ [ns] ∧ ns ∉ g.map Job.ns := by
  induction g generalizing g' with
  | nil =>
    obtain rfl := Option.some.inj h
    exact .inr ⟨rfl, List.not_mem_nil⟩
  | cons job rest ih =>
    rw [add] at h
    split_ifs at h with hjob
    · obtain ⟨ops, -, rfl⟩ := Option.map_eq_some_iff.1 h
      rw [List.map_cons, List.map_cons, hjob]
      exact .inl ⟨rfl, List.mem_cons_self⟩
    · obtain ⟨rest', hrest, rfl⟩ := Option.map_eq_some_iff.1 h
      rw [List.map_cons, List.map_cons]
      rcases ih hrest with ⟨hns, hold⟩ | ⟨hns, hnew⟩
      · exact .inl ⟨by rw [hns], List.mem_cons_of_mem _ hold⟩
      · refine .inr ⟨by rw [hns]; rfl, fun hmem => ?_⟩
        rcases List.mem_cons.1 hmem with heq | hmem
        · exact hjob heq.symm
        · exact hnew hmem

/-- A job of what comes of adding an operation was there before, on another collection, or is the
one of its collection with the operation added. -/
theorem mem_add (hnodup : (g.map Job.ns).Nodup) (h : g.add ns op = some g') (hjob : job ∈ g') :
    job ∈ g ∧ job.ns ≠ ns ∨ job.ns = ns ∧ ∃ ops, addOp op ops = some job.ops ∧
      (⟨ns, ops⟩ ∈ g ∨ ops = [] ∧ ns ∉ g.map Job.ns) := by
  induction g generalizing g' with
  | nil =>
    obtain rfl := Option.some.inj h
    obtain rfl := List.mem_singleton.1 hjob
    exact .inr ⟨rfl, [], rfl, .inr ⟨rfl, List.not_mem_nil⟩⟩
  | cons first rest ih =>
    obtain ⟨hfirst, hrest⟩ := List.nodup_cons.1 hnodup
    rw [add] at h
    split_ifs at h with hns
    · obtain ⟨ops, hops, rfl⟩ := Option.map_eq_some_iff.1 h
      rcases List.mem_cons.1 hjob with rfl | hjob
      · exact .inr ⟨rfl, first.ops, hops, .inl (hns ▸ List.mem_cons_self)⟩
      · -- There is no other job on the collection.
        refine .inl ⟨List.mem_cons_of_mem _ hjob, fun heq => hfirst ?_⟩
        rw [hns, ← heq]
        exact List.mem_map_of_mem hjob
    · obtain ⟨rest', hadd, rfl⟩ := Option.map_eq_some_iff.1 h
      rcases List.mem_cons.1 hjob with rfl | hjob
      · exact .inl ⟨List.mem_cons_self, hns⟩
      · rcases ih hrest hadd hjob with ⟨hmem, hother⟩ | ⟨heq, ops, hops, hmem | ⟨hnil, hnew⟩⟩
        · exact .inl ⟨List.mem_cons_of_mem _ hmem, hother⟩
        · exact .inr ⟨heq, ops, hops, .inl (List.mem_cons_of_mem _ hmem)⟩
        · refine .inr ⟨heq, ops, hops, .inr ⟨hnil, fun hmem => ?_⟩⟩
          rcases List.mem_cons.1 hmem with hsame | hmem
          · exact hns hsame.symm
          · exact hnew hmem

theorem jobs_add (h : g.add ns op = some g') (hop : op.WellFormed)
    (hjobs : ∀ job ∈ g, job.WellFormed) : ∀ job ∈ g', job.WellFormed := by
  induction g generalizing g' with
  | nil =>
    obtain rfl := Option.some.inj h
    intro job hjob
    rw [List.mem_singleton.1 hjob]
    exact ⟨List.nodup_singleton _, fun o ho => List.mem_singleton.1 ho ▸ hop⟩
  | cons job rest ih =>
    have hrest := fun j hj => hjobs j (List.mem_cons_of_mem _ hj)
    have hfirst := hjobs job List.mem_cons_self
    rw [add] at h
    split_ifs at h with hjob
    · obtain ⟨ops, hops, rfl⟩ := Option.map_eq_some_iff.1 h
      intro j hj
      rcases List.mem_cons.1 hj with rfl | hj
      · refine ⟨?_, wellFormed_addOp hops hop hfirst.ops⟩
        rcases keys_addOp hops with ⟨hkeys, -⟩ | ⟨hkeys, hnew⟩
        · exact hkeys ▸ hfirst.nodup
        · show (ops.map NetOp.key).Nodup
          rw [hkeys]
          exact List.Nodup.append hfirst.nodup (List.nodup_singleton _)
            (List.disjoint_singleton.2 hnew)
      · exact hrest j hj
    · obtain ⟨rest', hrest', rfl⟩ := Option.map_eq_some_iff.1 h
      intro j hj
      rcases List.mem_cons.1 hj with rfl | hj
      · exact hfirst
      · exact ih hrest' hrest j hj

/-- Adding a well-formed operation keeps what was gathered well-formed. -/
theorem WellFormed.add (hg : g.WellFormed) (h : g.add ns op = some g') (hop : op.WellFormed) :
    g'.WellFormed := by
  refine ⟨?_, jobs_add h hop hg.jobs⟩
  rcases ns_add h with ⟨hns, -⟩ | ⟨hns, hnew⟩
  · exact hns ▸ hg.nodup
  · rw [hns]
    exact List.Nodup.append hg.nodup (List.nodup_singleton _) (List.disjoint_singleton.2 hnew)

/-- What was gathered leads on with an operation that is added. -/
theorem leads_add (hg : g.WellFormed) (h : g.add ns op = some g') (ns' : Namespace)
    (key : DocKey) (hbefore : NetOp.Leads st (g.op? ns' key) x y)
    (hop : if ns' = ns ∧ key = op.key then op.Takes st y z else z = y) :
    NetOp.Leads st (g'.op? ns' key) x z := by
  obtain ⟨merged, hmerged, hall⟩ := op?_add h
  rw [hall]
  split_ifs at hop ⊢ with hcase
  · obtain ⟨rfl, rfl⟩ := hcase
    cases hfirst : g.op? ns' op.key with
    | none =>
      rw [hfirst] at hbefore hmerged
      obtain rfl : y = x := hbefore
      obtain rfl : merged = op := hmerged
      exact hop
    | some first =>
      rw [hfirst] at hbefore hmerged
      exact NetOp.Takes.fold hmerged (hg.of_op? hfirst).2 hbefore hop
  · rw [hop]
    exact hbefore

/-! ## Closing -/

/-- The jobs of what was gathered, without what does nothing. -/
def closeJobs (g : Gathering) : List Job :=
  (g.map fun job => { job with ops := job.ops.filter fun op => op.effect ≠ .noop }).filter
    fun job => !job.ops.isEmpty

theorem close_eq (g : Gathering) :
    g.close = if g.closeJobs.isEmpty then [] else [.jobs g.closeJobs] := rfl

theorem closeJobs_cons (job : Job) (g : Gathering) :
    closeJobs (job :: g) =
      if (job.ops.filter fun op => op.effect ≠ .noop).isEmpty then closeJobs g
      else ⟨job.ns, job.ops.filter fun op => op.effect ≠ .noop⟩ :: closeJobs g := by
  unfold closeJobs
  rw [List.map_cons, List.filter_cons]
  cases (job.ops.filter fun op => op.effect ≠ .noop).isEmpty <;> rfl

/-- Closing leaves out jobs and keeps the order of the others. -/
theorem ns_closeJobs (g : Gathering) :
    List.Sublist (g.closeJobs.map Job.ns) (g.map Job.ns) := by
  induction g with
  | nil => exact .slnil
  | cons job rest ih =>
    rw [closeJobs_cons]
    split_ifs
    · exact ih.cons _
    · exact ih.cons_cons _

/-- A job that is closed has operations, those of a job that was gathered that do something. -/
theorem exists_of_mem_closeJobs (h : job ∈ g.closeJobs) : job.ops ≠ [] ∧
    ∃ j ∈ g, job = ⟨j.ns, j.ops.filter fun op => op.effect ≠ .noop⟩ := by
  obtain ⟨hmem, hne⟩ := List.mem_filter.1 h
  obtain ⟨j, hj, rfl⟩ := List.mem_map.1 hmem
  refine ⟨fun hnil => ?_, j, hj, rfl⟩
  rw [hnil] at hne
  cases hne

/-- Closing keeps the jobs well-formed. -/
theorem WellFormed.closeJobs (hg : g.WellFormed) : WellFormed g.closeJobs := by
  refine ⟨g.ns_closeJobs.nodup hg.nodup, fun job hjob => ?_⟩
  obtain ⟨-, j, hj, rfl⟩ := exists_of_mem_closeJobs hjob
  have hwf := hg.jobs j hj
  exact ⟨(List.filter_sublist.map _).nodup hwf.nodup,
    fun op hop => hwf.ops op (List.mem_filter.1 hop).1⟩

/-- Among operations on different documents the one on a document stays, unless it does nothing. -/
theorem on?_filter (hnodup : (ops.map NetOp.key).Nodup) (key : DocKey) :
    NetOp.on? (ops.filter fun op => op.effect ≠ .noop) key =
      (NetOp.on? ops key).filter fun op => op.effect ≠ .noop := by
  cases hfound : NetOp.on? ops key with
  | none =>
    rw [Option.filter_none, NetOp.on?_eq_none]
    exact fun op hop => NetOp.on?_eq_none.1 hfound op (List.mem_filter.1 hop).1
  | some op =>
    obtain ⟨hop, rfl⟩ := NetOp.on?_eq_some hfound
    by_cases hnoop : op.effect = .noop
    · rw [Option.filter_some, if_neg (by simpa using hnoop), NetOp.on?_eq_none]
      intro o ho hkey
      obtain ⟨ho, heffect⟩ := List.mem_filter.1 ho
      rw [List.inj_on_of_nodup_map hnodup ho hop hkey] at heffect
      exact of_decide_eq_true heffect hnoop
    · rw [Option.filter_some, if_pos (by simpa using hnoop)]
      exact NetOp.on?_of_mem ((List.filter_sublist.map _).nodup hnodup)
        (List.mem_filter.2 ⟨hop, by simpa using hnoop⟩)

/-- Closing leaves out the operations that do nothing. -/
theorem op?_closeJobs (hg : g.WellFormed) (ns : Namespace) (key : DocKey) :
    op? g.closeJobs ns key = (g.op? ns key).filter fun op => op.effect ≠ .noop := by
  induction g with
  | nil => rfl
  | cons job rest ih =>
    have hfilter := on?_filter (hg.jobs job List.mem_cons_self).nodup key
    rw [closeJobs_cons, op?_cons]
    by_cases hns : job.ns = ns
    · rw [if_pos hns, ← hfilter]
      split_ifs with hempty
      · -- The job is gone, and no other one is on its collection.
        rw [List.isEmpty_iff] at hempty
        rw [ih hg.tail, hempty, op?_of_not_mem (hns ▸ (List.nodup_cons.1 hg.nodup).1)]
        rfl
      · rw [op?_cons, if_pos hns]
    · rw [if_neg hns, ← ih hg.tail]
      split_ifs
      · rfl
      · rw [op?_cons, if_neg hns]

/-- What was gathered leads where its jobs lead. -/
theorem leads_closeJobs (hg : g.WellFormed) {key : DocKey}
    (h : NetOp.Leads st (g.op? ns key) x y) : NetOp.Leads st (op? g.closeJobs ns key) x y := by
  rw [op?_closeJobs hg]
  cases hop : g.op? ns key with
  | none =>
    rw [hop] at h
    exact h
  | some op =>
    rw [hop] at h
    by_cases hnoop : op.effect = .noop
    · rw [Option.filter_some, if_neg (by simpa using hnoop)]
      have houtcome := NetOp.Takes.outcome h
      unfold NetOp.outcome at houtcome
      rw [hnoop] at houtcome
      exact (Except.ok.inj houtcome).symm
    · rw [Option.filter_some, if_pos (by simpa using hnoop)]
      exact h

end Gathering

end Replica
