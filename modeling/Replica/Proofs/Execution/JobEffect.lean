import Replica.Execution.Job
import Replica.Proofs.Analysis.Gathering
import Replica.Proofs.Execution.Refusals

/-!
# The effect of a job

A job does to each of its documents what its operation says, and nothing else (`Done`). That is what
comes of a job that succeeds (`apply_eq_ok`), and a job whose operations all lead to one end that
respects the unique indexes succeeds on a store without faults (`exists_apply`), and on others that
let its commit through (`exists_apply_of_outlasts`). It commits only where one of its operations
finds a document or leaves one (`exists_document?_of_plan`, `outlasts_of_document?`). A job fails
for a missing target only where a required one is missing (`exists_missing`).
-/

namespace Replica.Job

variable {st : Strictness} {job : Job} {s s' : Store} {op : NetOp} {doc : Json}

/-! ## Reading -/

/-- The targets that are looked up are found where they are. -/
theorem get?_targets (hop : op ∈ job.ops) (hneeds : op.effect.needsTarget = true) :
    (job.targets s).get? op.key = (s.collection job.ns).ids.get? op.key := by
  have hmem : op.key ∈ (job.ops.filter fun op => op.effect.needsTarget).map NetOp.key :=
    List.mem_map.2 ⟨op, List.mem_filter.2 ⟨hop, hneeds⟩, rfl⟩
  unfold targets
  dsimp only
  rw [if_neg (by rw [List.isEmpty_iff]; exact List.ne_nil_of_mem hmem), Store.get?_findDids,
    if_pos hmem]

/-- The target of an operation is a document with its key. -/
theorem isSome_targets (hs : s.WellFormed) (hop : op ∈ job.ops)
    (hneeds : op.effect.needsTarget = true) :
    ((job.targets s).get? op.key).isSome = (s.document? job.ns op.key).isSome := by
  rw [get?_targets hop hneeds, Store.document?, (hs job.ns).document?_isSome]

/-- The documents that are modified are loaded as they are. -/
theorem get?_loaded (hop : op ∈ job.ops) (hneeds : op.effect.needsContent = true) :
    (((job.targets s).get? op.key).bind (job.loaded (job.targets s) s).get?) =
      s.document? job.ns op.key := by
  have htarget : op.effect.needsTarget = true := by
    cases heff : op.effect <;> rw [heff] at hneeds <;> first | rfl | cases hneeds
  rw [get?_targets hop htarget, Store.document?, Collection.document?]
  cases hid : (s.collection job.ns).ids.get? op.key with
  | none => rfl
  | some did =>
    have hmem : did ∈ (job.ops.filter fun op => op.effect.needsContent).filterMap fun op =>
        (job.targets s).get? op.key :=
      List.mem_filterMap.2 ⟨op, List.mem_filter.2 ⟨hop, hneeds⟩, by
        rw [get?_targets hop htarget, hid]⟩
    rw [Option.bind_some, Option.bind_some]
    unfold loaded
    dsimp only
    rw [if_neg (by rw [List.isEmpty_iff]; exact List.ne_nil_of_mem hmem), Store.get?_fetch,
      if_pos hmem]

/-! ## What is removed and inserted -/

/-- The collection of a job without the documents that the job removes. -/
def left (job : Job) (s : Store) : Collection :=
  (job.removed (job.targets s)).foldl Collection.delete (s.collection job.ns)

/-- The documents that a job inserts, those of operations that cannot be applied left out. -/
def arriving (job : Job) (s : Store) : List Json :=
  job.ops.filterMap fun op => (op.inserts (s.document? job.ns op.key)).toOption.join

/-- What is inserted depends on the documents at the keys of the operations. -/
theorem inserted_eq (hs : s.WellFormed) :
    job.inserted (job.targets s) (job.loaded (job.targets s) s) =
      (job.ops.mapM fun op : NetOp => op.inserts (s.document? job.ns op.key)).map
        (List.filterMap id) := by
  have heach : ∀ op ∈ job.ops, op.result ((job.targets s).get? op.key).isSome
      (((job.targets s).get? op.key).bind (job.loaded (job.targets s) s).get?) =
        op.inserts (s.document? job.ns op.key) := by
    intro op hop
    unfold NetOp.inserts NetOp.result
    cases heff : op.effect with
    | replace doc =>
      dsimp only
      rw [isSome_targets hs hop (by rw [heff]; rfl)]
    | update ms upsert =>
      dsimp only
      rw [isSome_targets hs hop (by rw [heff]; rfl), get?_loaded hop (by rw [heff]; rfl)]
    | _ => rfl
  unfold inserted
  dsimp only
  rw [mapM_congr heach]
  cases job.ops.mapM fun op : NetOp => op.inserts (s.document? job.ns op.key) <;> rfl

/-- A job inserts what its operations insert if all of them can be applied. -/
theorem inserted_eq_ok (hs : s.WellFormed) {docs : List Json} :
    job.inserted (job.targets s) (job.loaded (job.targets s) s) = .ok docs ↔
      (∀ op ∈ job.ops, ∃ d, op.inserts (s.document? job.ns op.key) = .ok d) ∧
        docs = job.arriving s := by
  rw [inserted_eq hs]
  -- Only that each operation inserts, fails or does neither matters here, not how.
  generalize hf : (fun op : NetOp => op.inserts (s.document? job.ns op.key)) = f
  have happly : ∀ op : NetOp, op.inserts (s.document? job.ns op.key) = f op := fun op => by
    rw [← hf]
  have harriving : job.arriving s = (job.ops.map f).filterMap fun r => r.toOption.join := by
    rw [List.filterMap_map, ← hf]
    rfl
  simp only [happly, harriving]
  constructor
  · intro h
    cases hmap : job.ops.mapM f with
    | error e =>
      rw [hmap] at h
      cases h
    | ok results =>
      rw [hmap] at h
      obtain rfl := Except.ok.inj h
      have heach := mapM_eq_ok.1 hmap
      refine ⟨fun op hop => ?_, ?_⟩
      · have hmem := List.mem_map_of_mem (f := f) hop
        rw [heach] at hmem
        obtain ⟨d, -, hd⟩ := List.mem_map.1 hmem
        exact ⟨d, hd.symm⟩
      · rw [heach, List.filterMap_map]
        rfl
  · rintro ⟨hall, rfl⟩
    have heach : job.ops.map f = (job.ops.map fun op => (f op).toOption.join).map .ok := by
      rw [List.map_map]
      refine List.map_congr_left fun op hop => ?_
      obtain ⟨d, hd⟩ := hall op hop
      rw [Function.comp_apply, hd]
      rfl
    rw [mapM_eq_ok.2 heach, List.filterMap_map]
    show Except.ok _ = _
    rw [List.filterMap_map]
    rfl

/-- The documents that are removed are those of the operations that remove their target. -/
theorem mem_removed {did : Did} : did ∈ job.removed (job.targets s) ↔ ∃ op ∈ job.ops,
    op.effect.removesTarget = true ∧ (s.collection job.ns).ids.get? op.key = some did := by
  have hneeds : ∀ op : NetOp, op.effect.removesTarget = op.effect.needsTarget := by
    intro op
    cases op.effect <;> rfl
  unfold removed
  simp only [List.mem_filterMap, List.mem_filter]
  constructor
  · rintro ⟨op, ⟨hop, hremoves⟩, hdid⟩
    rw [get?_targets hop (by rw [← hneeds, hremoves])] at hdid
    exact ⟨op, hop, hremoves, hdid⟩
  · rintro ⟨op, hop, hremoves, hdid⟩
    exact ⟨op, ⟨hop, hremoves⟩, by rw [get?_targets hop (by rw [← hneeds, hremoves]), hdid]⟩

/-- The documents that are left when the targets were removed. -/
theorem document?_left (hs : s.WellFormed) (key : DocKey) :
    (job.left s).document? key =
      if ∃ op ∈ job.ops, op.effect.removesTarget = true ∧ op.key = key then none
      else s.document? job.ns key := by
  have hwf := hs job.ns
  rw [left, (hwf.foldl_delete _).2.2]
  -- A number that is removed is the one that the key of its operation leads to.
  have hmem : (∃ did ∈ job.removed (job.targets s),
      (s.collection job.ns).ids.get? key = some did) ↔ ∃ op ∈ job.ops,
        op.effect.removesTarget = true ∧ op.key = key ∧
        ((s.collection job.ns).ids.get? key).isSome = true := by
    constructor
    · rintro ⟨did, hdid, hid⟩
      obtain ⟨op, hop, hremoves, hid'⟩ := mem_removed.1 hdid
      exact ⟨op, hop, hremoves, hwf.ids_inj hid' hid, by rw [hid]; rfl⟩
    · rintro ⟨op, hop, hremoves, rfl, hsome⟩
      obtain ⟨did, hid⟩ := Option.isSome_iff_exists.1 hsome
      exact ⟨did, mem_removed.2 ⟨op, hop, hremoves, hid⟩, hid⟩
  by_cases hop : ∃ op ∈ job.ops, op.effect.removesTarget = true ∧ op.key = key
  · rw [if_pos hop]
    obtain ⟨op, hop, hremoves, hkey⟩ := hop
    split_ifs with hdid
    · rfl
    · -- A target without a number is not there.
      rw [hwf.document?_eq_none, ← Option.not_isSome_iff_eq_none]
      exact fun hsome => hdid (hmem.2 ⟨op, hop, hremoves, hkey, hsome⟩)
  · rw [if_neg hop, if_neg]
    · rfl
    · intro hdid
      obtain ⟨op, hmem, hremoves, hkey, -⟩ := hmem.1 hdid
      exact hop ⟨op, hmem, hremoves, hkey⟩

/-- What is left at the key of an operation is what was there, unless the operation removes it. -/
theorem document?_left_op (hs : s.WellFormed) (hj : job.WellFormed) (hop : op ∈ job.ops) :
    (job.left s).document? op.key =
      if op.effect.removesTarget = true then none else s.document? job.ns op.key := by
  rw [document?_left hs]
  refine if_congr ⟨?_, fun hremoves => ⟨op, hop, hremoves, rfl⟩⟩ rfl rfl
  rintro ⟨op', hop', hremoves, hkey⟩
  rwa [hj.op_unique hop' hop hkey] at hremoves

/-- Apart from the keys of operations everything is left. -/
theorem document?_left_of_ne (hs : s.WellFormed) {key : DocKey}
    (hkey : ∀ op ∈ job.ops, op.key ≠ key) :
    (job.left s).document? key = s.document? job.ns key := by
  rw [document?_left hs, if_neg]
  rintro ⟨op, hop, -, rfl⟩
  exact hkey op hop rfl

/-- What an operation inserts has its key. -/
theorem ofDocument_inserts (hs : s.WellFormed) (hj : job.WellFormed) (hop : op ∈ job.ops)
    (hins : op.inserts (s.document? job.ns op.key) = .ok (some doc)) :
    DocKey.ofDocument doc = .ok op.key :=
  (hj.ops op hop).result_keyed (fun _ hd => (hs job.ns).ofDocument hd) hins

/-- The documents that are inserted are those of the operations. -/
theorem mem_arriving : doc ∈ job.arriving s ↔
    ∃ op ∈ job.ops, op.inserts (s.document? job.ns op.key) = .ok (some doc) := by
  have hjoin : ∀ r : Except EntryError (Option Json),
      r.toOption.join = some doc ↔ r = .ok (some doc) := by
    intro r
    cases r <;> simp [Except.toOption]
  simp only [arriving, List.mem_filterMap, hjoin]

/-- No two documents that are inserted have the same key. -/
theorem pairwise_arriving (hs : s.WellFormed) (hj : job.WellFormed) :
    (job.arriving s).Pairwise fun a b => DocKey.ofDocument a ≠ DocKey.ofDocument b := by
  have hins : ∀ {r : Except EntryError (Option Json)} {doc : Json},
      r.toOption.join = some doc → r = .ok (some doc) := by
    intro r doc h
    cases r with
    | error e => cases h
    | ok d => exact congrArg _ h
  rw [arriving, List.pairwise_filterMap]
  refine List.Pairwise.imp_of_mem ?_ (List.pairwise_map.1 hj.nodup)
  intro op op' hop hop' hne a ha b hb heq
  rw [ofDocument_inserts hs hj hop (hins ha), ofDocument_inserts hs hj hop' (hins hb)] at heq
  exact hne (Except.ok.inj heq)

/-! ## Planning -/

/-- A well-formed operation that requires its target looks it up. -/
theorem needsTarget_of_requiresMatch (h : op.WellFormed) (hr : op.requiresMatch = true) :
    op.effect.needsTarget = true := by
  cases heff : op.effect with
  | noop => exact absurd (h.noop heff) (by rw [hr]; decide)
  | insert doc => exact absurd (h.insert doc heff) (by rw [hr]; decide)
  | _ => rfl

/-- Nothing is missing exactly when all required targets are there. -/
theorem mismatches_eq_nil (hs : s.WellFormed) (hj : job.WellFormed) :
    job.mismatches (job.targets s) = [] ↔
      ∀ op ∈ job.ops, op.requiresMatch = true → s.document? job.ns op.key ≠ none := by
  unfold mismatches
  simp only [List.map_eq_nil_iff, List.filter_eq_nil_iff, Bool.and_eq_true, Bool.not_eq_true',
    not_and, Bool.not_eq_false]
  refine forall₂_congr fun op hop => forall_congr' fun hr => ?_
  rw [Table.contains_eq, isSome_targets hs hop (needsTarget_of_requiresMatch (hj.ops op hop) hr),
    Option.isSome_iff_ne_none]

/-- A job is planned exactly when all required targets are there and all operations can be applied
to what is there. -/
theorem plan_eq_ok (hs : s.WellFormed) (hj : job.WellFormed) {t : Transaction} :
    job.plan st s = .ok t ↔
      (st = .strict → ∀ op ∈ job.ops, op.requiresMatch = true →
        s.document? job.ns op.key ≠ none) ∧
      (∀ op ∈ job.ops, ∃ d, op.inserts (s.document? job.ns op.key) = .ok d) ∧
      t = (Transaction.delete [] job.ns (job.removed (job.targets s))).insert job.ns
        (job.arriving s) := by
  unfold plan
  dsimp only
  rw [← mismatches_eq_nil hs hj]
  split_ifs with hmissing
  · refine iff_of_false (fun h => nomatch h) fun h => hmissing.2 ?_
    rw [h.1 hmissing.1]
    rfl
  · have hnil : st = .strict → job.mismatches (job.targets s) = [] := by
      intro hst
      by_contra hne
      exact hmissing ⟨hst, by rwa [List.isEmpty_iff]⟩
    rw [and_iff_right hnil]
    unfold writes
    cases hins : job.inserted (job.targets s) (job.loaded (job.targets s) s) with
    | error e =>
      refine iff_of_false (fun h => nomatch h) fun h => ?_
      rw [(inserted_eq_ok hs).2 ⟨h.1, rfl⟩] at hins
      cases hins
    | ok docs =>
      obtain ⟨hall, rfl⟩ := (inserted_eq_ok hs).1 hins
      rw [and_iff_right hall, Except.ok.injEq, eq_comm]

/-- A job is planned by what the databases hold. -/
theorem reads_plan (job : Job) (st : Strictness) : Workplace.Reads (job.plan st) := by
  rintro ⟨databases, _, _, _, _⟩ ⟨databases', _, _, _, _⟩ h
  obtain rfl : databases' = databases := h
  rfl

/-- A job writes nothing exactly when it neither removes nor inserts a document. -/
theorem plan_eq_nil (hs : s.WellFormed) (hj : job.WellFormed) {t : Transaction}
    (hplan : job.plan st s = .ok t) :
    t = [] ↔ job.removed (job.targets s) = [] ∧ job.arriving s = [] := by
  obtain ⟨-, -, rfl⟩ := (plan_eq_ok hs hj).1 hplan
  unfold Transaction.insert Transaction.delete
  split_ifs with hdocs hdids hdids <;> simp_all

/-- A planned job that writes something has an operation that finds a document or inserts one. -/
theorem exists_written_of_plan (hs : s.WellFormed) (hj : job.WellFormed) {t : Transaction}
    (hplan : job.plan st s = .ok t) (ht : t ≠ []) :
    ∃ op ∈ job.ops, s.document? job.ns op.key ≠ none ∨
      ∃ doc, op.inserts (s.document? job.ns op.key) = .ok (some doc) := by
  rw [ne_eq, plan_eq_nil hs hj hplan, not_and_or] at ht
  obtain hremoved | harriving := ht
  · obtain ⟨did, hdid⟩ := List.exists_mem_of_ne_nil _ hremoved
    obtain ⟨op, hop, -, hid⟩ := mem_removed.1 hdid
    refine ⟨op, hop, .inl ((hs job.ns).document?_eq_none.not.2 ?_)⟩
    rw [hid]
    exact Option.some_ne_none did
  · obtain ⟨doc, hdoc⟩ := List.exists_mem_of_ne_nil _ harriving
    obtain ⟨op, hop, hins⟩ := mem_arriving.1 hdoc
    exact ⟨op, hop, .inr ⟨doc, hins⟩⟩

/-- A job deletes and inserts in its collection. -/
theorem mem_plan {t : Transaction} (h : job.plan st s = .ok t) {write : Write}
    (hw : write ∈ t) :
    (∃ dids, write = .delete job.ns dids) ∨ ∃ docs, write = .insert job.ns docs := by
  unfold plan at h
  dsimp only at h
  split_ifs at h
  unfold writes at h
  split at h
  · cases h
  · obtain rfl := Except.ok.inj h
    -- Either write is left out if it is about no document.
    unfold Transaction.insert Transaction.delete at hw
    split_ifs at hw
    · cases hw
    · exact .inl ⟨_, List.mem_singleton.1 hw⟩
    · exact .inr ⟨_, List.mem_singleton.1 hw⟩
    · rcases List.mem_append.1 hw with hw | hw
      · exact .inl ⟨_, List.mem_singleton.1 hw⟩
      · exact .inr ⟨_, List.mem_singleton.1 hw⟩

/-- A job can be written where its collection can. -/
theorem failingTarget?_plan {t : Transaction} (hplan : job.plan st s = .ok t)
    (hns : job.ns ∉ s'.failing) : s'.failingTarget? t = none := by
  refine List.find?_eq_none.2 fun ns hmem => ?_
  rw [List.any_eq_true]
  rintro ⟨write, hw, htouches⟩
  obtain ⟨dids, rfl⟩ | ⟨docs, rfl⟩ := mem_plan hplan hw
  · exact hns (beq_iff_eq.1 htouches ▸ hmem)
  · exact hns (beq_iff_eq.1 htouches ▸ hmem)

/-- Where a job writes something, its collection is written to. -/
theorem not_mem_failing {t : Transaction} (hplan : job.plan st s = .ok t) (ht : t ≠ [])
    (hfailing : s'.failingTarget? t = none) : job.ns ∉ s'.failing := by
  obtain ⟨write, hw⟩ := List.exists_mem_of_ne_nil t ht
  intro hmem
  refine List.find?_eq_none.1 hfailing job.ns hmem (List.any_eq_true.2 ⟨write, hw, ?_⟩)
  obtain ⟨dids, rfl⟩ | ⟨docs, rfl⟩ := mem_plan hplan hw
  · exact beq_self_eq_true _
  · exact beq_self_eq_true _

/-! ## What a job does -/

/-- A job took a store from `s` to `s'`. -/
structure Done (st : Strictness) (job : Job) (s s' : Store) : Prop where
  /-- The store is well-formed. -/
  wellFormed : s'.WellFormed
  /-- Each operation had its effect. -/
  takes : ∀ op ∈ job.ops,
    op.Takes st (s.document? job.ns op.key) (s'.document? job.ns op.key)
  /-- All other documents of the collection are as before. -/
  others : ∀ key, (∀ op ∈ job.ops, op.key ≠ key) →
    s'.document? job.ns key = s.document? job.ns key
  /-- All other collections are as before. -/
  elsewhere : ∀ ns, ns ≠ job.ns → s'.collection ns = s.collection ns
  /-- All indexes are as before. -/
  indexes : ∀ ns, (s'.collection ns).indexes = (s.collection ns).indexes

/-- Where everything that is inserted has arrived, each operation had its effect. -/
theorem takes_of_insertAll (hs : s.WellFormed) (hj : job.WellFormed) {c : Collection} {next : Did}
    (hins : Collection.insertAll job.ns (job.arriving s) s.nextDid (job.left s) = (.ok c, next))
    (hop : op ∈ job.ops)
    (hpresent : st = .strict → op.requiresMatch = true → s.document? job.ns op.key ≠ none)
    {d : Option Json} (hd : op.inserts (s.document? job.ns op.key) = .ok d) :
    op.Takes st (s.document? job.ns op.key) (c.document? op.key) := by
  have hleft := document?_left_op hs hj hop
  obtain ⟨-, -, hnew, hold⟩ := ((hs job.ns).foldl_delete _).1.insertAll_eq_ok hins
  cases d with
  | some doc =>
    obtain ⟨key, hkey, habsent, hsome⟩ := hnew doc (mem_arriving.2 ⟨op, hop, hd⟩)
    rw [ofDocument_inserts hs hj hop hd, Except.ok.injEq] at hkey
    subst hkey
    refine ⟨hpresent, fun doc hdoc => ?_, ?_⟩
    · rw [hdoc] at hleft
      exact hleft.symm.trans habsent
    · rw [hsome, ← hd, NetOp.inserts_eq_outcome (NetOp.ne_noop_of_inserts hd)]
  | none =>
    -- Nothing is inserted at the key, so what is there is what was left.
    have hkept : c.document? op.key = (job.left s).document? op.key := by
      refine hold op.key fun doc hdoc heq => ?_
      obtain ⟨op', hop', hins'⟩ := mem_arriving.1 hdoc
      rw [ofDocument_inserts hs hj hop' hins', Except.ok.injEq] at heq
      rw [hj.op_unique hop' hop heq, hd] at hins'
      cases Except.ok.inj hins'
    rw [hkept, hleft]
    unfold NetOp.inserts NetOp.result at hd
    cases heff : op.effect with
    | noop =>
      refine ⟨hpresent, fun doc hdoc => ?_, ?_⟩
      · rw [heff] at hdoc
        cases hdoc
      · unfold NetOp.outcome
        rw [heff]
        rfl
    | insert doc =>
      rw [heff] at hd
      cases Except.ok.inj hd
    | _ =>
      refine ⟨hpresent, fun doc hdoc => ?_, ?_⟩
      · rw [heff] at hdoc
        cases hdoc
      rw [← NetOp.inserts_eq_outcome (by rw [heff]; exact fun h => nomatch h)]
      exact hd

/-- A planned job that is committed inserts into what it left, and in its collection only. -/
theorem insertAll_of_commit (hs : s.WellFormed) (hj : job.WellFormed) {t : Transaction}
    (hplan : job.plan st s = .ok t) (hcommit : s.commit t = (.ok (), s')) :
    Collection.insertAll job.ns (job.arriving s) s.nextDid (job.left s) =
      (.ok (s'.collection job.ns), s'.nextDid) ∧
    ∀ ns, ns ≠ job.ns → s'.collection ns = s.collection ns := by
  obtain ⟨-, -, ht⟩ := (plan_eq_ok hs hj).1 hplan
  obtain ⟨happly, -⟩ := Store.commit_eq_ok hcommit
  have hwrites := Write.applyAll_delete_insert s.databases s.nextDid job.ns
    (job.removed (job.targets s)) (job.arriving s)
  have hleft : (job.removed (job.targets s)).foldl Collection.delete
      (s.databases.collection job.ns) = job.left s := rfl
  rw [← ht, hleft] at hwrites
  rcases hins : Collection.insertAll job.ns (job.arriving s) s.nextDid (job.left s) with
    ⟨e | c, next⟩
  · rw [hins] at hwrites
    rw [hwrites] at happly
    cases congrArg Prod.fst happly
  · rw [hins] at hwrites
    obtain ⟨databases, hdatabases, hcollection⟩ := hwrites
    rw [happly] at hdatabases
    obtain ⟨⟨rfl⟩, rfl⟩ := Prod.mk.inj hdatabases
    refine ⟨?_, fun ns hns => ?_⟩
    · rw [Store.collection, hcollection, if_pos rfl]
    · rw [Store.collection, hcollection, if_neg hns]
      rfl

/-- A planned job that is committed did what its operations say. -/
theorem done_of_commit (hs : s.WellFormed) (hj : job.WellFormed) {t : Transaction}
    (hplan : job.plan st s = .ok t) (hcommit : s.commit t = (.ok (), s')) : job.Done st s s' := by
  obtain ⟨hpresent, hall, -⟩ := (plan_eq_ok hs hj).1 hplan
  obtain ⟨hins, helsewhere⟩ := insertAll_of_commit hs hj hplan hcommit
  obtain ⟨hwf, hindexes, -⟩ := (hs job.ns).foldl_delete (job.removed (job.targets s))
  obtain ⟨-, hindexes', -, hold⟩ := hwf.insertAll_eq_ok hins
  refine ⟨?_, fun op hop => ?_, fun key hkey => ?_, helsewhere, fun ns => ?_⟩
  · have := hs.commit t
    rwa [hcommit] at this
  · obtain ⟨d, hd⟩ := hall op hop
    exact takes_of_insertAll hs hj hins hop (fun hst => hpresent hst op hop) hd
  · rw [Store.document?, ← document?_left_of_ne hs hkey]
    refine hold key fun doc hdoc heq => ?_
    obtain ⟨op, hop, hins'⟩ := mem_arriving.1 hdoc
    rw [ofDocument_inserts hs hj hop hins', Except.ok.injEq] at heq
    exact hkey op hop heq
  · by_cases hns : ns = job.ns
    · rw [hns, hindexes', hindexes]
    · rw [helsewhere ns hns]

/-- What was done on a store with the same data was done on the store. -/
theorem Done.of_sameData {s₀ : Store} (hsame : s.SameData s₀) (h : job.Done st s₀ s') :
    job.Done st s s' where
  wellFormed := h.wellFormed
  takes := fun op hop => by
    rw [← hsame.document?]
    exact h.takes op hop
  others := fun key hkey => by rw [h.others key hkey, hsame.document?]
  elsewhere := fun ns hns => by rw [h.elsewhere ns hns, hsame.collection]
  indexes := fun ns => by rw [h.indexes ns, hsame.collection]

/-- The other collections have the same documents. -/
theorem Done.document?_elsewhere (h : job.Done st s s') {ns : Namespace} (hns : ns ≠ job.ns)
    (key : DocKey) : s'.document? ns key = s.document? ns key := by
  rw [Store.document?, h.elsewhere ns hns, Store.document?]

/-- A document that no operation is on is as before. -/
theorem Done.kept (h : job.Done st s s') {ns : Namespace} {key : DocKey}
    (hkey : job.ns = ns → ∀ op ∈ job.ops, op.key ≠ key) :
    s'.document? ns key = s.document? ns key := by
  by_cases hns : ns = job.ns
  · rw [hns]
    exact h.others key (hkey hns.symm)
  · exact h.document?_elsewhere hns key

/-! ## Executing -/

variable {w w' : Workplace}

/-- A job that succeeds did what its operations say. -/
theorem apply_eq_ok (hs : w.store.WellFormed) (hj : job.WellFormed)
    (h : job.apply st w = (.ok (), w')) : job.Done st w.store w'.store := by
  obtain ⟨s, t, hsame, hplan, hcommit⟩ := Workplace.perform_eq_ok h
  exact (done_of_commit (hsame.wellFormed hs) hj hplan hcommit).of_sameData hsame

/-- A job adds no fault to the store. -/
theorem healthy_apply (h : w.store.Healthy) : (job.apply st w).2.store.Healthy :=
  Workplace.perform_keeps (fun _ t _ hs => hs.commit t) h

/-- A job that fails leaves the data. -/
theorem apply_eq_error {e : ReplicationError} (h : job.apply st w = (.error e, w')) :
    w.store.SameData w'.store :=
  (Workplace.perform_eq_error h).1

/-- A job that succeeds was planned, and it uses up one commit at most. -/
theorem outlasts_of_apply (h : job.apply st w = (.ok (), w')) :
    ∃ t, job.plan st w.store = .ok t ∧ w.store.Outlasts w'.store t.cost ∧
      (t = [] → w'.store.databases = w.store.databases) ∧
      (t ≠ [] → job.ns ∉ w.store.failing) := by
  obtain ⟨s, t, hsame, hplan, hcommit⟩ := Workplace.perform_eq_ok h
  have hplan' : job.plan st w.store = .ok t := (reads_plan job st s w.store
    hsame.databases.symm).trans hplan
  refine ⟨t, hplan', Workplace.outlasts_of_perform (reads_plan job st) hplan' h, ?_, fun ht => ?_⟩
  · rintro rfl
    obtain ⟨happly, -⟩ := Prod.mk.inj (Store.commit_eq_ok hcommit).1
    exact (Except.ok.inj happly).symm.trans hsame.databases
  · rw [← hsame.failing]
    exact not_mem_failing hplan ht (Store.failingTarget?_of_commit hcommit)

theorem failing_apply (h : job.apply st w = (.ok (), w')) :
    w'.store.failing = w.store.failing := by
  obtain ⟨s, t, hsame, -, hcommit⟩ := Workplace.perform_eq_ok h
  exact (Store.commit_eq_ok hcommit).2.trans hsame.failing

/-- Where an operation finds a document or leaves one, its job uses up a commit. -/
theorem outlasts_of_document? (hs : w.store.WellFormed) (hj : job.WellFormed)
    (h : job.apply st w = (.ok (), w')) (hop : op ∈ job.ops) (hnoop : op.effect ≠ .noop)
    (hdoc : w.store.document? job.ns op.key ≠ none ∨ w'.store.document? job.ns op.key ≠ none) :
    job.ns ∉ w.store.failing ∧ w.store.Outlasts w'.store 1 := by
  obtain ⟨t, hplan, houtlasts, hkept, hwritable⟩ := outlasts_of_apply h
  have ht : t ≠ [] := by
    intro ht
    obtain ⟨hremoved, harriving⟩ := (plan_eq_nil hs hj hplan).1 ht
    -- Nothing was written, so the document was there before.
    have hsame : w'.store.document? job.ns op.key = w.store.document? job.ns op.key := by
      rw [Store.document?, Store.collection, hkept ht, Store.document?, Store.collection]
    have hfound : w.store.document? job.ns op.key ≠ none := by
      rwa [hsame, or_self] at hdoc
    have hremoves : op.effect.removesTarget = false := by
      rw [Bool.eq_false_iff]
      intro hremoves
      have hknown : (w.store.collection job.ns).ids.get? op.key ≠ none :=
        (hs job.ns).document?_eq_none.not.1 hfound
      obtain ⟨did, hdid⟩ := Option.ne_none_iff_exists'.1 hknown
      have hmem := mem_removed.2 ⟨op, hop, hremoves, hdid⟩
      rw [hremoved] at hmem
      cases hmem
    cases heff : op.effect with
    | noop => exact hnoop heff
    | insert doc =>
      have hinserts : op.inserts (w.store.document? job.ns op.key) = .ok (some doc) := by
        rw [NetOp.inserts_eq_outcome hnoop, NetOp.outcome, heff]
      have hmem := mem_arriving.2 ⟨op, hop, hinserts⟩
      rw [harriving] at hmem
      cases hmem
    | _ =>
      rw [heff] at hremoves
      cases hremoves
  exact ⟨hwritable ht, Transaction.cost_of_ne_nil ht ▸ houtlasts⟩

/-- A job fails for a missing target only if a required one is missing. -/
theorem exists_missing (hs : w.store.WellFormed) (hj : job.WellFormed) {database collection : String}
    {missing : List Mismatch}
    (h : job.apply st w = (.error (.jobMismatch database collection missing), w')) :
    st = .strict ∧ ∃ op ∈ job.ops, op.requiresMatch = true ∧
      w.store.document? job.ns op.key = none := by
  obtain ⟨-, ⟨s, hsame, hplan⟩ | he⟩ := Workplace.perform_eq_error h
  · have hnil := mismatches_eq_nil (hsame.wellFormed hs) hj
    unfold plan at hplan
    dsimp only at hplan
    split_ifs at hplan with hmissing
    · obtain ⟨hst, hne⟩ := hmissing
      refine ⟨hst, ?_⟩
      by_contra hall
      push Not at hall
      rw [List.isEmpty_iff, hnil] at hne
      exact hne fun op hop hr => by
        rw [hsame.document?]
        exact hall op hop hr
    · unfold writes at hplan
      split at hplan <;> cases hplan
  · cases he

section Success

variable {v : DocKey → Option Json}

/-- What an operation inserts is what it leads to, unless it does nothing. -/
theorem inserts_of_takes (htakes : op.Takes st (s.document? job.ns op.key) (v op.key))
    (hnoop : op.effect ≠ .noop) : op.inserts (s.document? job.ns op.key) = .ok (v op.key) := by
  rw [NetOp.inserts_eq_outcome hnoop]
  exact htakes.outcome

/-- What is left is part of what the operations lead to. -/
theorem left_of_takes (hs : s.WellFormed) (hj : job.WellFormed)
    (htakes : ∀ op ∈ job.ops, op.Takes st (s.document? job.ns op.key) (v op.key))
    (hothers : ∀ key, (∀ op ∈ job.ops, op.key ≠ key) → v key = s.document? job.ns key)
    {key : DocKey} (hk : (job.left s).document? key = some doc) : v key = some doc := by
  by_cases hkey : ∃ op ∈ job.ops, op.key = key
  · obtain ⟨op, hop, rfl⟩ := hkey
    rw [document?_left_op hs hj hop] at hk
    split_ifs at hk with hremoves
    have houtcome := (htakes op hop).outcome
    unfold NetOp.outcome at houtcome
    cases heff : op.effect with
    | noop =>
      rw [heff] at houtcome
      exact (Except.ok.inj houtcome).symm.trans hk
    | insert d =>
      -- An insert finds nothing, so nothing is left.
      rw [(htakes op hop).absent d heff] at hk
      cases hk
    | _ => exact absurd (by rw [heff]; rfl) hremoves
  · push Not at hkey
    rw [document?_left_of_ne hs hkey] at hk
    rw [hothers key hkey, hk]

/-- What is inserted is part of what the operations lead to, and nothing is left in its place. -/
theorem arriving_of_takes (hs : s.WellFormed) (hj : job.WellFormed)
    (htakes : ∀ op ∈ job.ops, op.Takes st (s.document? job.ns op.key) (v op.key))
    (hdoc : doc ∈ job.arriving s) : ∃ key, DocKey.ofDocument doc = .ok key ∧
      (job.left s).document? key = none ∧ v key = some doc := by
  obtain ⟨op, hop, hins⟩ := mem_arriving.1 hdoc
  have hnoop := NetOp.ne_noop_of_inserts hins
  refine ⟨op.key, ofDocument_inserts hs hj hop hins, ?_, ?_⟩
  · rw [document?_left_op hs hj hop]
    split_ifs with hremoves
    · rfl
    · cases heff : op.effect with
      | noop => exact absurd heff hnoop
      | insert d => exact (htakes op hop).absent d heff
      | _ => exact absurd (by rw [heff]; rfl) hremoves
  · exact Except.ok.inj ((inserts_of_takes (htakes op hop) hnoop).symm.trans hins)

/-- A job is planned if all its operations can be applied. -/
theorem exists_plan (hs : s.WellFormed) (hj : job.WellFormed)
    (htakes : ∀ op ∈ job.ops, op.Takes st (s.document? job.ns op.key) (v op.key)) :
    job.plan st s = .ok ((Transaction.delete [] job.ns (job.removed (job.targets s))).insert
      job.ns (job.arriving s)) := by
  refine (plan_eq_ok hs hj).2 ⟨fun hst op hop => (htakes op hop).present hst, ?_, rfl⟩
  intro op hop
  by_cases hnoop : op.effect = .noop
  · refine ⟨none, ?_⟩
    unfold NetOp.inserts NetOp.result
    rw [hnoop]
  · exact ⟨v op.key, inserts_of_takes (htakes op hop) hnoop⟩

/-- A job that writes something has an operation that finds a document or leads to one. -/
theorem exists_document?_of_plan (hs : s.WellFormed) (hj : job.WellFormed)
    (htakes : ∀ op ∈ job.ops, op.Takes st (s.document? job.ns op.key) (v op.key))
    {t : Transaction} (hplan : job.plan st s = .ok t) (ht : t ≠ []) :
    ∃ op ∈ job.ops, s.document? job.ns op.key ≠ none ∨ v op.key ≠ none := by
  obtain ⟨op, hop, hfound | ⟨doc, hins⟩⟩ := exists_written_of_plan hs hj hplan ht
  · exact ⟨op, hop, .inl hfound⟩
  · have hleads := inserts_of_takes (htakes op hop) (NetOp.ne_noop_of_inserts hins)
    rw [hins] at hleads
    refine ⟨op, hop, .inr ?_⟩
    rw [← Except.ok.inj hleads]
    exact Option.some_ne_none doc

/-- What a job writes can be made if its operations all lead to what some map holds and the map
respects the unique indexes. -/
theorem exists_writes (hs : s.WellFormed) (hj : job.WellFormed)
    (htakes : ∀ op ∈ job.ops, op.Takes st (s.document? job.ns op.key) (v op.key))
    (hothers : ∀ key, (∀ op ∈ job.ops, op.key ≠ key) → v key = s.document? job.ns key)
    (hu : Collection.UniqueIn (s.collection job.ns).indexes.values v) :
    ∃ t databases next, job.plan st s = .ok t ∧
      Write.applyAll t s.nextDid s.databases = (.ok databases, next) := by
  obtain ⟨hwf, hindexes, -⟩ := (hs job.ns).foldl_delete (job.removed (job.targets s))
  obtain ⟨c, next, hins⟩ : ∃ c next, Collection.insertAll job.ns (job.arriving s)
      s.nextDid (job.left s) = (.ok c, next) :=
    hwf.exists_insertAll (fun key doc => left_of_takes hs hj htakes hothers)
      (fun doc => arriving_of_takes hs hj htakes) (pairwise_arriving hs hj)
      (by rw [hindexes]; exact hu)
  have hwrites := Write.applyAll_delete_insert s.databases s.nextDid job.ns
    (job.removed (job.targets s)) (job.arriving s)
  have hleft : (job.removed (job.targets s)).foldl Collection.delete
      (s.databases.collection job.ns) = job.left s := rfl
  rw [hleft, hins] at hwrites
  obtain ⟨databases, happly, -⟩ := hwrites
  exact ⟨_, databases, next, exists_plan hs hj htakes, happly⟩

/-- A job whose operations all lead to what some map holds succeeds on a store without faults, if
the map respects the unique indexes. -/
theorem exists_apply (hs : w.store.WellFormed) (hhealthy : w.store.Healthy) (hj : job.WellFormed)
    (htakes : ∀ op ∈ job.ops, op.Takes st (w.store.document? job.ns op.key) (v op.key))
    (hothers : ∀ key, (∀ op ∈ job.ops, op.key ≠ key) → v key = w.store.document? job.ns key)
    (hu : Collection.UniqueIn (w.store.collection job.ns).indexes.values v) :
    ∃ w', job.apply st w = (.ok (), w') := by
  obtain ⟨t, databases, next, hplan, happly⟩ := exists_writes hs hj htakes hothers hu
  obtain ⟨s, hcommit⟩ := Store.commit_of_healthy hhealthy happly
  obtain ⟨w', hw', -⟩ := Workplace.exists_perform hplan hcommit
  exact ⟨w', hw'⟩

/-- It succeeds on other stores, too, if a commit to its collection is let through wherever one of
its operations finds a document or leads to one. -/
theorem exists_apply_of_outlasts (hs : w.store.WellFormed) (hj : job.WellFormed)
    (htakes : ∀ op ∈ job.ops, op.Takes st (w.store.document? job.ns op.key) (v op.key))
    (hothers : ∀ key, (∀ op ∈ job.ops, op.key ≠ key) → v key = w.store.document? job.ns key)
    (hu : Collection.UniqueIn (w.store.collection job.ns).indexes.values v)
    {u : Store} {more : Nat} (hnothing : w.store.Outlasts u more)
    (hcommit : ∀ op ∈ job.ops, w.store.document? job.ns op.key ≠ none ∨ v op.key ≠ none →
      job.ns ∉ w.store.failing ∧ w.store.Outlasts u (more + 1)) :
    ∃ w', job.apply st w = (.ok (), w') ∧ w'.store.Outlasts u more := by
  obtain ⟨t, databases, next, hplan, happly⟩ := exists_writes hs hj htakes hothers hu
  have hmore : w.store.failingTarget? t = none ∧ w.store.Outlasts u (more + t.cost) := by
    by_cases ht : t = []
    · subst ht
      exact ⟨w.store.failingTarget?_nil, hnothing⟩
    · obtain ⟨op, hop, hdoc⟩ := exists_document?_of_plan hs hj htakes hplan ht
      obtain ⟨hwritable, houtlasts⟩ := hcommit op hop hdoc
      exact ⟨failingTarget?_plan hplan hwritable, Transaction.cost_of_ne_nil ht ▸ houtlasts⟩
  obtain ⟨w', hperform, -, -, houtlasts⟩ :=
    hmore.2.exists_perform (reads_plan job st) hplan hmore.1 happly
  exact ⟨w', hperform, houtlasts⟩

end Success

end Replica.Job
