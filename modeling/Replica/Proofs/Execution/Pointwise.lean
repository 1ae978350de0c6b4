import Replica.Proofs.Analysis.Identity
import Replica.Proofs.Execution.Schema

/-!
# The pointwise effect of a job

What comes of a job can be read off the documents at the keys of its operations (`Pointwise`). If a
required target is missing, a strict job reports all such operations; otherwise the first operation
that cannot be applied is reported, and otherwise a document that is inserted twice or meets another
one in a unique index. In none of these cases anything is changed. Otherwise each operation has put
in place of its document the one that it inserts, and nothing else has changed. This holds of every
job whose operations come from analysis (`NetOp.Analyzed`), if no more commits are refused than a
job is done again (`apply_pointwise`).
-/

namespace Replica

/-! ## Operations that come from analysis -/

namespace NetOp

variable {op : NetOp} {x : Option Json} {e : EntryError}

/-- Only modifiers can fail. -/
theorem exists_update_of_inserts (h : op.inserts x = .error e) :
    ∃ modifiers upsert, op.effect = .update modifiers upsert := by
  unfold inserts result at h
  cases heff : op.effect with
  | update modifiers upsert => exact ⟨modifiers, upsert, rfl⟩
  | _ =>
    rw [heff] at h
    cases h

end NetOp

/-- The jobs of analyzed batches have analyzed operations, which do something, on different
documents. -/
theorem Batch.analyzed_of_ofEntries {c : Context} {es : List Entry} {batches : List Batch}
    {jobs : List Job} (h : ofEntries c es = .ok batches) (hjobs : .jobs jobs ∈ batches) :
    ∀ job ∈ jobs, (job.ops.map NetOp.key).Nodup ∧
      ∀ op ∈ job.ops, op.Analyzed ∧ op.effect ≠ .noop := by
  let Gathered (g : Gathering) : Prop :=
    g.WellFormed ∧ ∀ ns key op, g.op? ns key = some op → op.Analyzed
  have hempty : Gathered [] := ⟨Gathering.wellFormed_nil, fun _ _ _ h => nomatch h⟩
  have hadd : ∀ g g' e op, e ∈ es → NetOp.ofEntry? c e = .ok (some op) → Gathered g →
      g.add e.ns op = some g' → Gathered g' := by
    rintro g g' e op - hread ⟨hg, hanalyzed⟩ hadd
    refine ⟨hg.add hadd (NetOp.fresh_of_ofEntry? hread).wellFormed, fun ns key op' hop' => ?_⟩
    obtain ⟨merged, hmerged, hall⟩ := Gathering.op?_add hadd
    rw [hall] at hop'
    split_ifs at hop'
    · obtain rfl := Option.some.inj hop'
      cases hfirst : g.op? e.ns op.key with
      | none =>
        rw [hfirst] at hmerged
        exact hmerged ▸ .read hread
      | some first =>
        rw [hfirst] at hmerged
        exact .folded (hanalyzed _ _ _ hfirst) (.read hread) (hg.of_op? hfirst).2 hmerged
    · exact hanalyzed ns key op' hop'
  have hclose : ∀ g, Gathered g → ∀ b ∈ g.close, ∀ jobs, b = .jobs jobs → ∀ job ∈ jobs,
      (job.ops.map NetOp.key).Nodup ∧ ∀ op ∈ job.ops, op.Analyzed ∧ op.effect ≠ .noop := by
    rintro g ⟨hg, hanalyzed⟩ b hb jobs rfl job hjob
    rw [Gathering.close_eq] at hb
    split_ifs at hb
    · cases hb
    · obtain rfl := Batch.jobs.inj (List.mem_singleton.1 hb)
      refine ⟨(hg.closeJobs.jobs job hjob).nodup, fun op hop => ?_⟩
      have hfound := Gathering.op?_of_mem hg.closeJobs hjob hop
      rw [Gathering.op?_closeJobs hg, Option.filter_eq_some_iff] at hfound
      exact ⟨hanalyzed _ _ _ hfound.1, of_decide_eq_true hfound.2⟩
  exact forall_mem_ofEntries (P := fun b => ∀ jobs, b = .jobs jobs → ∀ job ∈ jobs,
      (job.ops.map NetOp.key).Nodup ∧ ∀ op ∈ job.ops, op.Analyzed ∧ op.effect ≠ .noop)
    (fun _ heq => nomatch heq)
    (fun _ => forall_mem_gather hempty hadd hclose (fun _ _ _ _ heq => nomatch heq) hempty)
    h _ hjobs jobs rfl

/-- A document with a key is refused only because it would be there twice. -/
theorem Collection.exists_duplicateKey {ns : Namespace} {docs : List Json} {next next' : Did}
    {c : Collection} {e : ReplicationError}
    (hdocs : ∀ doc ∈ docs, ∃ key, DocKey.ofDocument doc = .ok key)
    (h : insertAll ns docs next c = (.error e, next')) : ∃ key, e = .duplicateKey ns.text key := by
  induction docs generalizing c next with
  | nil => cases congrArg Prod.fst h
  | cons doc docs ih =>
    obtain ⟨⟨key, hkey⟩, hdocs⟩ := List.forall_mem_cons.1 hdocs
    rw [insertAll] at h
    split at h
    · rename_i hins
      obtain ⟨⟨rfl⟩, -⟩ := Prod.mk.inj h
      rw [insert, hkey] at hins
      dsimp only at hins
      split_ifs at hins
      · exact ⟨_, (Except.error.inj hins).symm⟩
      · split at hins
        · exact ⟨_, (Except.error.inj hins).symm⟩
        · cases hins
    · exact ih hdocs h

namespace Job

variable {st : Strictness} {job : Job} {s s' : Store} {op : NetOp} {w w' : Workplace}
  {t : Transaction} {e : ReplicationError} {key : DocKey}

/-! ## What decides -/

/-- The operations whose required targets are missing, as they are reported. -/
def missing (job : Job) (s : Store) : List Mismatch :=
  (job.ops.filter fun op => op.requiresMatch && (s.document? job.ns op.key).isNone).map
    NetOp.mismatch

/-- Every operation can be applied to what is at its key. -/
def Applicable (job : Job) (s : Store) : Prop :=
  ∀ op ∈ job.ops, ∃ doc?, op.inserts (s.document? job.ns op.key) = .ok doc?

/-- The document at a key afterwards: what the operation on it inserts, or the same as before if
there is none. -/
def after (job : Job) (s : Store) (key : DocKey) : Option Json :=
  match NetOp.on? job.ops key with
  | some op => (op.inserts (s.document? job.ns key)).toOption.join
  | none => s.document? job.ns key

/-- Some operation finds a document or leaves one. -/
def Writes (job : Job) (s : Store) : Prop :=
  ∃ op ∈ job.ops, s.document? job.ns op.key ≠ none ∨ job.after s op.key ≠ none

/-- A document that is inserted is there already, or documents would agree in a unique index. -/
def Clashes (job : Job) (s : Store) : Prop :=
  (∃ op ∈ job.ops, ∃ doc, op.effect = .insert doc ∧ s.document? job.ns op.key ≠ none) ∨
    ¬ Collection.UniqueIn (s.collection job.ns).indexes.values (job.after s)

/-- What comes of a job that takes a store from `s` to `s'`. At most one of the cases applies; each
one assumes that those before it do not. -/
inductive Pointwise (st : Strictness) (job : Job) (s s' : Store) :
    Except ReplicationError Unit → Prop
  /-- The job is strict, and required targets are missing. -/
  | mismatch (strict : st = .strict) (missing : job.missing s ≠ [])
      (kept : s'.databases = s.databases) : Pointwise st job s s'
        (.error (.jobMismatch job.ns.database job.ns.collection (job.missing s)))
  /-- The modifiers of an operation cannot be applied, and it is the first such operation. -/
  | inapplicable (found : st = .strict → job.missing s = []) {earlier later : List NetOp}
      {op : NetOp} {modifiers : List Modifier} {upsert : Bool} {err : EntryError}
      (split : job.ops = earlier ++ op :: later) (update : op.effect = .update modifiers upsert)
      (applicable : ∀ op ∈ earlier, ∃ doc?, op.inserts (s.document? job.ns op.key) = .ok doc?)
      (fails : op.inserts (s.document? job.ns op.key) = .error err)
      (kept : s'.databases = s.databases) : Pointwise st job s s' (.error (.entry err))
  /-- Something is to be written, and commits to the collection are told to fail. -/
  | unwritable (found : st = .strict → job.missing s = []) (applicable : job.Applicable s)
      (writes : job.Writes s) (failing : job.ns ∈ s.failing) (kept : s'.databases = s.databases) :
      Pointwise st job s s' (.error (.user ("injected write failure on " ++ job.ns.text)))
  /-- A document would be there twice. -/
  | duplicate (found : st = .strict → job.missing s = []) (applicable : job.Applicable s)
      (writable : job.ns ∉ s.failing) (clashes : job.Clashes s) (key : String)
      (kept : s'.databases = s.databases) :
      Pointwise st job s s' (.error (.duplicateKey job.ns.text key))
  /-- Every operation has put what it inserts in place of what was at its key. -/
  | done (found : st = .strict → job.missing s = []) (applicable : job.Applicable s)
      (writable : job.Writes s → job.ns ∉ s.failing) (apart : ¬ job.Clashes s)
      (wellFormed : s'.WellFormed) (documents : ∀ key, s'.document? job.ns key = job.after s key)
      (indexes : s'.indexes job.ns = s.indexes job.ns)
      (created : s'.hasCollection job.ns = true ↔
        s.hasCollection job.ns = true ∨ ∃ op ∈ job.ops, job.after s op.key ≠ none)
      (elsewhere : ∀ ns, ns ≠ job.ns → s'.collection? ns = s.collection? ns) :
      Pointwise st job s s' (.ok ())

/-! ## Planning -/

/-- The targets that are not found are those that are missing. -/
theorem mismatches_targets (hs : s.WellFormed) (hj : job.WellFormed) :
    job.mismatches (job.targets s) = job.missing s := by
  unfold mismatches missing
  refine congrArg _ (List.filter_congr fun op hop => ?_)
  cases hr : op.requiresMatch with
  | false => rfl
  | true =>
    rw [Table.contains_eq, isSome_targets hs hop (needsTarget_of_requiresMatch (hj.ops op hop) hr)]
    cases s.document? job.ns op.key <;> rfl

/-- A job whose planning fails reports what is missing, or the first operation that cannot be
applied. -/
theorem pointwise_of_plan_eq_error (hs : s.WellFormed) (hj : job.WellFormed)
    (hplan : job.plan st s = .error e) (hkept : s'.databases = s.databases) :
    job.Pointwise st s s' (.error e) := by
  unfold plan at hplan
  dsimp only at hplan
  rw [mismatches_targets hs hj] at hplan
  split_ifs at hplan with hmissing
  · obtain rfl := Except.error.inj hplan
    obtain ⟨hst, hne⟩ := hmissing
    exact .mismatch hst (by rwa [List.isEmpty_iff] at hne) hkept
  · have hfound : st = .strict → job.missing s = [] := by
      intro hst
      by_contra hne
      exact hmissing ⟨hst, by rwa [List.isEmpty_iff]⟩
    unfold writes at hplan
    rw [inserted_eq hs] at hplan
    cases hmap : job.ops.mapM fun op : NetOp => op.inserts (s.document? job.ns op.key) with
    | ok docs =>
      rw [hmap] at hplan
      cases hplan
    | error err =>
      rw [hmap] at hplan
      obtain rfl := Except.error.inj hplan
      obtain ⟨earlier, op, later, hsplit, hearlier, hfail⟩ := first_of_mapM_eq_error hmap
      obtain ⟨modifiers, upsert, heff⟩ := NetOp.exists_update_of_inserts hfail
      exact .inapplicable hfound hsplit heff hearlier hfail hkept

/-- A job is planned only if nothing is missing and every operation can be applied. -/
theorem found_and_applicable_of_plan (hs : s.WellFormed) (hj : job.WellFormed)
    (hplan : job.plan st s = .ok t) :
    (st = .strict → job.missing s = []) ∧ job.Applicable s := by
  obtain ⟨hpresent, happlicable, -⟩ := (plan_eq_ok hs hj).1 hplan
  refine ⟨fun hst => ?_, happlicable⟩
  rw [← mismatches_targets hs hj]
  exact (mismatches_eq_nil hs hj).2 (hpresent hst)

/-! ## What the operations lead to -/

theorem after_op (hj : job.WellFormed) (hop : op ∈ job.ops) :
    job.after s op.key = (op.inserts (s.document? job.ns op.key)).toOption.join := by
  rw [after, NetOp.on?_of_mem hj.nodup hop]

theorem after_of_ne (hkey : ∀ op ∈ job.ops, op.key ≠ key) :
    job.after s key = s.document? job.ns key := by
  rw [after, NetOp.on?_eq_none.2 hkey]

/-- An operation that inserts something leaves it. -/
theorem after_eq_of_inserts (hj : job.WellFormed) (hop : op ∈ job.ops) {doc? : Option Json}
    (h : op.inserts (s.document? job.ns op.key) = .ok doc?) : job.after s op.key = doc? := by
  rw [after_op hj hop, h]
  rfl

/-- If nothing clashes, the operations of a planned job lead to what they insert. -/
theorem takes_after (hs : s.WellFormed) (hj : job.WellFormed)
    (hnoop : ∀ op ∈ job.ops, op.effect ≠ .noop) (hplan : job.plan st s = .ok t)
    (hclash : ¬ job.Clashes s) (hop : op ∈ job.ops) :
    op.Takes st (s.document? job.ns op.key) (job.after s op.key) := by
  obtain ⟨hpresent, happlicable, -⟩ := (plan_eq_ok hs hj).1 hplan
  refine ⟨fun hst => hpresent hst op hop, fun doc heff => ?_, ?_⟩
  · by_contra hfound
    exact hclash (.inl ⟨op, hop, doc, heff, hfound⟩)
  · obtain ⟨doc?, hins⟩ := happlicable op hop
    rw [after_eq_of_inserts hj hop hins, ← NetOp.inserts_eq_outcome (hnoop op hop), hins]

/-- If nothing clashes, what a planned job writes can be made. -/
theorem applyAll_of_not_clashes (hs : s.WellFormed) (hj : job.WellFormed)
    (hnoop : ∀ op ∈ job.ops, op.effect ≠ .noop) (hplan : job.plan st s = .ok t)
    (hclash : ¬ job.Clashes s) :
    ∃ databases next, Write.applyAll t s.nextDid s.databases = (.ok databases, next) := by
  obtain ⟨t', databases, next, hplan', happly⟩ :=
    exists_writes hs hj (fun op => takes_after hs hj hnoop hplan hclash)
      (fun key => after_of_ne) (not_not.1 fun hu => hclash (.inr hu))
  rw [hplan, Except.ok.injEq] at hplan'
  exact ⟨databases, next, hplan' ▸ happly⟩

/-- A planned job whose writes cannot be made would have a document there twice. -/
theorem clashes_of_applyAll (hs : s.WellFormed) (hj : job.WellFormed)
    (hnoop : ∀ op ∈ job.ops, op.effect ≠ .noop) (hplan : job.plan st s = .ok t)
    (h : (Write.applyAll t s.nextDid s.databases).1 = .error e) :
    job.Clashes s ∧ ∃ key, e = .duplicateKey job.ns.text key := by
  constructor
  · by_contra hclash
    obtain ⟨databases, next, happly⟩ := applyAll_of_not_clashes hs hj hnoop hplan hclash
    rw [happly] at h
    cases h
  · obtain ⟨-, -, rfl⟩ := (plan_eq_ok hs hj).1 hplan
    have hkeyed : ∀ doc ∈ job.arriving s, ∃ key, DocKey.ofDocument doc = .ok key := by
      intro doc hdoc
      obtain ⟨op, hop, hins⟩ := mem_arriving.1 hdoc
      exact ⟨op.key, ofDocument_inserts hs hj hop hins⟩
    have hwrites := Write.applyAll_delete_insert s.databases s.nextDid job.ns
      (job.removed (job.targets s)) (job.arriving s)
    rcases hins : Collection.insertAll job.ns (job.arriving s) s.nextDid
      ((job.removed (job.targets s)).foldl Collection.delete (s.databases.collection job.ns)) with
      ⟨e' | c, next⟩
    · rw [hins] at hwrites
      rw [hwrites] at h
      obtain rfl := Except.error.inj h
      exact Collection.exists_duplicateKey hkeyed hins
    · rw [hins] at hwrites
      obtain ⟨databases, happly, -⟩ := hwrites
      rw [happly] at h
      cases h

/-- A planned job with writes has an operation that finds a document or leaves one. -/
theorem writes_of_plan (hs : s.WellFormed) (hj : job.WellFormed) (hplan : job.plan st s = .ok t)
    (ht : t ≠ []) : job.Writes s := by
  obtain ⟨op, hop, hfound | ⟨doc, hins⟩⟩ := exists_written_of_plan hs hj hplan ht
  · exact ⟨op, hop, .inl hfound⟩
  · refine ⟨op, hop, .inr ?_⟩
    rw [after_eq_of_inserts hj hop hins]
    exact Option.some_ne_none doc

/-! ## Executing -/

/-- Where a job was done, each key of its collection has what its operation inserts. -/
theorem Done.document?_eq_after (hj : job.WellFormed)
    (hnoop : ∀ op ∈ job.ops, op.effect ≠ .noop) (h : job.Done st s s') (key : DocKey) :
    s'.document? job.ns key = job.after s key := by
  by_cases hkey : ∃ op ∈ job.ops, op.key = key
  · obtain ⟨op, hop, rfl⟩ := hkey
    have houtcome := (h.takes op hop).outcome
    rw [← NetOp.inserts_eq_outcome (hnoop op hop)] at houtcome
    exact (after_eq_of_inserts hj hop houtcome).symm
  · push Not at hkey
    rw [h.others key hkey, after_of_ne hkey]

/-- Where a job was done, nothing clashed. -/
theorem Done.not_clashes (hj : job.WellFormed) (hnoop : ∀ op ∈ job.ops, op.effect ≠ .noop)
    (h : job.Done st s s') : ¬ job.Clashes s := by
  rintro (⟨op, hop, doc, heff, hfound⟩ | hu)
  · exact hfound ((h.takes op hop).absent doc heff)
  · refine hu ?_
    have hunique := (h.wellFormed job.ns).unique
    rw [h.indexes] at hunique
    have hafter : (s'.collection job.ns).document? = job.after s :=
      funext fun key => h.document?_eq_after hj hnoop key
    rwa [hafter] at hunique

/-- The collection of a job is there afterwards if it was there before or a document arrived. -/
theorem Done.hasCollection_iff (hj : job.WellFormed) (hnoop : ∀ op ∈ job.ops, op.effect ≠ .noop)
    (hs : w.store.WellFormed) (hdone : job.Done st w.store w'.store)
    (h : job.apply st w = (.ok (), w')) :
    w'.store.hasCollection job.ns = true ↔ w.store.hasCollection job.ns = true ∨
      ∃ op ∈ job.ops, job.after w.store op.key ≠ none := by
  constructor
  · intro hfound
    by_contra hneither
    push Not at hneither
    obtain ⟨hmissing, hnone⟩ := hneither
    rw [Store.hasCollection, ne_eq, Option.not_isSome_iff_eq_none] at hmissing
    rw [Store.hasCollection, Option.isSome_iff_ne_none] at hfound
    obtain ⟨key, hkey⟩ := exists_document?_of_apply hs hj h hmissing hfound
    rw [hdone.document?_eq_after hj hnoop] at hkey
    -- No document was there before, so an operation left the one that is there.
    by_cases hop : ∃ op ∈ job.ops, op.key = key
    · obtain ⟨op, hop, rfl⟩ := hop
      exact hkey (hnone op hop)
    · push Not at hop
      rw [after_of_ne hop] at hkey
      exact hkey (Store.document?_of_missing hmissing key)
  · rintro (hfound | ⟨op, hop, hsome⟩)
    · exact within_apply h _ hfound
    · rw [← hdone.document?_eq_after hj hnoop] at hsome
      exact Store.hasCollection_of_document? hsome

/-- A job that succeeds has its pointwise effect. -/
theorem pointwise_of_apply_eq_ok (hs : w.store.WellFormed) (hj : job.WellFormed)
    (hnoop : ∀ op ∈ job.ops, op.effect ≠ .noop) (h : job.apply st w = (.ok (), w')) :
    job.Pointwise st w.store w'.store (.ok ()) := by
  have hdone := apply_eq_ok hs hj h
  obtain ⟨t, hplan, -, -, -⟩ := outlasts_of_apply h
  obtain ⟨hfound, happlicable⟩ := found_and_applicable_of_plan hs hj hplan
  refine .done hfound happlicable ?_ (hdone.not_clashes hj hnoop) hdone.wellFormed
    (hdone.document?_eq_after hj hnoop) ?_ (hdone.hasCollection_iff hj hnoop hs h)
    fun ns hns => collection?_apply h hns
  · rintro ⟨op, hop, hdoc⟩
    rw [← hdone.document?_eq_after hj hnoop] at hdoc
    exact (outlasts_of_document? hs hj h hop (hnoop op hop) hdoc).1
  · rw [Store.indexes_eq, Store.indexes_eq, hdone.indexes]

/-- The collection to which a job cannot be written is its own. -/
theorem eq_of_failingTarget? {ns : Namespace} (hplan : job.plan st s = .ok t)
    (h : s'.failingTarget? t = some ns) : ns = job.ns ∧ ns ∈ s'.failing := by
  refine ⟨?_, List.mem_of_find?_eq_some h⟩
  have htouched := List.find?_some (p := fun ns => t.any fun write => write.touches ns) h
  obtain ⟨write, hw, htouches⟩ := List.any_eq_true.1 htouched
  obtain ⟨dids, rfl⟩ | ⟨docs, rfl⟩ := mem_plan hplan hw
  · exact (beq_iff_eq.1 htouches).symm
  · exact (beq_iff_eq.1 htouches).symm

/-- A planned job that fails meets a collection that cannot be written to or a document that would
be there twice, unless more commits are refused than it is done again. -/
theorem pointwise_of_apply_eq_error (hs : w.store.WellFormed) (hj : job.WellFormed)
    (hnoop : ∀ op ∈ job.ops, op.effect ≠ .noop)
    (hrefused : w.store.refusals.refused ≤ Workplace.retries)
    (hplan : job.plan st w.store = .ok t) (h : job.apply st w = (.error e, w')) :
    job.Pointwise st w.store w'.store (.error e) := by
  have hkept := (apply_eq_error h).databases
  obtain ⟨hfound, happlicable⟩ := found_and_applicable_of_plan hs hj hplan
  have ht : t ≠ [] := by
    rintro rfl
    obtain ⟨w₁, happly, -⟩ : ∃ w₁, job.apply st w = (.ok (), w₁) ∧ w₁.store = w.store :=
      Workplace.exists_perform hplan rfl
    rw [h] at happly
    cases congrArg Prod.fst happly
  obtain ⟨r, hnext, hresult⟩ : ∃ r : Refusals, r.next.1 = false ∧
      (w.perform (job.plan st) fun m => m.recordJob job.ops.length).1 =
        ({ w.store with refusals := r }.commit t).1 :=
    (Workplace.perform_of_plan (reads_plan job st) ht hplan hrefused).imp
      fun _ hr => ⟨hr.1, hr.2.1⟩
  have hcommit : ({ w.store with refusals := r }.commit t).1 = .error e := by
    rw [← hresult]
    exact congrArg Prod.fst h
  obtain ⟨ns, hns, rfl⟩ | ⟨hfailing, happly⟩ := Store.commit_fails hnext hcommit
  · obtain ⟨rfl, hmem⟩ := eq_of_failingTarget? hplan hns
    exact .unwritable hfound happlicable (writes_of_plan hs hj hplan ht) hmem hkept
  · obtain ⟨hclash, key, rfl⟩ := clashes_of_applyAll hs hj hnoop hplan happly
    exact .duplicate hfound happlicable (not_mem_failing hplan ht hfailing) hclash key hkept

/-- A job of analyzed operations on different documents has exactly its pointwise effect, whether it
is strict or not, if one commit is to be refused at most. -/
theorem apply_pointwise (st : Strictness) (hs : w.store.Reachable)
    (hrefused : w.store.refusals.refused ≤ 1)
    (hops : ∀ op ∈ job.ops, op.Analyzed ∧ op.effect ≠ .noop)
    (hkeys : (job.ops.map NetOp.key).Nodup) :
    job.Pointwise st w.store (job.apply st w).2.store (job.apply st w).1 := by
  have hwf := hs.wellFormed
  have hj : job.WellFormed := ⟨hkeys, fun op hop => (hops op hop).1.wellFormed⟩
  have hnoop : ∀ op ∈ job.ops, op.effect ≠ .noop := fun op hop => (hops op hop).2
  rcases h : job.apply st w with ⟨e | ⟨⟩, w'⟩
  · cases hplan : job.plan st w.store with
    | ok t => exact pointwise_of_apply_eq_error hwf hj hnoop hrefused hplan h
    | error e' =>
      -- No transaction was planned, so the failure of the plan is that of the job.
      have hpointwise := pointwise_of_plan_eq_error hwf hj hplan (apply_eq_error h).databases
      have he' : ∀ reason, e' ≠ .rollback reason := by
        rintro reason rfl
        cases hpointwise
      have hfail : (job.apply st w).1 = .error e' := Workplace.perform_of_plan_error hplan he'
      rw [h] at hfail
      obtain rfl := Except.error.inj hfail
      exact hpointwise
  · exact pointwise_of_apply_eq_ok hwf hj hnoop h

/-- A shelf with one book; the next commit is to be refused. -/
def shelfStore : Store :=
  { (Store.empty.commit [.insert ⟨"library", "shelf"⟩
      [.obj [("_id", .int 1), ("copies", .int 2)]]]).2 with refusals := ⟨0, 1⟩ }

/-- A copy of the book is lent, and another book arrives. -/
def shelfJob : Job :=
  ⟨⟨"library", "shelf"⟩, [⟨.int 1, .update [.set "copies" (.int 1)] false, true⟩,
    ⟨.int 2, .insert (.obj [("_id", .int 2)]), false⟩]⟩

theorem apply_pointwise_shelf :
    (shelfJob.apply .strict ⟨shelfStore, {}, {}⟩).1 = .ok () ∧
    shelfJob.Pointwise .strict shelfStore (shelfJob.apply .strict ⟨shelfStore, {}, {}⟩).2.store
      (.ok ()) := by
  have hmembers : "_id" < "copies" := by decide +kernel
  have hs : shelfStore.Reachable := by
    refine (Store.Reachable.empty.commit _ fun write hw => ?_).refuse ⟨0, 1⟩
    obtain rfl := List.mem_singleton.1 hw
    intro doc hdoc
    obtain rfl := List.mem_singleton.1 hdoc
    exact ⟨by simpa [Assoc.Ascending] using hmembers, trivial, trivial, trivial⟩
  have hupdate : NetOp.ofEntry? {} ⟨⟨1, 1⟩, 11, ⟨"library", "shelf"⟩, .update (.int 1)
      (.obj [("$set", .obj [("copies", .int 1)])]) false⟩ =
        .ok (some ⟨.int 1, .update [.set "copies" (.int 1)] false, true⟩) := by decide +kernel
  have hinsert : NetOp.ofEntry? {} ⟨⟨1, 2⟩, 12, ⟨"library", "shelf"⟩,
      .insert (.obj [("_id", .int 2)])⟩ =
        .ok (some ⟨.int 2, .insert (.obj [("_id", .int 2)]), false⟩) := by decide +kernel
  have hok : (shelfJob.apply .strict ⟨shelfStore, {}, {}⟩).1 = .ok () := by decide +kernel
  have hops : ∀ op ∈ shelfJob.ops, op.Analyzed ∧ op.effect ≠ .noop :=
    List.forall_mem_cons.2 ⟨⟨.read hupdate, by decide⟩,
      List.forall_mem_singleton.2 ⟨.read hinsert, by decide⟩⟩
  have hkeys : (shelfJob.ops.map NetOp.key).Nodup := by decide +kernel
  have hrefused : shelfStore.refusals.refused ≤ 1 := by decide
  have hpointwise : shelfJob.Pointwise .strict (⟨shelfStore, {}, {}⟩ : Workplace).store
      (shelfJob.apply .strict ⟨shelfStore, {}, {}⟩).2.store
      (shelfJob.apply .strict ⟨shelfStore, {}, {}⟩).1 :=
    apply_pointwise .strict hs hrefused hops hkeys
  rw [hok] at hpointwise
  exact ⟨hok, hpointwise⟩

end Job

end Replica
