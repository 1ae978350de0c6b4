import Replica.Proofs.Execution.CommandEffect
import Replica.Proofs.Store.Schema

/-!
# Commands behind folded entries

Commands depend on which collections are there and on their indexes, so it matters to them what
entries before them leave in a batch. Folding keeps the documents and the indexes but not all
collections: one that single entries create and empty again is created by none of their batches
(`applyEntries_emptied`). Where every collection that entries create has a document when the next
command comes, commands find the same collections and the same indexes in batches as one by one, and
all entries in batches lead to the same end (`applyEntries_of_stocked`).
-/

namespace Replica

variable {x : Executor} {c : Context} {f : Filters} {st : Strictness} {w w' v v' : Workplace}
  {s t u origin : Store} {ns : Namespace} {g g' : Gathering} {job : Job} {jobs : List Job}
  {e : Entry} {es : List Entry}

/-! ## Which collections are there -/

namespace Store

/-- The second store has every collection of the first one. -/
def Within (s t : Store) : Prop :=
  ∀ ns, s.hasCollection ns = true → t.hasCollection ns = true

theorem Within.trans (h : s.Within t) (h' : t.Within u) : s.Within u := fun ns hns =>
  h' ns (h ns hns)

/-- A collection of the second store that the first one does not have has contents. -/
def Stocks (s t : Store) : Prop :=
  ∀ ns ∈ t.namespaces, s.hasCollection ns = false → t.contents ns ≠ []

instance (s t : Store) : Decidable (s.Stocks t) :=
  inferInstanceAs (Decidable (∀ ns ∈ t.namespaces, _))

/-- The namespaces are those of the collections that are there. -/
theorem mem_namespaces : ns ∈ s.namespaces ↔ s.hasCollection ns = true := by
  obtain ⟨name, collection⟩ := ns
  unfold namespaces hasCollection collection? Databases.collection? Databases.database
  simp only [List.mem_flatMap, Prod.exists, Table.mem_toList, List.mem_map, Table.mem_keys,
    Namespace.mk.injEq]
  constructor
  · rintro ⟨_, db, hdb, _, ⟨c, hc⟩, rfl, rfl⟩
    rw [hdb, Option.getD_some, hc]
    rfl
  · intro hsome
    cases hdb : s.databases.get? name with
    | none =>
      rw [hdb] at hsome
      cases hsome
    | some db =>
      rw [hdb] at hsome
      exact ⟨name, db, hdb, collection, Option.isSome_iff_exists.1 hsome, rfl, rfl⟩

theorem collection_of_some {collection : Collection} (h : s.collection? ns = some collection) :
    s.collection ns = collection :=
  congrArg (fun collection? => collection?.getD .empty) h

/-- A collection with a document is there. -/
theorem hasCollection_of_document? {key : DocKey} (h : s.document? ns key ≠ none) :
    s.hasCollection ns = true := by
  rw [hasCollection, Option.isSome_iff_ne_none]
  exact fun hnone => h (document?_of_missing hnone key)

end Store

/-- A write of single documents leaves every collection in place. -/
theorem Write.hasCollection_applyAll {ws : List Write} {next next' : Did} {s s' : Databases}
    (hws : ∀ w ∈ ws, ¬ w.OnCollections) (h : applyAll ws next s = (.ok s', next'))
    (hns : s.collection? ns ≠ none) : s'.collection? ns ≠ none := by
  induction ws generalizing s next with
  | nil =>
    obtain ⟨⟨rfl⟩, -⟩ := Prod.mk.inj h
    exact hns
  | cons w ws ih =>
    obtain ⟨hw, hws⟩ := List.forall_mem_cons.1 hws
    obtain ⟨mid, last, happ, hrest⟩ := applyAll_cons_eq_ok h
    refine ih hws hrest ?_
    obtain ⟨db, hdb, rfl⟩ := apply_eq_ok happ
    rw [Databases.collection?_setDatabase]
    split_ifs with hdatabase
    · rw [Databases.collection?, hdatabase] at hns
      cases makes_of_onDatabase hdb with
      | deleteMissing => exact hns
      | delete | insert =>
        rw [Table.get?_insert]
        split_ifs
        · exact Option.some_ne_none _
        · exact hns
      | _ => exact absurd trivial hw
    · exact hns

namespace Job

/-- A job leaves every collection in place. -/
theorem keeps_hasCollection (job : Job) (st : Strictness) (ns : Namespace) :
    job.Keeps st fun s => s.hasCollection ns = true := by
  intro s t hplan hns
  rw [Store.hasCollection, Option.isSome_iff_ne_none] at hns ⊢
  rcases hc : s.commit t with ⟨err | ⟨⟩, s'⟩
  · rw [Store.collection?, (Store.commit_eq_error hc).1.databases]
    exact hns
  · refine Write.hasCollection_applyAll (fun write hw => ?_) (Store.commit_eq_ok hc).1 hns
    obtain ⟨dids, rfl⟩ | ⟨docs, rfl⟩ := mem_plan hplan hw <;> exact id

theorem within_apply (h : job.apply st w = (.ok (), w')) : w.store.Within w'.store := by
  intro ns hns
  have hkept := (keeps_hasCollection job st ns).apply hns
  rwa [h] at hkept

theorem within_applyAll (h : applyAll st jobs w = (.ok (), w')) : w.store.Within w'.store := by
  intro ns hns
  have hjobs : ∀ job ∈ jobs, job.Keeps st fun s => s.hasCollection ns = true :=
    fun job _ => keeps_hasCollection job st ns
  have hkept := keeps_applyAll hjobs hns
  rwa [h] at hkept

theorem collection?_apply (h : job.apply st w = (.ok (), w')) (hns : ns ≠ job.ns) :
    w'.store.collection? ns = w.store.collection? ns := by
  have hjob : job.Keeps st fun s => s.collection? ns = w.store.collection? ns := keeps_of_ne hns _
  have hkept := hjob.apply rfl
  rwa [h] at hkept

theorem collection?_applyAll (h : applyAll st jobs w = (.ok (), w')) (hns : ns ∉ jobs.map Job.ns) :
    w'.store.collection? ns = w.store.collection? ns := by
  have hjobs : ∀ job ∈ jobs, job.Keeps st fun s => s.collection? ns = w.store.collection? ns :=
    fun job hjob => keeps_of_ne (by rintro rfl; exact hns (List.mem_map_of_mem hjob)) _
  have hkept := keeps_applyAll hjobs rfl
  rwa [h] at hkept

/-- A collection that a job creates has a document. -/
theorem exists_document?_of_apply (hs : w.store.WellFormed) (hj : job.WellFormed)
    (h : job.apply st w = (.ok (), w')) (hmissing : w.store.collection? job.ns = none)
    (hfound : w'.store.collection? job.ns ≠ none) :
    ∃ key, w'.store.document? job.ns key ≠ none := by
  obtain ⟨s, t, hsame, hplan, hcommit⟩ := Workplace.perform_eq_ok h
  have hwf := hsame.wellFormed hs
  have hmissing' : s.databases.collection? job.ns = none := by
    rwa [hsame.databases]
  by_cases harriving : job.arriving s = []
  · -- There is nothing to remove either, so the job writes nothing.
    have hremoved : job.removed (job.targets s) = [] := by
      rw [List.eq_nil_iff_forall_not_mem]
      intro did hdid
      obtain ⟨op, -, -, hid⟩ := mem_removed.1 hdid
      rw [Store.collection, Databases.collection, hmissing'] at hid
      cases hid
    obtain rfl := (plan_eq_nil hwf hj hplan).2 ⟨hremoved, harriving⟩
    obtain ⟨-, hstore⟩ := Prod.mk.inj hcommit
    rw [← hstore] at hfound
    exact absurd hmissing' hfound
  · obtain ⟨doc, hdoc⟩ := List.exists_mem_of_ne_nil _ harriving
    obtain ⟨hins, -⟩ := insertAll_of_commit hwf hj hplan hcommit
    obtain ⟨hleft, -⟩ := (hwf job.ns).foldl_delete (job.removed (job.targets s))
    obtain ⟨-, -, hnew, -⟩ := hleft.insertAll_eq_ok hins
    obtain ⟨key, -, -, hkey⟩ := hnew doc hdoc
    exact ⟨key, by rw [Store.document?, hkey]; exact Option.some_ne_none doc⟩

/-- A collection that jobs on different collections create has a document. -/
theorem exists_document?_of_applyAll (hs : w.store.WellFormed) (hjobs : Gathering.WellFormed jobs)
    (h : applyAll st jobs w = (.ok (), w')) (hmissing : w.store.collection? ns = none)
    (hfound : w'.store.collection? ns ≠ none) : ∃ key, w'.store.document? ns key ≠ none := by
  induction jobs generalizing w with
  | nil =>
    obtain ⟨-, rfl⟩ := Prod.mk.inj h
    exact absurd hmissing hfound
  | cons job jobs ih =>
    obtain ⟨w₁, happly, hrest⟩ := applyAll_cons_eq_ok.1 h
    have hj := hjobs.jobs job List.mem_cons_self
    by_cases hcreated : w₁.store.collection? ns = none
    · exact ih (apply_eq_ok hs hj happly).wellFormed hjobs.tail hrest hcreated
    · obtain rfl : ns = job.ns := by
        by_contra hns
        rw [collection?_apply happly hns] at hcreated
        exact hcreated hmissing
      -- The other jobs are on other collections.
      have hkept := collection?_applyAll hrest (List.nodup_cons.1 hjobs.nodup).1
      obtain ⟨key, hkey⟩ := exists_document?_of_apply hs hj happly hmissing hcreated
      exact ⟨key, by rwa [Store.document?_congr hkept]⟩

end Job

/-- A command is planned by what the databases hold. -/
theorem Command.reads_plan (command : Command) (ns : Namespace) (f : Filters) (c : Context) :
    Workplace.Reads (command.plan ns f c) := by
  rintro ⟨databases, _, _, _, _⟩ ⟨databases', _, _, _, _⟩ h
  obtain rfl : databases' = databases := h
  rfl

/-- A command that succeeds on one store is performed on every one. -/
theorem Entry.exists_perform_of_applyCommand (h : e.applyCommand f c v = (.ok (), v')) :
    ∃ command : Command, ∀ w, e.applyCommand f c w =
      w.perform (command.plan e.ns f c) ExecutorMetrics.recordCommand := by
  unfold applyCommand at h ⊢
  split at h
  · cases congrArg Prod.fst h
  · rename_i command _ _
    exact ⟨command, fun _ => rfl⟩
  · cases congrArg Prod.fst h

namespace Executor

/-! ## Stretches without commands -/

/-- Entries behind `origin` were gathered: all its collections are there where the gathering began,
and the collections there are those that single entries have led to. -/
structure Grown (st : Strictness) (origin : Store) (g : Gathering) (s t : Store) : Prop
    extends Gathered st g s t where
  /-- The collections of the beginning are there. -/
  kept : origin.Within s
  /-- Single entries have led to all collections that are there. -/
  shown : s.Within t

/-- What was gathered is closed: what its jobs create, single entries have created. -/
theorem Grown.close (hx : x.dispatch = .sequential)
    (h : Grown c.strictness origin g w.store t) :
    ∃ w', x.Runs c g.close w w' ∧ Grown c.strictness origin [] w'.store t := by
  obtain ⟨w', hrun, hnil⟩ := h.toGathered.close hx
  have happly := (runs_close hx).1 hrun
  have hwithin := Job.within_applyAll happly
  refine ⟨w', hrun, hnil, h.kept.trans hwithin, fun ns hns => ?_⟩
  by_cases hformer : w.store.hasCollection ns = true
  · exact h.shown ns hformer
  · rw [Store.hasCollection, Bool.not_eq_true, Option.isSome_eq_false_iff,
      Option.isNone_iff_eq_none] at hformer
    rw [Store.hasCollection, Option.isSome_iff_ne_none] at hns
    obtain ⟨key, hkey⟩ := Job.exists_document?_of_applyAll h.start h.gathering.closeJobs happly
      hformer hns
    have hlead : t.document? ns key = w'.store.document? ns key := hnil.lead ns key
    exact Store.hasCollection_of_document? (hlead ▸ hkey)

theorem Grown.carried (hx : x.dispatch = .sequential) (origin : Store) :
    Carried x c (Grown c.strictness origin) where
  add h hop hadd happly :=
    ⟨h.toGathered.add hop hadd happly, h.kept, h.shown.trans (Job.within_apply happly)⟩
  close h := h.close hx

/-- Two stores show the same documents, collections and indexes, and the first one lets through what
the second one does. -/
structure Matched (st : Strictness) (s t : Store) : Prop extends Gathered st [] s t where
  /-- The collections are the same. -/
  collections : ∀ ns, s.hasCollection ns = t.hasCollection ns

/-- A stretch begins where stores match. -/
theorem Matched.grown (h : Matched st s t) : Grown st t [] s t where
  toGathered := h.toGathered
  kept ns hns := (h.collections ns).trans hns
  shown ns hns := (h.collections ns).symm.trans hns

/-- Stores match where a stretch ends, if all collections that it has created have documents. -/
theorem Grown.matched (h : Grown st origin [] s t) (hstocks : origin.Stocks t) :
    Matched st s t where
  toGathered := h.toGathered
  collections ns := by
    rw [Bool.eq_iff_iff]
    refine ⟨h.shown ns, fun hns => ?_⟩
    cases hformer : origin.hasCollection ns with
    | true => exact h.kept ns hformer
    | false =>
      obtain ⟨key, hkey⟩ := Store.contents_ne_nil.1
        (hstocks ns (Store.mem_namespaces.2 hns) hformer)
      have hlead : t.document? ns key = s.document? ns key := h.lead ns key
      exact Store.hasCollection_of_document? (hlead ▸ hkey)

/-! ## Commands -/

/-- The databases of matching stores are alike. -/
theorem Matched.alike (h : Matched st s t) :
    Databases.Alike t.nextDid s.nextDid t.databases s.databases := by
  intro database name
  let ns : Namespace := ⟨database, name⟩
  have hsome : (s.collection? ns).isSome = (t.collection? ns).isSome := h.collections ns
  have halike : Collection.Alike t.nextDid s.nextDid (t.collection ns) (s.collection ns) :=
    ⟨h.reached ns, h.start ns, fun key => h.lead ns key, (h.indexes ns).symm⟩
  show Option.Rel _ (t.collection? ns) (s.collection? ns)
  cases ht : t.collection? ns with
  | none =>
    rw [ht, Option.isSome_none, Option.isSome_eq_false_iff, Option.isNone_iff_eq_none] at hsome
    rw [hsome]
    exact .none
  | some d =>
    rw [ht, Option.isSome_some, Option.isSome_iff_exists] at hsome
    obtain ⟨d', hs⟩ := hsome
    rw [hs]
    rw [Store.collection_of_some ht, Store.collection_of_some hs] at halike
    exact .some halike

/-- Stores with databases that are alike match, if the first one lets through what the second one
does. -/
theorem Matched.of_alike (houtlasts : s.Outlasts t 0)
    (h : Databases.Alike t.nextDid s.nextDid t.databases s.databases) : Matched st s t := by
  have hcollection : ∀ ns,
      Collection.Alike t.nextDid s.nextDid (t.collection ns) (s.collection ns) :=
    fun ns => (h ns.database).getD ns.collection
  have halike : s.Alike t :=
    ⟨fun ns key => ((hcollection ns).documents key).symm, fun ns => (hcollection ns).indexes.symm⟩
  refine ⟨.of_outlasts (fun ns => (hcollection ns).right) houtlasts
    (fun ns => (hcollection ns).left) halike, fun ns => ?_⟩
  exact (h ns.database).contains ns.collection

/-- A command plans the same on matching stores. -/
theorem Matched.plan (h : Matched st s t) (command : Command) (ns : Namespace) :
    command.plan ns f c s = command.plan ns f c t := by
  have hindexes : s.indexes ns = t.indexes ns := by
    rw [Store.indexes_eq, Store.indexes_eq, h.indexes]
  cases command with
  | dropIndexes index => simp only [Command.plan, hindexes]
  | renameCollection target dropTarget => simp only [Command.plan, h.collections]
  | _ => rfl

/-- A command that succeeds on one of two matching stores succeeds on the other one, and they match
afterwards. -/
theorem Matched.exists_applyCommand (h : Matched st w.store v.store)
    (happly : e.applyCommand f c v = (.ok (), v')) :
    ∃ w', e.applyCommand f c w = (.ok (), w') ∧ Matched st w'.store v'.store := by
  obtain ⟨command, hperforms⟩ := Entry.exists_perform_of_applyCommand happly
  have hreads := Command.reads_plan command e.ns f c
  rw [hperforms] at happly ⊢
  obtain ⟨s, t, hsame, hplan, hcommit⟩ := Workplace.perform_eq_ok happly
  have hplan' : command.plan e.ns f c v.store = .ok t :=
    (hreads s v.store hsame.databases.symm).trans hplan
  have hfailing : v.store.failingTarget? t = none := by
    have hfailing := Store.failingTarget?_of_commit hcommit
    rwa [Store.failingTarget?, hsame.failing] at hfailing
  -- The first store lets the transaction through, and its writes can be made there.
  have houtlasts : w.store.Outlasts v'.store (0 + t.cost) :=
    h.toGathered.outlasts.trans (Workplace.outlasts_of_perform hreads hplan' happly)
  have hwrites : ∀ write ∈ t, write.OnCollections := by
    intro write hw
    cases Command.plans_of_plan hplan write hw <;> trivial
  have halike : Databases.Alike s.nextDid w.store.nextDid s.databases w.store.databases :=
    hsame.databases ▸ h.alike.mono hsame.nextDid
  obtain ⟨hnext, databases, happlyAll, hlast⟩ :=
    halike.exists_applyAll hwrites (Store.commit_eq_ok hcommit).1
  obtain ⟨w', hperform, hdatabases, hnext', houtlasts'⟩ :=
    houtlasts.exists_perform hreads ((h.plan command e.ns).trans hplan')
      (h.toGathered.outlasts.failingTarget? hfailing) happlyAll
  refine ⟨w', hperform, .of_alike houtlasts' ?_⟩
  rw [hdatabases, hnext', hnext]
  exact hlast

/-! ## Entries in batches -/

/-- Wherever a command comes, and at the end, every collection that single entries have created
since `origin`, or since the last command, has contents. -/
def Stocked (x : Executor) (c : Context) : (origin : Store) → List Entry → Workplace → Prop
  | origin, [], v => origin.Stocks v.store
  | origin, e :: es, v =>
    if e.isCommand then
      origin.Stocks v.store ∧
        Stocked x c (x.applyEntries c [e] v).2.store es (x.applyEntries c [e] v).2
    else Stocked x c origin es (x.applyEntries c [e] v).2

instance decidableStocked (x : Executor) (c : Context) :
    (origin : Store) → (es : List Entry) → (v : Workplace) → Decidable (x.Stocked c origin es v)
  | origin, [], v => inferInstanceAs (Decidable (origin.Stocks v.store))
  | origin, e :: es, v =>
    have := decidableStocked x c (x.applyEntries c [e] v).2.store es (x.applyEntries c [e] v).2
    have := decidableStocked x c origin es (x.applyEntries c [e] v).2
    inferInstanceAs (Decidable (ite _ _ _))

/-- If single entries succeed and stock what they create, they can be gathered and run, and the
stores match then. -/
theorem Grown.exists_runs (hx : x.dispatch = .sequential)
    (h : Grown c.strictness origin g w.store v.store) (heach : x.applyEach c es v = (.ok (), v'))
    (hstocked : x.Stocked c origin es v) : ∃ bs w', Batch.gather c g es = .ok bs ∧
      x.Runs c bs w w' ∧ Matched c.strictness w'.store v'.store := by
  induction es generalizing origin g w v with
  | nil =>
    obtain ⟨-, rfl⟩ := Prod.mk.inj heach
    obtain ⟨w', hrun, hnil⟩ := h.close hx
    exact ⟨g.close, w', rfl, hrun, hnil.matched hstocked⟩
  | cons e es ih =>
    obtain ⟨v₁, hfirst, heach⟩ := applyEach_cons_eq_ok.1 heach
    rw [Stocked, hfirst] at hstocked
    cases he : e.isCommand with
    | true =>
      rw [he, if_pos rfl] at hstocked
      obtain ⟨hstocks, hstocked⟩ := hstocked
      -- The gathering is closed, and the command meets stores that match.
      obtain ⟨w₁, hclose, hnil⟩ := h.close hx
      obtain ⟨w₂, happly, hmatched⟩ :=
        (hnil.matched hstocks).exists_applyCommand (applyEntries_command he hfirst)
      obtain ⟨later, w', hlater, hrest, hlast⟩ := ih hmatched.grown heach hstocked
      refine ⟨g.close ++ .command e :: later, w', ?_, ?_, hlast⟩
      · rw [Batch.gather_command he, hlater]
        rfl
      · exact runs_append.2 ⟨w₁, hclose, runs_cons.2 ⟨w₂, happly, hrest⟩⟩
    | false =>
      rw [he, if_neg Bool.false_ne_true] at hstocked
      obtain ⟨bs, g', w₁, hrun, hnext, hgather⟩ := (Grown.carried hx origin).entry hx he h hfirst
      obtain ⟨later, w', hlater, hrest, hlast⟩ := ih hnext heach hstocked
      refine ⟨bs ++ later, w', ?_, runs_append.2 ⟨w₁, hrun, hrest⟩, hlast⟩
      rw [hgather, hlater]
      rfl

/-- Batches are exact for commands, too: on every reachable store, entries that succeed one at a
time succeed in batches and leave the same collections with the same indexes and contents, if single
entries have stocked the collections that they created whenever a command comes and at the end. -/
theorem applyEntries_of_stocked (x : Executor) (c : Context) (es : List Entry) (w w₁ : Workplace)
    (hx : x.dispatch = .sequential) (hreachable : w.store.Reachable)
    (heach : x.applyEach c es w = (.ok (), w₁)) (hstocked : x.Stocked c w.store es w) :
    ∃ w₂, x.applyEntries c es w = (.ok (), w₂) ∧
      ∀ ns, w₂.store.hasCollection ns = w₁.store.hasCollection ns ∧
        w₂.store.indexes ns = w₁.store.indexes ns ∧
        w₂.store.contents ns = w₁.store.contents ns := by
  have hbegin : Matched c.strictness w.store w.store :=
    ⟨.of_outlasts hreachable.wellFormed (.refl w.store) hreachable.wellFormed (.refl w.store),
      fun _ => rfl⟩
  obtain ⟨bs, w₂, hgather, hrun, hlast⟩ := hbegin.grown.exists_runs hx heach hstocked
  refine ⟨w₂, applyEntries_eq_ok.2 ⟨bs, hgather, hrun⟩, fun ns => ⟨hlast.collections ns, ?_, ?_⟩⟩
  · rw [Store.indexes_eq, Store.indexes_eq, hlast.indexes]
  · exact Store.contents_congr fun key => (hlast.lead ns key).symm

/-- Items that are put away: one is gone before, and another one is indexed and archived. -/
def archivedItems : List Entry :=
  let ns : Namespace := ⟨"shop", "items"⟩
  [⟨⟨1, 1⟩, 11, ns, .update (.int 1) (.obj [("$set", .obj [("n", .int 1)])]) true⟩,
    ⟨⟨1, 2⟩, 12, ns, .delete (.int 1)⟩,
    ⟨⟨1, 3⟩, 13, ns, .insert (.obj [("_id", .int 2)])⟩,
    ⟨⟨1, 4⟩, 14, ns, .command (.createIndexes [⟨"n_1", ["n"], true⟩])⟩,
    ⟨⟨1, 5⟩, 15, ns, .command (.renameCollection "archive" false)⟩]

/-- An empty store that refuses the second commit once. -/
def refusingOnce : Workplace := ⟨{ Store.empty with refusals := ⟨1, 1⟩ }, {}, {}⟩

theorem applyEntries_of_stocked_archived : ∃ w₁ w₂ : Workplace,
    applyEach {} .steady archivedItems refusingOnce = (.ok (), w₁) ∧
    applyEntries {} .steady archivedItems refusingOnce = (.ok (), w₂) ∧
    w₁.store.hasCollection ⟨"shop", "archive"⟩ = true ∧
    ∀ ns, w₂.store.hasCollection ns = w₁.store.hasCollection ns ∧
      w₂.store.indexes ns = w₁.store.indexes ns ∧
      w₂.store.contents ns = w₁.store.contents ns := by
  have heach : (applyEach {} .steady archivedItems refusingOnce).1 = .ok () := by decide +kernel
  have hreachable : refusingOnce.store.Reachable := .refuse .empty ⟨1, 1⟩
  obtain ⟨w₂, happly, hsame⟩ := applyEntries_of_stocked {} .steady archivedItems refusingOnce _ rfl
    hreachable (Prod.ext heach rfl) (by decide +kernel)
  exact ⟨_, w₂, Prod.ext heach rfl, happly, by decide +kernel, hsame⟩

/-- An item is upserted and deleted, and then its collection is renamed. -/
def emptiedItems : List Entry :=
  let ns : Namespace := ⟨"shop", "items"⟩
  [⟨⟨1, 1⟩, 11, ns, .update (.int 1) (.obj [("$set", .obj [("n", .int 1)])]) true⟩,
    ⟨⟨1, 2⟩, 12, ns, .delete (.int 1)⟩,
    ⟨⟨1, 3⟩, 13, ns, .command (.renameCollection "archive" false)⟩]

/-- One by one the entries succeed: the upsert creates the collection, and the renaming finds it.
In batches the upsert is folded away, and the renaming finds no collection. -/
theorem applyEntries_emptied :
    (∃ w₁, applyEach {} .steady emptiedItems ⟨.empty, {}, {}⟩ = (.ok (), w₁) ∧
      w₁.store.hasCollection ⟨"shop", "archive"⟩ = true) ∧
    ∃ w₂, applyEntries {} .steady emptiedItems ⟨.empty, {}, {}⟩ =
      (.error (.user "rename source shop.items does not exist"), w₂) ∧
      w₂.store.hasCollection ⟨"shop", "archive"⟩ = false := by
  have heach : (applyEach {} .steady emptiedItems ⟨.empty, {}, {}⟩).1 = .ok () := by
    decide +kernel
  have happly : (applyEntries {} .steady emptiedItems ⟨.empty, {}, {}⟩).1 =
      .error (.user "rename source shop.items does not exist") := by decide +kernel
  exact ⟨⟨_, Prod.ext heach rfl, by decide +kernel⟩, _, Prod.ext happly rfl, by decide +kernel⟩

end Executor

end Replica
