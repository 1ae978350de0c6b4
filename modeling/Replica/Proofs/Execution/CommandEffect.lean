import Replica.Proofs.Execution.Commits
import Replica.Proofs.Store.Layout

/-!
# The effect of a command

An entry concerns the collections that it may create, change or remove, and leaves all others
(`Executor.collection?_runs`). Of a command that succeeds it is known what becomes of every
document: commands that drop collections leave none there, and all others leave the documents where
they are (`Entry.document?_of_applyCommand`), except that a renaming moves them all at once
(`Entry.collection?_of_renaming`).
-/

namespace Replica

variable {x : Executor} {c : Context} {f : Filters} {w w' : Workplace} {ns : Namespace}

namespace Entry

variable {e : Entry}

/-- Whether a collection may come to be, change or go by an entry. -/
def concerns (e : Entry) (ns : Namespace) : Bool :=
  match e.action with
  | .noop => false
  | .command .dropDatabase => ns.database == e.ns.database
  | .command (.renameCollection target _) => ns == e.ns || ns == e.ns.sibling target
  | _ => ns == e.ns

/-- The collection that an entry renames, and what it becomes. -/
def renaming? (e : Entry) : Option (Namespace × Namespace) :=
  match e.action with
  | .command (.renameCollection target _) => some (e.ns, e.ns.sibling target)
  | _ => none

/-- Whether an entry drops a collection. -/
def drops (e : Entry) (ns : Namespace) : Bool :=
  match e.action with
  | .command .drop => ns == e.ns
  | .command .dropDatabase => ns.database == e.ns.database
  | _ => false

/-- What an entry drops concerns it. -/
theorem drops_eq_false (h : e.concerns ns = false) : e.drops ns = false := by
  unfold drops
  split
  · rename_i haction
    rwa [concerns, haction] at h
  · rename_i haction
    rwa [concerns, haction] at h
  · rfl

/-- An entry with an operation concerns the collection that it names. -/
theorem concerns_of_ofEntry? {op : NetOp} (h : NetOp.ofEntry? c e = .ok (some op)) :
    e.concerns e.ns = true := by
  unfold concerns
  cases NetOp.readOff_of_ofEntry? h with
  | insert action | replace action | modify action | delete action =>
    rw [action]
    exact beq_self_eq_true _

/-! ## Collections that are not concerned -/

/-- The writes of a command spare the collections that it does not concern. -/
theorem spares_of_plan {command : Command} (haction : e.action = .command command)
    (hns : e.concerns ns = false) {s : Store} {t : Transaction}
    (h : command.plan e.ns f c s = .ok t) : ∀ write ∈ t, write.Spares ns := by
  intro write hw
  unfold concerns at hns
  rw [haction] at hns
  cases Command.plans_of_plan h write hw with
  | rename target dropTarget =>
    obtain ⟨hsource, htarget⟩ := Bool.or_eq_false_iff.1 hns
    exact ⟨rfl, beq_eq_false_iff_ne.1 hsource, beq_eq_false_iff_ne.1 htarget⟩
  | _ => exact beq_eq_false_iff_ne.1 hns

theorem keeps_of_not_concerns (hns : e.concerns ns = false) (collection? : Option Collection) :
    e.Keeps f c fun s => s.collection? ns = collection? :=
  fun _ _ _ haction hplan =>
    (Store.collection?_commit (spares_of_plan haction hns hplan)).trans

/-! ## Commands that succeed -/

/-- A command that succeeds commits what it plans on the same data. -/
theorem applyCommand_eq_ok (h : e.applyCommand f c w = (.ok (), w')) : ∃ command s t,
    e.action = .command command ∧ w.store.SameData s ∧ command.plan e.ns f c s = .ok t ∧
      Write.applyAll t s.nextDid s.databases = (.ok w'.store.databases, w'.store.nextDid) := by
  unfold applyCommand at h
  split at h
  · cases congrArg Prod.fst h
  · rename_i command _ haction
    obtain ⟨s, t, hsame, hplan, hcommit⟩ := Workplace.perform_eq_ok h
    exact ⟨command, s, t, haction, hsame, hplan, (Store.commit_eq_ok hcommit).1⟩
  · cases congrArg Prod.fst h

/-- A command that does not rename leaves the documents of the collections that it does not drop. -/
theorem document?_of_applyCommand (hrenames : e.renaming? = none)
    (h : e.applyCommand f c w = (.ok (), w')) (ns : Namespace) (key : DocKey) :
    w'.store.document? ns key = if e.drops ns then none else w.store.document? ns key := by
  obtain ⟨command, s, t, haction, hsame, hplan, happly⟩ := applyCommand_eq_ok h
  rw [← hsame.document? ns key]
  unfold renaming? at hrenames
  unfold drops
  rw [haction] at hrenames ⊢
  cases command with
  | drop =>
    obtain rfl := Except.ok.inj hplan
    obtain ⟨mid, last, happ, hnil⟩ := Write.applyAll_cons_eq_ok happly
    obtain ⟨⟨rfl⟩, -⟩ := Prod.mk.inj hnil
    have hall := Write.collection?_dropCollection happ ns
    simp only [beq_iff_eq]
    split_ifs at hall ⊢
    · exact Store.document?_of_missing hall key
    · exact Store.document?_congr (s := s) hall key
  | dropDatabase =>
    obtain rfl := Except.ok.inj hplan
    obtain ⟨mid, last, happ, hnil⟩ := Write.applyAll_cons_eq_ok happly
    obtain ⟨⟨rfl⟩, -⟩ := Prod.mk.inj hnil
    have hall := Write.collection?_dropDatabase happ ns
    simp only [beq_iff_eq]
    split_ifs at hall ⊢
    · exact Store.document?_of_missing hall key
    · exact Store.document?_congr (s := s) hall key
  | renameCollection target dropTarget => cases hrenames
  | create | createIndexes indexes | dropIndexes index | unsupported name =>
    refine Write.document?_applyAll (fun write hw => ?_) happly ns key
    cases Command.plans_of_plan hplan write hw <;> trivial

/-- A renaming that succeeds moves the collection, which was somewhere else, unless it is applied
again and finds nothing to move. -/
theorem collection?_of_renaming {source target : Namespace}
    (hrenames : e.renaming? = some (source, target)) (h : e.applyCommand f c w = (.ok (), w')) :
    (c.reapplying = true ∧ w.store.collection? source = none ∧
      w'.store.databases = w.store.databases) ∨
    (source ≠ target ∧ (c.reapplying = false ∨ w.store.collection? source ≠ none) ∧
      ∀ ns, w'.store.collection? ns = if ns = target then w.store.collection? source
        else if ns = source then none else w.store.collection? ns) := by
  obtain ⟨command, s, t, haction, hsame, hplan, happly⟩ := applyCommand_eq_ok h
  have hcollection : ∀ ns, s.collection? ns = w.store.collection? ns := fun ns => by
    rw [Store.collection?, hsame.databases, Store.collection?]
  unfold renaming? at hrenames
  rw [haction] at hrenames
  cases command with
  | renameCollection name dropTarget =>
    obtain ⟨rfl, rfl⟩ := Prod.mk.inj (Option.some.inj hrenames)
    dsimp only [Command.plan] at hplan
    unfold Store.hasCollection Transaction.rename at hplan
    rw [hcollection] at hplan
    split_ifs at hplan with hskip hsibling
    -- There is nothing to move, and that is passed over.
    · left
      obtain rfl := Except.ok.inj hplan
      rw [Bool.and_eq_true, Bool.not_eq_true', Option.isSome_eq_false_iff,
        Option.isNone_iff_eq_none] at hskip
      have hdatabases : s.databases = w'.store.databases := Except.ok.inj (Prod.mk.inj happly).1
      exact ⟨hskip.2, hskip.1, hdatabases.symm.trans hsame.databases⟩
    -- The transaction consists of the renaming alone.
    · right
      obtain rfl := Except.ok.inj hplan
      obtain ⟨mid, last, happ, hnil⟩ := Write.applyAll_cons_eq_ok happly
      obtain ⟨⟨rfl⟩, -⟩ := Prod.mk.inj hnil
      have hsame : e.ns.database = (e.ns.sibling name).database := rfl
      obtain ⟨hne, hall⟩ := Write.collection?_rename hsame happ
      refine ⟨hne, ?_, fun ns => ?_⟩
      · by_contra hboth
        push Not at hboth
        refine hskip ?_
        rw [hboth.2]
        simpa using hboth.1
      · rw [← hcollection, ← hcollection]
        exact hall ns
  | _ => cases hrenames

end Entry

/-! ## Batches -/

/-- The batch concerns other collections. -/
def Batch.Spares (ns : Namespace) : Batch → Prop
  | .jobs js => ns ∉ js.map Job.ns
  | .command e => e.concerns ns = false
  | .noop => True

/-- A job leaves the collections that it is not on. -/
theorem Job.keeps_of_ne {job : Job} {st : Strictness} (hns : ns ≠ job.ns)
    (collection? : Option Collection) : job.Keeps st fun s => s.collection? ns = collection? := by
  intro s t hplan hs
  refine (Store.collection?_commit fun write hw => ?_).trans hs
  rcases Job.mem_plan hplan hw with ⟨dids, rfl⟩ | ⟨docs, rfl⟩ <;> exact hns

/-- A batch leaves the collections that it spares. -/
theorem Batch.Spares.keeps {b : Batch} (h : b.Spares ns) (collection? : Option Collection) :
    b.Keeps x c fun s => s.collection? ns = collection? := by
  cases b with
  | jobs jobs =>
    intro part hpart
    refine Job.keeps_of_ne (fun heq => h ?_) _
    rw [heq]
    exact hpart
  | command e => exact Entry.keeps_of_not_concerns h _
  | noop => trivial

/-- Batches leave the collections that they spare. -/
theorem Executor.collection?_runs {bs : List Batch} (hbs : ∀ b ∈ bs, b.Spares ns)
    (h : x.Runs c bs w w') : w'.store.collection? ns = w.store.collection? ns :=
  keeps_runs (P := fun s => s.collection? ns = w.store.collection? ns)
    (fun b hb => (hbs b hb).keeps _) rfl h

/-- Entries leave the collections that they do not concern. -/
theorem Executor.collection?_gather {es : List Entry} {bs : List Batch}
    (hes : ∀ e ∈ es, e.concerns ns = false) (hgather : Batch.gather c [] es = .ok bs)
    (hrun : x.Runs c bs w w') : w'.store.collection? ns = w.store.collection? ns := by
  refine collection?_runs (fun b hb => ?_) hrun
  have hmade := Batch.madeOf_gather hgather b hb
  cases b with
  | jobs jobs =>
    intro hns
    obtain ⟨e, he, op, hop, rfl⟩ := hmade.2 ns hns
    have hconcerns := Entry.concerns_of_ofEntry? hop
    rw [hes e he] at hconcerns
    cases hconcerns
  | command e => exact hes e hmade.1
  | noop => trivial

/-- Batches leave every collection well-formed. -/
theorem Executor.wellFormed_runs {bs : List Batch} (hs : w.store.WellFormed)
    (h : x.Runs c bs w w') : w'.store.WellFormed := by
  refine keeps_runs (P := Store.WellFormed) (fun b _ => ?_) hs h
  cases b with
  | jobs jobs => exact fun _ _ _ t _ hs => hs.commit t
  | command e => exact fun _ _ t _ _ hs => hs.commit t
  | noop => trivial

end Replica
