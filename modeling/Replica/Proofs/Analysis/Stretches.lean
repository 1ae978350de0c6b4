import Replica.Proofs.Analysis.Batches

/-!
# The entries that a batch covers

A batch of jobs comes of a stretch of the entries, without a command, and the entries before and
behind the stretch have the other batches (`Batch.exists_covers_of_ofEntries`). The batch covers its
stretch (`Batch.Covers`): the jobs are on collections that the stretch changes, the operations of a
job on documents that it changes there, one for each, and all of them in the order in which they are
met first.

What a stretch is gathered into has a job for each collection that was met and an operation for each
document, in the order of the first one (`Gathering.Of`). This is carried along the entries, and
closing only leaves out what does nothing. A list without what occurs in it again is
`List.eraseDups`.
-/

namespace Replica

variable {c : Context} {e : Entry} {es s : List Entry} {ns : Namespace} {op : NetOp}

/-! ## What a stretch changes -/

namespace Entry

/-- The collections of the documents that entries change, in their order. -/
def changed (es : List Entry) : List Namespace := (es.filter isCrud).map Entry.ns

/-- The key of the document that an entry changes, if it is one of the collection. -/
def keyOn? (ns : Namespace) (e : Entry) : Option DocKey :=
  if e.ns = ns then e.docKey?.toOption.join else none

/-- The keys of the documents of a collection that entries change, in their order. -/
def keysOn (ns : Namespace) (es : List Entry) : List DocKey := es.filterMap (keyOn? ns)

theorem changed_concat (es : List Entry) (e : Entry) :
    changed (es ++ [e]) = if e.isCrud then changed es ++ [e.ns] else changed es := by
  unfold changed
  rw [List.filter_append, List.map_append, List.filter_singleton]
  cases e.isCrud <;> simp

theorem keysOn_concat (ns : Namespace) (es : List Entry) (e : Entry) :
    keysOn ns (es ++ [e]) = keysOn ns es ++ (keyOn? ns e).toList := by
  unfold keysOn
  rw [List.filterMap_append, List.filterMap_cons, List.filterMap_nil]
  cases keyOn? ns e <;> rfl

theorem keyOn?_of_ne (h : e.ns ≠ ns) : keyOn? ns e = none := if_neg h

theorem keyOn?_of_ofEntry? (h : NetOp.ofEntry? c e = .ok (some op)) :
    keyOn? e.ns e = some op.key := by
  rw [keyOn?, if_pos rfl, NetOp.docKey?_of_ofEntry? h]
  rfl

theorem keyOn?_of_not_isCrud (h : e.isCrud = false) : keyOn? ns e = none := by
  have hkey : e.docKey? = .ok none := by
    unfold isCrud at h
    unfold docKey? documentId?
    cases haction : e.action with
    | noop | command command => rfl
    | _ =>
      rw [haction] at h
      cases h
  rw [keyOn?, hkey]
  exact ite_self none

/-- A key is that of a document that one of the entries changes. -/
theorem exists_of_mem_keysOn {key : DocKey} (h : key ∈ keysOn ns es) :
    ∃ e ∈ es, e.isCrud = true ∧ e.ns = ns ∧ e.docKey? = .ok (some key) := by
  obtain ⟨e, he, hkey⟩ := List.mem_filterMap.1 h
  refine ⟨e, he, ?_, ?_⟩
  · cases hcrud : e.isCrud with
    | true => rfl
    | false =>
      rw [keyOn?_of_not_isCrud hcrud] at hkey
      cases hkey
  · unfold keyOn? at hkey
    split_ifs at hkey with hns
    refine ⟨hns, ?_⟩
    cases hdoc : e.docKey? with
    | error err =>
      rw [hdoc] at hkey
      cases hkey
    | ok key? =>
      rw [hdoc] at hkey
      exact congrArg Except.ok hkey

theorem keysOn_of_not_mem (h : ns ∉ changed es) : keysOn ns es = [] := by
  rw [List.eq_nil_iff_forall_not_mem]
  intro key hkey
  obtain ⟨e, he, hcrud, rfl, -⟩ := exists_of_mem_keysOn hkey
  exact h (List.mem_map_of_mem (List.mem_filter.2 ⟨he, hcrud⟩))

end Entry

open Entry (changed keysOn)

/-- A job does what a stretch of entries does to a collection: it has an operation for each of some
documents that the stretch changes there, in the order in which these are met first, and none of
them does nothing. -/
structure Job.Covers (stretch : List Entry) (job : Job) : Prop where
  /-- There are operations. -/
  ne_nil : job.ops ≠ []
  /-- No two operations are on one document. -/
  nodup : (job.ops.map NetOp.key).Nodup
  /-- No operation does nothing. -/
  ne_noop : ∀ op ∈ job.ops, op.effect ≠ .noop
  /-- Every operation is on a document of the collection that an entry changes. -/
  met : ∀ op ∈ job.ops, ∃ e ∈ stretch, e.isCrud = true ∧ e.ns = job.ns ∧
    e.docKey? = .ok (some op.key)
  /-- The documents are in the order in which they are met first. -/
  order : (job.ops.map NetOp.key).Sublist (keysOn job.ns stretch).eraseDups

/-- The jobs of a batch do what a stretch of entries does: there is one for each of some
collections that the stretch changes, in the order in which these are met first. -/
structure Batch.Covers (stretch : List Entry) (jobs : List Job) : Prop where
  /-- There are jobs. -/
  ne_nil : jobs ≠ []
  /-- No two jobs are on one collection. -/
  nodup : (jobs.map Job.ns).Nodup
  /-- The collections are in the order in which they are met first. -/
  order : (jobs.map Job.ns).Sublist (changed stretch).eraseDups
  /-- Every job does what the stretch does to its collection. -/
  jobs : ∀ job ∈ jobs, job.Covers stretch

/-! ## Gathering a stretch -/

/-- What was met before does not count when it is met again, and what was not comes last. -/
theorem eq_eraseDups_concat {α : Type} [DecidableEq α] {a : α} {l met met' : List α}
    (hmet : met = l.eraseDups) (h : met' = met ∧ a ∈ met ∨ met' = met ++ [a] ∧ a ∉ met) :
    met' = (l ++ [a]).eraseDups := by
  rw [List.eraseDups_append, ← hmet]
  have hmem : a ∈ met ↔ a ∈ l := by rw [hmet, List.mem_eraseDups]
  rcases h with ⟨rfl, hold⟩ | ⟨rfl, hnew⟩
  · simp [List.removeAll, hmem.1 hold]
  · simp [List.removeAll, List.eraseDups_cons, mt hmem.2 hnew]

namespace Gathering

/-- What a stretch of entries without a command is gathered into: the entries behind it are gathered
as if it was there before, and it has the collections and documents that are met, in the order of
the first one. -/
structure Of (c : Context) (s : List Entry) (g : Gathering) : Prop where
  /-- Other entries are gathered behind the stretch as behind the gathering. -/
  gather : ∀ es, Batch.gather c [] (s ++ es) = Batch.gather c g es
  /-- There is no command. -/
  plain : ∀ e ∈ s, e.isCommand = false
  /-- There is one job for each collection and one operation for each document. -/
  wellFormed : g.WellFormed
  /-- The collections are those that are met. -/
  ns : g.map Job.ns = (changed s).eraseDups
  /-- The documents of a collection are those that are met. -/
  keys : ∀ job ∈ g, job.ops.map NetOp.key = (keysOn job.ns s).eraseDups

variable {g g' : Gathering}

theorem of_nil (c : Context) : Of c [] [] :=
  ⟨fun _ => rfl, List.forall_mem_nil _, wellFormed_nil, List.eraseDups_nil.symm,
    List.forall_mem_nil _⟩

/-- An entry without an operation changes nothing. -/
theorem Of.none (h : g.Of c s) (he : e.isCommand = false) (read : NetOp.ofEntry? c e = .ok none) :
    g.Of c (s ++ [e]) := by
  have hcrud := NetOp.ofEntry?_eq_none.1 read
  refine ⟨fun es => ?_, List.forall_mem_append.2 ⟨h.plain, List.forall_mem_singleton.2 he⟩,
    h.wellFormed, ?_, fun job hjob => ?_⟩
  · rw [List.append_assoc, h.gather, List.singleton_append, Batch.gather_none he read]
  · rw [Entry.changed_concat, hcrud]
    exact h.ns
  · rw [Entry.keysOn_concat, Entry.keyOn?_of_not_isCrud hcrud, Option.toList_none, List.append_nil]
    exact h.keys job hjob

/-- An operation that is added adds its collection and its document where these are new. -/
theorem Of.add (h : g.Of c s) (he : e.isCommand = false)
    (read : NetOp.ofEntry? c e = .ok (some op)) (hadd : g.add e.ns op = some g') :
    g'.Of c (s ++ [e]) := by
  have hcrud : e.isCrud = true := by
    rw [← Bool.not_eq_false, ← NetOp.ofEntry?_eq_none (c := c), read]
    simp
  refine ⟨fun es => ?_, List.forall_mem_append.2 ⟨h.plain, List.forall_mem_singleton.2 he⟩,
    h.wellFormed.add hadd (NetOp.fresh_of_ofEntry? read).wellFormed, ?_, fun job hjob => ?_⟩
  · rw [List.append_assoc, h.gather, List.singleton_append, Batch.gather_added he read hadd]
  · rw [Entry.changed_concat, if_pos hcrud]
    exact eq_eraseDups_concat h.ns (ns_add hadd)
  · rw [Entry.keysOn_concat]
    rcases mem_add h.wellFormed.nodup hadd hjob with ⟨hmem, hother⟩ | ⟨hns, ops, hops, hmem⟩
    · rw [Entry.keyOn?_of_ne (Ne.symm hother), Option.toList_none, List.append_nil]
      exact h.keys job hmem
    · rw [hns, Entry.keyOn?_of_ofEntry? read, Option.toList_some]
      refine eq_eraseDups_concat ?_ (keys_addOp hops)
      rcases hmem with hmem | ⟨rfl, hnew⟩
      · exact h.keys _ hmem
      · -- The collection is met for the first time.
        rw [Entry.keysOn_of_not_mem (mt List.mem_eraseDups.2 (h.ns ▸ hnew))]
        exact List.eraseDups_nil.symm

/-! ## Closing what a stretch was gathered into -/

/-- Closing leaves out what does nothing, so what remains covers the stretch. -/
theorem Of.covers (h : g.Of c s) (hne : g.closeJobs ≠ []) : Batch.Covers s g.closeJobs := by
  have hwf := h.wellFormed.closeJobs
  refine ⟨hne, hwf.nodup, h.ns ▸ g.ns_closeJobs, fun job hjob => ?_⟩
  obtain ⟨hops, j, hj, rfl⟩ := exists_of_mem_closeJobs hjob
  have horder : List.Sublist ((j.ops.filter fun op => op.effect ≠ .noop).map NetOp.key)
      (keysOn j.ns s).eraseDups := h.keys j hj ▸ List.filter_sublist.map _
  refine ⟨hops, (hwf.jobs _ hjob).nodup, fun op hop => ?_, fun op hop => ?_, horder⟩
  · exact of_decide_eq_true (List.mem_filter.1 hop).2
  · have hkey := horder.subset (List.mem_map_of_mem hop)
    exact Entry.exists_of_mem_keysOn (List.mem_eraseDups.1 hkey)

/-- A batch of jobs among those of a gathering and later ones is the one of the gathering, or a
later one. -/
theorem close_append_eq {earlier later rest : List Batch} {jobs : List Job}
    (h : g.close ++ rest = earlier ++ .jobs jobs :: later) :
    g.close = [.jobs jobs] ∧ earlier = [] ∧ later = rest ∨
      ∃ between, earlier = g.close ++ between ∧ rest = between ++ .jobs jobs :: later := by
  rw [close_eq] at h ⊢
  split_ifs at h ⊢ with hnone
  · exact .inr ⟨earlier, rfl, h⟩
  · cases earlier with
    | nil =>
      obtain ⟨hjobs, rfl⟩ := List.cons.inj h
      exact .inl ⟨by rw [hjobs], rfl, rfl⟩
    | cons b between =>
      obtain ⟨rfl, hrest⟩ := List.cons.inj h
      exact .inr ⟨between, rfl, hrest⟩

theorem Of.covers_of_close (h : g.Of c s) {jobs : List Job} (hclose : g.close = [.jobs jobs]) :
    Batch.gather c [] s = .ok [.jobs jobs] ∧ Batch.Covers s jobs := by
  have hgather : Batch.gather c [] s = .ok g.close := by
    have := h.gather []
    rwa [List.append_nil] at this
  rw [close_eq] at hclose
  split_ifs at hclose with hnone
  obtain ⟨rfl⟩ : Batch.jobs g.closeJobs = .jobs jobs := (List.cons.inj hclose).1
  refine ⟨?_, h.covers fun hnil => hnone (List.isEmpty_iff.2 hnil)⟩
  rw [hgather, close_eq, if_neg hnone]

end Gathering

namespace Batch

/-- Entries the first of which closes a gathering are gathered behind it as if it was not there. -/
theorem gather_of_full {g : Gathering} {before : List Entry} (he : e.isCommand = false)
    (read : NetOp.ofEntry? c e = .ok (some op)) (full : g.add e.ns op = none)
    (hbefore : before <+: e :: es) :
    gather c g before = (gather c [] before).map fun later => g.close ++ later := by
  obtain rfl | ⟨before, rfl, -⟩ := List.prefix_cons_iff.1 hbefore
  · exact congrArg Except.ok (List.append_nil _).symm
  · rw [gather_closed he read full, gather_added he read rfl]

/-- Where a stretch was gathered before other entries, every batch of jobs covers a stretch of all
of them: those before it are gathered into the batches before, and those behind it into the batches
behind. -/
theorem exists_covers_of_gather {g : Gathering} {earlier later : List Batch} {jobs : List Job}
    (hg : g.Of c s) (h : gather c g es = .ok (earlier ++ .jobs jobs :: later)) :
    ∃ before stretch after, s ++ es = before ++ stretch ++ after ∧
      gather c [] before = .ok earlier ∧ gather c [] stretch = .ok [.jobs jobs] ∧
      gather c [] after = .ok later ∧ (∀ e ∈ stretch, e.isCommand = false) ∧
      Covers stretch jobs := by
  -- The gathering and the stretch that leads to it change with every entry.
  induction es generalizing s g earlier with
  | nil =>
    have hclose : g.close ++ [] = earlier ++ .jobs jobs :: later := by
      rw [List.append_nil]
      exact Except.ok.inj h
    obtain ⟨hjobs, rfl, rfl⟩ | ⟨between, -, hnil⟩ := Gathering.close_append_eq hclose
    · obtain ⟨hgather, hcovers⟩ := hg.covers_of_close hjobs
      exact ⟨[], s, [], by simp, rfl, hgather, rfl, hg.plain, hcovers⟩
    · cases between <;> cases hnil
  | cons e es ih =>
    cases he : e.isCommand with
    | true =>
      obtain ⟨rest, hrest, heq⟩ := (gather_command_eq_ok he).1 h
      obtain ⟨hjobs, rfl, rfl⟩ | ⟨between, rfl, hbetween⟩ := Gathering.close_append_eq heq.symm
      · obtain ⟨hgather, hcovers⟩ := hg.covers_of_close hjobs
        exact ⟨[], s, e :: es, rfl, rfl, hgather, (gather_command_eq_ok he).2 ⟨rest, hrest, rfl⟩,
          hg.plain, hcovers⟩
      · -- The batch is behind the command.
        cases between with
        | nil => cases hbetween
        | cons b between =>
          obtain ⟨rfl, rfl⟩ := List.cons.inj hbetween
          obtain ⟨before, stretch, after, hes, hbefore, hstretch⟩ :=
            ih (Gathering.of_nil c) hrest
          rw [List.nil_append] at hes
          refine ⟨s ++ e :: before, stretch, after, by simp [hes], ?_, hstretch⟩
          rw [hg.gather]
          exact (gather_command_eq_ok he).2 ⟨between, hbefore, rfl⟩
    | false =>
      generalize hbs : earlier ++ .jobs jobs :: later = bs at h
      cases gathers_of_gather he h with
      | none read rest =>
        rw [List.append_cons]
        exact ih (hg.none he read) (hbs ▸ rest)
      | added read add rest =>
        rw [List.append_cons]
        exact ih (hg.add he read add) (hbs ▸ rest)
      | closed read full rest =>
        obtain ⟨hjobs, rfl, rfl⟩ | ⟨between, rfl, rfl⟩ := Gathering.close_append_eq hbs.symm
        · obtain ⟨hgather, hcovers⟩ := hg.covers_of_close hjobs
          refine ⟨[], s, e :: es, rfl, rfl, hgather, ?_, hg.plain, hcovers⟩
          rw [gather_added he read rfl, rest]
        · -- The batch is of the gathering that begins with the entry, or behind it.
          obtain ⟨before, stretch, after, hes, hbefore, hstretch⟩ :=
            ih ((Gathering.of_nil c).add he read rfl) rest
          rw [List.nil_append, List.singleton_append, List.append_assoc] at hes
          refine ⟨s ++ before, stretch, after, by simp [hes], ?_, hstretch⟩
          rw [hg.gather, gather_of_full he read full ⟨_, hes.symm⟩, hbefore]
          rfl

/-- Every analyzed batch of jobs covers a stretch of the entries that has no command and is analyzed
into this batch alone. The batches before it are those that the entries before the stretch are
gathered into, and the batches behind it those of the entries behind. -/
theorem exists_covers_of_ofEntries {earlier later : List Batch} {jobs : List Job}
    (h : ofEntries c es = .ok (earlier ++ .jobs jobs :: later)) :
    ∃ before stretch after, es = before ++ stretch ++ after ∧
      gather c [] before = .ok earlier ∧ gather c [] stretch = .ok [.jobs jobs] ∧
      gather c [] after = .ok later ∧ (∀ e ∈ stretch, e.isCommand = false) ∧
      Covers stretch jobs := by
  obtain ⟨bs, hgather, h⟩ := bind_eq_ok h
  split_ifs at h
  · -- The batch that does nothing is the only one.
    have hnoop := Except.ok.inj h
    cases earlier <;> simp at hnoop
  · obtain rfl := Except.ok.inj h
    exact exists_covers_of_gather (Gathering.of_nil c) hgather

theorem exists_covers_of_ofEntries_orders :
    let orders : Namespace := ⟨"shop", "orders"⟩
    let users : Namespace := ⟨"shop", "users"⟩
    let first : Json := .obj [("_id", .str "o-1")]
    let second : Json := .obj [("_id", .str "o-2")]
    let es : List Entry := [⟨⟨1, 1⟩, 1, orders, .command .drop⟩,
      ⟨⟨1, 2⟩, 2, users, .insert (.obj [("_id", .str "u-1")])⟩, ⟨⟨1, 3⟩, 3, orders, .insert second⟩,
      ⟨⟨1, 4⟩, 4, users, .delete (.str "u-1")⟩, ⟨⟨1, 5⟩, 5, orders, .insert first⟩,
      ⟨⟨1, 6⟩, 6, orders, .insert second⟩]
    let jobs : List Job := [⟨orders, [⟨.str "o-2", .insert second, false⟩,
      ⟨.str "o-1", .insert first, false⟩]⟩]
    let later : List Batch := [.jobs [⟨orders, [⟨.str "o-2", .insert second, false⟩]⟩]]
    ofEntries .steady es = .ok ([.command es[0]] ++ .jobs jobs :: later) ∧
      ∃ before stretch after, es = before ++ stretch ++ after ∧
        gather .steady [] before = .ok [.command es[0]] ∧
        gather .steady [] stretch = .ok [.jobs jobs] ∧ gather .steady [] after = .ok later ∧
        (∀ e ∈ stretch, e.isCommand = false) ∧ Covers stretch jobs := by
  intro orders users first second es jobs later
  have h : ofEntries .steady es = .ok ([.command es[0]] ++ .jobs jobs :: later) := by
    decide +kernel
  exact ⟨h, exists_covers_of_ofEntries h⟩

end Batch

end Replica
