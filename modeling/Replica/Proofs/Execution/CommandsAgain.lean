import Replica.Proofs.Execution.CatchUp
import Replica.Proofs.Execution.CommandEffect

/-!
# Applying commands again

A window with commands that was applied to a store is applied again in recovery to the store that it
has left. A drop deletes all documents of a collection, so it is an operation of the history of each
of them (`events`), and the other commands that do not rename leave all documents. A renaming finds
nothing to move any more if no other entry is about its source, and then it is passed over; if no
earlier entry is about its target either, the documents that it has moved there have no history
before that. So where renamings keep apart (`Entry.KeepsApart`), the second time changes no document
(`contents_applyCuts_again`). Where they do not, all documents of a collection may be lost: a
renaming that replaces a dropped collection is passed over, but the drop is not
(`contents_applyCuts_lost`).
-/

namespace Replica

namespace Entry

/-- Of two entries in the order of the log, neither is about the collection that the other one
renames, and the first one is not about what the second one renames it to. -/
def KeepsApart (a b : Entry) : Prop :=
  (∀ r ∈ a.renaming?, b.concerns r.1 = false) ∧
    ∀ r ∈ b.renaming?, a.concerns r.1 = false ∧ a.concerns r.2 = false

instance (a b : Entry) : Decidable (a.KeepsApart b) :=
  inferInstanceAs (Decidable (_ ∧ _))

/-- Only commands drop collections and rename them. -/
theorem isCommand_of_drops {e : Entry} {ns : Namespace} (h : e.drops ns = true) :
    e.isCommand = true := by
  unfold drops at h
  unfold isCommand
  split at h
  · rename_i haction
    rw [haction]
  · rename_i haction
    rw [haction]
  · cases h

theorem isCommand_of_renaming? {e : Entry} {r : Namespace × Namespace}
    (h : e.renaming? = some r) : e.isCommand = true := by
  unfold renaming? at h
  unfold isCommand
  split at h
  · rename_i haction
    rw [haction]
  · cases h

/-- What renames drops nothing. -/
theorem drops_of_renaming? {e : Entry} {r : Namespace × Namespace} (h : e.renaming? = some r)
    (ns : Namespace) : e.drops ns = false := by
  unfold renaming? at h
  unfold drops
  split at h
  · rename_i haction
    rw [haction]
  · cases h

end Entry

namespace Executor

open NetOp (Reapplicable Follows Reaches)

variable {x : Executor} {c : Context} {w w' : Workplace} {e : Entry} {es fs : List Entry}
  {ns : Namespace} {id : Json} {op : NetOp} {bs : List Batch} {g : Gathering}

/-! ## Histories with drops -/

/-- The operation of an entry on a document in recovery, the drop of its collection deleting it. -/
def eventOn? (ns : Namespace) (id : Json) (e : Entry) : Option NetOp :=
  if e.drops ns then some ⟨id, .delete, false⟩ else opOn? ns (.ofId id) e

/-- The operations of entries on a document in recovery, drops of its collection among them. -/
def events (ns : Namespace) (id : Json) (es : List Entry) : List NetOp :=
  es.filterMap (eventOn? ns id)

theorem events_append (ns : Namespace) (id : Json) (es fs : List Entry) :
    events ns id (es ++ fs) = events ns id es ++ events ns id fs := List.filterMap_append

theorem events_singleton (ns : Namespace) (id : Json) (e : Entry) :
    events ns id [e] = (eventOn? ns id e).toList := by
  unfold events
  rw [List.filterMap_cons]
  cases eventOn? ns id e <;> rfl

theorem opOn?_of_isCommand (h : e.isCommand = true) (ns : Namespace) (key : DocKey) :
    opOn? ns key e = none := opOn?_none (NetOp.ofEntry?_of_isCommand h)

/-- Entries without commands have no other operations than single ones. -/
theorem events_eq_history (hes : ∀ e ∈ es, e.isCommand = false) :
    events ns id es = history ns (.ofId id) es := by
  refine List.filterMap_congr fun e he => ?_
  rw [eventOn?, if_neg fun hdrops => ?_]
  have hcommand := Entry.isCommand_of_drops hdrops
  rw [hes e he] at hcommand
  cases hcommand

/-- Entries that do not concern a collection have no operations there. -/
theorem events_eq_nil (hes : ∀ e ∈ es, e.concerns ns = false) : events ns id es = [] := by
  refine List.filterMap_eq_nil_iff.2 fun e he => ?_
  rw [eventOn?, Entry.drops_eq_false (hes e he), if_neg Bool.false_ne_true,
    Option.eq_none_iff_forall_ne_some]
  intro op hop
  obtain ⟨hentry, rfl, -⟩ := opOn?_eq_some hop
  have hconcerns := Entry.concerns_of_ofEntry? hentry
  rw [hes e he] at hconcerns
  cases hconcerns

/-- All operations of a history are on its document. -/
theorem key_of_mem_events (h : op ∈ events ns id es) : op.key = .ofId id := by
  obtain ⟨e, -, hop⟩ := List.mem_filterMap.1 h
  unfold eventOn? at hop
  split_ifs at hop
  · obtain rfl := Option.some.inj hop
    rfl
  · exact (opOn?_eq_some hop).2.2

/-- A delete leads to nothing. -/
theorem follows_drop (x : Option Json) : Follows [⟨id, .delete, false⟩] x none :=
  ⟨none, ⟨nofun, nofun, rfl⟩, rfl⟩

/-! ## Single entries -/

/-- An entry that does not rename leads along the history of every document. -/
theorem follows_entry (he : e.Canonical) (hrenames : e.renaming? = none) (hs : w.store.WellFormed)
    (h : x.applyEntries .steady [e] w = (.ok (), w')) (ns : Namespace) (id : Json) :
    Follows (events ns id [e]) (w.store.document? ns (.ofId id))
        (w'.store.document? ns (.ofId id)) ∧ ∀ op ∈ events ns id [e], op.Reapplicable := by
  rw [events_singleton, eventOn?]
  cases hcommand : e.isCommand with
  | true =>
    have hdoc := Entry.document?_of_applyCommand hrenames (applyEntries_command hcommand h) ns
      (.ofId id)
    rw [hdoc]
    -- A command drops the document, or leaves it.
    split_ifs
    · exact ⟨follows_drop _, List.forall_mem_singleton.2 trivial⟩
    · rw [opOn?_of_isCommand hcommand]
      exact ⟨rfl, fun _ hop => nomatch hop⟩
  | false =>
    obtain ⟨-, op?, hop, hleads⟩ := leads_of_applyEntries_singleton hcommand hs h
    rw [if_neg fun hdrops => ?_]
    · cases op? with
      | none =>
        rw [opOn?_none (NetOp.ofEntry?_recovery_none hop)]
        exact ⟨hleads ns _, fun _ hop => nomatch hop⟩
      | some op =>
        -- The operation of recovery leads its own document where that of steady state led it.
        obtain ⟨op', hop', hkey, hagain, htakes⟩ := NetOp.exists_ofEntry?_recovery he hop
        have hlead := hleads ns (.ofId id)
        rw [opOn?_some hop', hkey]
        by_cases hcase : ns = e.ns ∧ DocKey.ofId id = op.key
        · rw [Option.filter_some, if_pos (decide_eq_true hcase)] at hlead
          rw [if_pos hcase]
          exact ⟨⟨_, htakes hlead, rfl⟩, List.forall_mem_singleton.2 hagain⟩
        · rw [Option.filter_some, if_neg (by simpa using hcase)] at hlead
          rw [if_neg hcase]
          exact ⟨hlead, fun _ hop => nomatch hop⟩
    · have hdropped := Entry.isCommand_of_drops hdrops
      rw [hcommand] at hdropped
      cases hdropped

/-! ## The first time -/

/-- Single entries have led to a store: each document has come of a canonical one, or of none, along
its history, and what was renamed is gone. -/
structure Passed (es : List Entry) (s : Store) : Prop where
  /-- The store is well-formed. -/
  wellFormed : s.WellFormed
  /-- Each document has come of a canonical one, or of none, along its history. -/
  follows : ∀ ns id, ∃ v, (∀ doc, v = some doc → doc.Canonical) ∧
    Follows (events ns id es) v (s.document? ns (.ofId id))
  /-- The operations of the histories may be applied again. -/
  reapplicable : ∀ ns id, ∀ op ∈ events ns id es, op.Reapplicable
  /-- What was renamed is gone. -/
  gone : ∀ e ∈ es, ∀ r ∈ e.renaming?, s.collection? r.1 = none

/-- What was renamed stays gone if no later entry is about it. -/
theorem Passed.gone_of_apart (h : Passed es w.store) (hapart : ∀ a ∈ es, a.KeepsApart e)
    (happly : x.applyEntries c [e] w = (.ok (), w')) :
    ∀ a ∈ es, ∀ r ∈ a.renaming?, w'.store.collection? r.1 = none := by
  intro a ha r hr
  obtain ⟨bs, hgather, hrun⟩ := applyEntries_eq_ok.1 happly
  have hspared : ∀ b ∈ [e], b.concerns r.1 = false :=
    List.forall_mem_singleton.2 ((hapart a ha).1 r hr)
  rw [collection?_gather hspared hgather hrun]
  exact h.gone a ha r hr

/-- An entry that does not rename leads on. -/
theorem Passed.entry (h : Passed es w.store) (he : e.Canonical) (hrenames : e.renaming? = none)
    (hapart : ∀ a ∈ es, a.KeepsApart e) (happly : x.applyEntries .steady [e] w = (.ok (), w')) :
    Passed (es ++ [e]) w'.store := by
  obtain ⟨bs, hgather, hrun⟩ := applyEntries_eq_ok.1 happly
  have hentry := follows_entry he hrenames h.wellFormed happly
  refine ⟨wellFormed_runs h.wellFormed hrun, fun ns id => ?_, fun ns id => ?_, ?_⟩
  · obtain ⟨v, hv, hfollows⟩ := h.follows ns id
    refine ⟨v, hv, ?_⟩
    rw [events_append]
    exact NetOp.follows_append.2 ⟨_, hfollows, (hentry ns id).1⟩
  · rw [events_append]
    exact List.forall_mem_append.2 ⟨h.reapplicable ns id, (hentry ns id).2⟩
  · refine List.forall_mem_append.2
      ⟨h.gone_of_apart hapart happly, List.forall_mem_singleton.2 ?_⟩
    rw [hrenames]
    exact fun _ hr => nomatch hr

/-- A renaming leads on: what it moves has no history where it comes from or where it goes to. -/
theorem Passed.rename (h : Passed es w.store) {source target : Namespace}
    (hrenames : e.renaming? = some (source, target)) (hapart : ∀ a ∈ es, a.KeepsApart e)
    (happly : x.applyEntries .steady [e] w = (.ok (), w')) : Passed (es ++ [e]) w'.store := by
  obtain ⟨bs, hgather, hrun⟩ := applyEntries_eq_ok.1 happly
  have hcommand := Entry.isCommand_of_renaming? hrenames
  obtain ⟨hskip, -⟩ | ⟨hne, -, hall⟩ :=
    Entry.collection?_of_renaming hrenames (applyEntries_command hcommand happly)
  · cases hskip
  -- The renaming itself is an event of no document.
  have hevents : ∀ ns id, events ns id (es ++ [e]) = events ns id es := by
    intro ns id
    rw [events_append, events_singleton, eventOn?, Entry.drops_of_renaming? hrenames,
      if_neg Bool.false_ne_true, opOn?_of_isCommand hcommand]
    exact List.append_nil _
  have hsource : ∀ id, events source id es = [] := fun id =>
    events_eq_nil fun a ha => ((hapart a ha).2 _ hrenames).1
  have htarget : ∀ id, events target id es = [] := fun id =>
    events_eq_nil fun a ha => ((hapart a ha).2 _ hrenames).2
  refine ⟨wellFormed_runs h.wellFormed hrun, fun ns id => ?_, fun ns id => ?_, ?_⟩
  · have hdoc := hall ns
    rw [hevents]
    -- The document is in the target now, or in the source, or in neither.
    split_ifs at hdoc with hns hns'
    · obtain ⟨v, hv, hfollows⟩ := h.follows source id
      rw [hsource] at hfollows
      rw [hns, htarget, Store.document?_congr (hns ▸ hdoc)]
      exact ⟨v, hv, hfollows⟩
    · rw [hns', hsource, Store.document?_of_missing (hns' ▸ hdoc)]
      exact ⟨none, (fun _ hd => nomatch hd), rfl⟩
    · rw [Store.document?_congr hdoc]
      exact h.follows ns id
  · rw [hevents]
    exact h.reapplicable ns id
  · refine List.forall_mem_append.2
      ⟨h.gone_of_apart hapart happly, List.forall_mem_singleton.2 fun r hr => ?_⟩
    rw [hrenames, Option.mem_def, Option.some.injEq] at hr
    rw [← hr, hall, if_neg hne, if_pos rfl]

/-- Single entries that succeed lead along all histories. -/
theorem passed_of_applyEach (hcanonical : ∀ e ∈ es, e.Canonical)
    (hapart : es.Pairwise Entry.KeepsApart) (hw : w.store.Reachable)
    (h : x.applyEach .steady es w = (.ok (), w')) : Passed es w'.store := by
  induction es using List.reverseRecOn generalizing w' with
  | nil =>
    obtain ⟨-, rfl⟩ := Prod.mk.inj h
    exact ⟨hw.wellFormed, fun ns id => ⟨_, (fun _ hd => hw.canonical hd), rfl⟩,
      (fun _ _ _ hop => nomatch hop), fun _ he => nomatch he⟩
  | append_singleton es e ih =>
    obtain ⟨hes, he⟩ := List.forall_mem_append.1 hcanonical
    obtain ⟨hpairwise, -, hlast⟩ := List.pairwise_append.1 hapart
    obtain ⟨m, hfirst, h⟩ := applyEach_append_eq_ok.1 h
    obtain ⟨m', happly, hnil⟩ := applyEach_cons_eq_ok.1 h
    obtain ⟨-, rfl⟩ := Prod.mk.inj hnil
    have hbefore := ih hes hpairwise hfirst
    have hapart' : ∀ a ∈ es, a.KeepsApart e :=
      fun a ha => hlast a ha e (List.mem_singleton_self e)
    cases hrenames : e.renaming? with
    | none => exact hbefore.entry (List.forall_mem_singleton.1 he) hrenames hapart' happly
    | some r => exact hbefore.rename hrenames hapart' happly

/-! ## The second time -/

/-- Entries that may be applied again where given collections are gone: these are all that they
rename, and no other entry concerns them. -/
structure Repeatable (gone : Namespace → Prop) (es : List Entry) : Prop where
  /-- What is renamed is gone. -/
  renames : ∀ e ∈ es, ∀ r ∈ e.renaming?, gone r.1
  /-- Entries that do not rename do not concern what is gone. -/
  spares : ∀ e ∈ es, e.renaming? = none → ∀ ns, gone ns → e.concerns ns = false
  /-- The operations of the histories may be applied again. -/
  reapplicable : ∀ ns id, ∀ op ∈ events ns id es, op.Reapplicable

variable {gone : Namespace → Prop} {s s' m : Store}

theorem repeatable_append :
    Repeatable gone (es ++ fs) ↔ Repeatable gone es ∧ Repeatable gone fs := by
  constructor
  · rintro ⟨hrenames, hspares, hagain⟩
    simp only [events_append, List.forall_mem_append, forall_and] at hrenames hspares hagain
    exact ⟨⟨hrenames.1, hspares.1, hagain.1⟩, ⟨hrenames.2, hspares.2, hagain.2⟩⟩
  · rintro ⟨hes, hfs⟩
    refine ⟨List.forall_mem_append.2 ⟨hes.renames, hfs.renames⟩,
      List.forall_mem_append.2 ⟨hes.spares, hfs.spares⟩, fun ns id => ?_⟩
    rw [events_append]
    exact List.forall_mem_append.2 ⟨hes.reapplicable ns id, hfs.reapplicable ns id⟩

/-- Entries have led from one store to another, in both of which given collections are gone. -/
structure Repeats (gone : Namespace → Prop) (es : List Entry) (s s' : Store) : Prop where
  /-- The store is well-formed afterwards. -/
  wellFormed : s'.WellFormed
  /-- The collections are gone. -/
  missing : ∀ ns, gone ns → s'.collection? ns = none
  /-- Each document was reached along its history. -/
  reaches : ∀ ns id, Reaches (events ns id es) (s.document? ns (.ofId id))
    (s'.document? ns (.ofId id))

theorem Repeats.append (h : Repeats gone es s m) (h' : Repeats gone fs m s') :
    Repeats gone (es ++ fs) s s' where
  wellFormed := h'.wellFormed
  missing := h'.missing
  reaches ns id := by
    rw [events_append]
    exact (h.reaches ns id).append (h'.reaches ns id)

/-- A command repeats its effect. -/
theorem Repeatable.command (h : Repeatable gone [e]) (he : e.isCommand = true)
    (hs : w.store.WellFormed) (hgone : ∀ ns, gone ns → w.store.collection? ns = none)
    (happly : x.apply .recovery (.command e) w = (.ok (), w')) :
    Repeats gone [e] w.store w'.store := by
  have hrun : x.Runs .recovery [.command e] w w' := runs_cons.2 ⟨w', happly, runs_nil.2 rfl⟩
  have hwf := wellFormed_runs hs hrun
  cases hrenames : e.renaming? with
  | none =>
    refine ⟨hwf, fun ns hns => ?_, fun ns id => .inl ?_⟩
    · have hspared := h.spares e (List.mem_singleton_self e) hrenames ns hns
      have hbatch : ∀ b ∈ [Batch.command e], b.Spares ns := List.forall_mem_singleton.2 hspared
      rw [collection?_runs hbatch hrun]
      exact hgone ns hns
    · have hdoc := Entry.document?_of_applyCommand hrenames happly ns (.ofId id)
      rw [events_singleton, eventOn?, opOn?_of_isCommand he, hdoc]
      split_ifs
      · exact follows_drop _
      · rfl
  | some r =>
    -- There is nothing to rename any more.
    obtain ⟨source, target⟩ := r
    have hmissing : w.store.collection? source = none :=
      hgone _ (h.renames e (List.mem_singleton_self e) _ hrenames)
    obtain ⟨-, -, hsame⟩ | ⟨-, hfirst | hfound, -⟩ := Entry.collection?_of_renaming hrenames happly
    · have hcollection : ∀ ns, w'.store.collection? ns = w.store.collection? ns := fun ns => by
        rw [Store.collection?, hsame, Store.collection?]
      refine ⟨hwf, fun ns hns => (hcollection ns).trans (hgone ns hns), fun ns id => .inl ?_⟩
      rw [events_singleton, eventOn?, Entry.drops_of_renaming? hrenames,
        if_neg Bool.false_ne_true, opOn?_of_isCommand he]
      exact Store.document?_congr (hcollection ns) _
    · cases hfirst
    · exact absurd hmissing hfound

/-- Entries without commands repeat their effect. -/
theorem Repeatable.gather (h : Repeatable gone es) (hes : ∀ e ∈ es, e.isCommand = false)
    (hs : w.store.WellFormed) (hgone : ∀ ns, gone ns → w.store.collection? ns = none)
    (hgather : Batch.gather .recovery [] es = .ok bs) (hrun : x.Runs .recovery bs w w') :
    Repeats gone es w.store w'.store := by
  have hagain : ∀ ns key, ∀ op ∈ history ns key es, op.Reapplicable := by
    intro ns key op hop
    obtain ⟨-, -, -, -, rfl⟩ := exists_of_mem_history hop
    exact h.reapplicable ns op.id op (by rwa [events_eq_history hes])
  obtain ⟨hwf, hreaches⟩ := Replayed.nil.gather hes hagain hs hgather hrun
  refine ⟨hwf, fun ns hns => ?_, fun ns id => ?_⟩
  · rw [collection?_gather (fun e he => h.spares e he ?_ ns hns) hgather hrun]
    · exact hgone ns hns
    · rw [Option.eq_none_iff_forall_not_mem]
      intro r hr
      have hcommand := Entry.isCommand_of_renaming? hr
      rw [hes e he] at hcommand
      cases hcommand
  · rw [events_eq_history hes]
    exact hreaches ns _

/-- Entries repeat their effect, the commands among them one by one and the others between them
gathered. -/
theorem Repeatable.gather_all (h : Repeatable gone (es ++ fs))
    (hes : ∀ e ∈ es, e.isCommand = false) (hs : w.store.WellFormed)
    (hgone : ∀ ns, gone ns → w.store.collection? ns = none)
    (hgather : Batch.gather .recovery [] (es ++ fs) = .ok bs) (hrun : x.Runs .recovery bs w w') :
    Repeats gone (es ++ fs) w.store w'.store := by
  -- The entries before the first command are collected in `es`.
  induction fs generalizing es w bs with
  | nil =>
    rw [List.append_nil] at h hgather ⊢
    exact h.gather hes hs hgone hgather hrun
  | cons e fs ih =>
    cases he : e.isCommand with
    | false =>
      rw [List.append_cons] at h hgather ⊢
      exact ih h (List.forall_mem_append.2 ⟨hes, List.forall_mem_singleton.2 he⟩) hs hgone hgather
        hrun
    | true =>
      obtain ⟨before, later, hbefore, hlater, rfl⟩ :=
        (Batch.gather_append_command_eq_ok he).1 hgather
      obtain ⟨m, hfirst, hrest⟩ := runs_append.1 hrun
      obtain ⟨m', happly, hlast⟩ := runs_cons.1 hrest
      rw [List.append_cons] at h ⊢
      obtain ⟨hcommand, hfs⟩ := repeatable_append.1 h
      obtain ⟨hes', hcommand⟩ := repeatable_append.1 hcommand
      have hone := hes'.gather hes hs hgone hbefore hfirst
      have htwo := hcommand.command he hone.wellFormed hone.missing happly
      have hthree : Repeats gone ([] ++ fs) m'.store w'.store :=
        ih hfs (List.forall_mem_nil _) htwo.wellFormed htwo.missing hlater hlast
      exact (hone.append htwo).append hthree

/-- Entries that are cut repeat their effect. -/
theorem Repeatable.applyCuts {cuts : List (List Entry)} (h : Repeatable gone cuts.flatten)
    (hs : w.store.WellFormed) (hgone : ∀ ns, gone ns → w.store.collection? ns = none)
    (happly : x.applyCuts .recovery cuts w = (.ok (), w')) :
    Repeats gone cuts.flatten w.store w'.store := by
  induction cuts generalizing w with
  | nil =>
    obtain ⟨-, rfl⟩ := Prod.mk.inj happly
    exact ⟨hs, hgone, fun _ _ => .inl rfl⟩
  | cons es cuts ih =>
    obtain ⟨hes, hcuts⟩ := repeatable_append.1 h
    obtain ⟨m, hfirst, happly⟩ := applyCuts_cons_eq_ok.1 happly
    obtain ⟨bs, hgather, hrun⟩ := applyEntries_eq_ok.1 hfirst
    have hone : Repeats gone ([] ++ es) w.store m.store :=
      Repeatable.gather_all hes (List.forall_mem_nil _) hs hgone hgather hrun
    exact hone.append (ih hcuts hone.wellFormed hone.missing happly)

/-! ## Both times -/

/-- What single entries have led to, they may be applied to again. -/
theorem Passed.repeatable (h : Passed es s) (hapart : es.Pairwise Entry.KeepsApart) :
    Repeatable (fun ns => ∃ e ∈ es, ∃ r ∈ e.renaming?, r.1 = ns) es where
  renames e he r hr := ⟨e, he, r, hr, rfl⟩
  spares := by
    rintro e he hrenames ns ⟨a, ha, r, hr, rfl⟩
    -- The entry stands before or behind the one that renames.
    have hne : e ≠ a := fun heq => by
      rw [← heq, hrenames] at hr
      cases hr
    obtain ⟨before, after, rfl⟩ := List.append_of_mem ha
    obtain ⟨-, hafter, hbefore⟩ := List.pairwise_append.1 hapart
    rcases List.mem_append.1 he with he | he
    · exact ((hbefore e he a List.mem_cons_self).2 r hr).1
    · rcases List.mem_cons.1 he with heq | he
      · exact absurd heq hne
      · exact ((List.pairwise_cons.1 hafter).1 e he).1 r hr
  reapplicable := h.reapplicable

/-- Applying a window again changes no document: if entries, commands among them, succeed one at a
time on a reachable store, their renamings keeping apart from the other entries, then a cut of them
that succeeds in recovery on the store that they leave shows the same contents everywhere. -/
theorem contents_applyCuts_again (x y : Executor) (cuts : List (List Entry))
    (w w' v v' : Workplace) (hcanonical : ∀ e ∈ cuts.flatten, e.Canonical)
    (hapart : cuts.flatten.Pairwise Entry.KeepsApart) (hw : w.store.Reachable)
    (hfirst : x.applyEach .steady cuts.flatten w = (.ok (), w')) (hv : v.store = w'.store)
    (hagain : y.applyCuts .recovery cuts v = (.ok (), v')) (ns : Namespace) :
    v'.store.contents ns = w'.store.contents ns := by
  have hpassed := passed_of_applyEach hcanonical hapart hw hfirst
  have hrepeats := (hpassed.repeatable hapart).applyCuts (hv ▸ hpassed.wellFormed)
    (by rintro ns ⟨e, he, r, hr, rfl⟩; exact hv ▸ hpassed.gone e he r hr) hagain
  have hsame : ∀ id, v'.store.document? ns (.ofId id) = w'.store.document? ns (.ofId id) := by
    intro id
    -- The second pass sees all events of the document, and nothing of the first one is to come.
    obtain ⟨u, hu, hfollows⟩ := hpassed.follows ns id
    have hreaches := hrepeats.reaches ns id
    rw [hv, ← List.append_nil (events ns id cuts.flatten)] at hreaches
    have hrest : Follows [] (w'.store.document? ns (.ofId id)) (w'.store.document? ns (.ofId id)) :=
      rfl
    exact hfollows.converges (fun op hop => key_of_mem_events hop) (hpassed.reapplicable ns id) hu
      hrest hreaches
  refine Store.contents_congr fun key => ?_
  by_cases hkey : ∃ id, key = .ofId id
  · obtain ⟨id, rfl⟩ := hkey
    exact hsame id
  · -- No document has a key that is not one of an identifier.
    have hnone : ∀ {s : Store}, s.WellFormed → s.document? ns key = none := fun hs =>
      Option.eq_none_iff_forall_ne_some.2 fun doc hd =>
        have ⟨id, _, hid⟩ := NetOp.exists_documentId ((hs ns).ofDocument hd)
        hkey ⟨id, hid⟩
    rw [hnone hrepeats.wellFormed, hnone hpassed.wellFormed]

/-- A store with an order and a draft. -/
def ordered : Workplace :=
  ⟨(Store.empty.commit [.insert ⟨"shop", "orders"⟩ [.obj [("_id", .int 1)]],
    .insert ⟨"shop", "drafts"⟩ [.obj [("_id", .int 2)]]]).2, {}, {}⟩

/-- The orders are archived, another draft is added, an archived order is changed, and the drafts
are dropped. -/
def archiving : List (List Entry) :=
  [[⟨⟨1, 1⟩, 1, ⟨"shop", "orders"⟩, .command (.renameCollection "archive" false)⟩,
    ⟨⟨1, 2⟩, 2, ⟨"shop", "drafts"⟩, .insert (.obj [("_id", .int 3)])⟩],
    [⟨⟨1, 3⟩, 3, ⟨"shop", "archive"⟩,
      .update (.int 1) (.obj [("$set", .obj [("paid", .bool true)])]) false⟩,
    ⟨⟨1, 4⟩, 4, ⟨"shop", "drafts"⟩, .command .drop⟩]]

theorem contents_applyCuts_again_archived : ∃ w' v',
    applyEach {} .steady archiving.flatten ordered = (.ok (), w') ∧
    applyCuts {} .recovery archiving w' = (.ok (), v') ∧
    ∀ ns, v'.store.contents ns = w'.store.contents ns := by
  have hfirst : (applyEach {} .steady archiving.flatten ordered).1 = .ok () := by decide +kernel
  have hagain : (applyCuts {} .recovery archiving
      (applyEach {} .steady archiving.flatten ordered).2).1 = .ok () := by decide +kernel
  have hcanonical : ∀ e ∈ archiving.flatten, e.Canonical := by
    simp [archiving, Entry.Canonical, Json.Canonical, Json.CanonicalMembers, Assoc.Ascending]
  have hreachable : ordered.store.Reachable := by
    refine .commit .empty _ ?_
    simp [Write.Inserts, Json.Canonical, Json.CanonicalMembers, Assoc.Ascending]
  exact ⟨_, _, Prod.ext hfirst rfl, Prod.ext hagain rfl,
    contents_applyCuts_again {} {} archiving ordered _ _ _ hcanonical (by decide) hreachable
      (Prod.ext hfirst rfl) rfl (Prod.ext hagain rfl)⟩

/-- What has replaced a dropped collection is dropped itself when the window is applied again. -/
theorem contents_applyCuts_lost :
    let es : List Entry := [⟨⟨1, 1⟩, 1, ⟨"shop", "orders"⟩, .command .drop⟩,
      ⟨⟨1, 2⟩, 2, ⟨"shop", "drafts"⟩, .command (.renameCollection "orders" false)⟩]
    ∃ w' v', applyEach {} .steady es ordered = (.ok (), w') ∧
      applyCuts {} .recovery [es] w' = (.ok (), v') ∧
      w'.store.contents ⟨"shop", "orders"⟩ = [.obj [("_id", .int 2)]] ∧
      v'.store.contents ⟨"shop", "orders"⟩ = [] := by
  intro es
  have hfirst : (applyEach {} .steady es ordered).1 = .ok () := by decide +kernel
  have hagain : (applyCuts {} .recovery [es] (applyEach {} .steady es ordered).2).1 = .ok () := by
    decide +kernel
  exact ⟨_, _, Prod.ext hfirst rfl, Prod.ext hagain rfl, by decide +kernel, by decide +kernel⟩

end Executor

end Replica
