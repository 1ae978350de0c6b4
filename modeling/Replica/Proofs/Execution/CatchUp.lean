import Replica.Proofs.Analysis.Reapplication
import Replica.Proofs.Execution.Schedules

/-!
# Catching up

A copy that was made while entries were applied holds each document as it was before, between or
after them. The operations on one document are its history: single entries in steady state follow
it from start to end (`follows_applyEach`), and entries that are cut, folded and applied in recovery
reach along it (`reaches_applyCuts`). So recovery leads every such copy to the same end
(`applyCuts_recovery`).
-/

namespace Replica.Executor

open NetOp (Reapplicable Overwrites Follows Reaches)

variable {x : Executor} {w w' : Workplace} {e : Entry} {es : List Entry} {op : NetOp}
  {ns : Namespace} {key : DocKey}

/-- The operation of an entry on a document in recovery, if it has one. -/
def opOn? (ns : Namespace) (key : DocKey) (e : Entry) : Option NetOp :=
  match NetOp.ofEntry? .recovery e with
  | .ok (some op) => if ns = e.ns ∧ key = op.key then some op else none
  | _ => none

/-- The operations of entries on a document in recovery. -/
def history (ns : Namespace) (key : DocKey) (es : List Entry) : List NetOp :=
  es.filterMap (opOn? ns key)

theorem history_cons (ns : Namespace) (key : DocKey) (e : Entry) (es : List Entry) :
    history ns key (e :: es) = (opOn? ns key e).toList ++ history ns key es := by
  unfold history
  rw [List.filterMap_cons]
  cases opOn? ns key e <;> rfl

theorem history_append (ns : Namespace) (key : DocKey) (es fs : List Entry) :
    history ns key (es ++ fs) = history ns key es ++ history ns key fs :=
  List.filterMap_append

/-- An entry without an operation adds nothing to a history. -/
theorem opOn?_none (h : NetOp.ofEntry? .recovery e = .ok none) : opOn? ns key e = none := by
  rw [opOn?, h]

theorem opOn?_some (h : NetOp.ofEntry? .recovery e = .ok (some op)) :
    opOn? ns key e = if ns = e.ns ∧ key = op.key then some op else none := by
  rw [opOn?, h]

/-- The operation of an entry on a document comes of the entry. -/
theorem opOn?_eq_some (h : opOn? ns key e = some op) :
    NetOp.ofEntry? .recovery e = .ok (some op) ∧ e.ns = ns ∧ op.key = key := by
  unfold opOn? at h
  split at h
  · rename_i o hentry
    split_ifs at h with hcase
    obtain rfl := Option.some.inj h
    exact ⟨hentry, hcase.1.symm, hcase.2.symm⟩
  · cases h

/-- An operation of a history comes of one of the entries. -/
theorem exists_of_mem_history (h : op ∈ history ns key es) :
    ∃ e ∈ es, NetOp.ofEntry? .recovery e = .ok (some op) ∧ e.ns = ns ∧ op.key = key := by
  obtain ⟨e, he, hop⟩ := List.mem_filterMap.1 h
  exact ⟨e, he, opOn?_eq_some hop⟩

/-- The operation of an entry comes first in the history of its document. -/
theorem history_cons_some (h : NetOp.ofEntry? .recovery e = .ok (some op)) (ns : Namespace)
    (key : DocKey) (es : List Entry) : history ns key (e :: es) =
      (if ns = e.ns ∧ key = op.key then [op] else []) ++ history ns key es := by
  rw [history_cons, opOn?_some h]
  split_ifs <;> rfl

theorem mem_history_self (h : NetOp.ofEntry? .recovery e = .ok (some op)) (es : List Entry) :
    op ∈ history e.ns op.key (e :: es) := by
  rw [history_cons_some h, if_pos ⟨rfl, rfl⟩]
  exact List.mem_cons_self

theorem mem_history_cons (h : op ∈ history ns key es) : op ∈ history ns key (e :: es) := by
  rw [history_cons]
  exact List.mem_append_right _ h

/-! ## Steady state -/

/-- Single entries that succeed follow the history of every document, and all operations of the
history may be applied again. -/
theorem follows_applyEach (hx : x.dispatch = .sequential) (hes : ∀ e ∈ es, e.isCommand = false)
    (hcanonical : ∀ e ∈ es, e.Canonical) (hs : w.store.WellFormed)
    (h : x.applyEach .steady es w = (.ok (), w')) :
    w'.store.WellFormed ∧ ∀ ns key,
      Follows (history ns key es) (w.store.document? ns key) (w'.store.document? ns key) ∧
      ∀ op ∈ history ns key es, op.Reapplicable ∧ op.key = key := by
  induction es generalizing w with
  | nil =>
    obtain ⟨-, rfl⟩ := Prod.mk.inj h
    exact ⟨hs, fun _ _ => ⟨rfl, fun _ hop => nomatch hop⟩⟩
  | cons e es ih =>
    have he := hes e List.mem_cons_self
    have hes' := fun e' he' => hes e' (List.mem_cons_of_mem _ he')
    have hcanonical' := fun e' he' => hcanonical e' (List.mem_cons_of_mem _ he')
    obtain ⟨w₁, hfirst, h⟩ := applyEach_cons_eq_ok.1 h
    rw [applyEntries_singleton hx he] at hfirst
    split at hfirst
    · cases congrArg Prod.fst hfirst
    · rename_i hop
      obtain ⟨-, rfl⟩ := Prod.mk.inj hfirst
      obtain ⟨hs', hall⟩ := ih hes' hcanonical' hs h
      refine ⟨hs', fun ns key => ?_⟩
      rw [history_cons, opOn?_none (NetOp.ofEntry?_recovery_none hop)]
      exact hall ns key
    · rename_i op hop
      obtain ⟨op', hop', hkey, hagain, htakes⟩ :=
        NetOp.exists_ofEntry?_recovery (hcanonical e List.mem_cons_self) hop
      have hwf : Job.WellFormed ⟨e.ns, [op]⟩ :=
        wellFormed_singleton (NetOp.fresh_of_ofEntry? hop).wellFormed
      have hdone := Job.apply_eq_ok hs hwf hfirst
      obtain ⟨hs', hall⟩ := ih hes' hcanonical' hdone.wellFormed h
      refine ⟨hs', fun ns key => ?_⟩
      obtain ⟨hfollows, hops⟩ := hall ns key
      rw [history_cons_some hop', hkey]
      -- The entry is the first of the history of its own document, and of no other history.
      split_ifs with hcase
      · obtain ⟨rfl, rfl⟩ := hcase
        have htaken := hdone.takes op (List.mem_singleton_self op)
        exact ⟨⟨_, htakes htaken, hfollows⟩, List.forall_mem_cons.2 ⟨⟨hagain, hkey⟩, hops⟩⟩
      · rw [hdone.kept] at hfollows
        swap
        · intro hns o ho hokey
          refine hcase ⟨hns.symm, ?_⟩
          rw [← hokey, List.mem_singleton.1 ho]
        exact ⟨hfollows, hops⟩

/-! ## Recovery -/

/-- What was gathered leads where the operations of a history reach. -/
structure Replayed (g : Gathering) (past : Namespace → DocKey → List NetOp) : Prop where
  /-- What was gathered is well-formed. -/
  gathering : g.WellFormed
  /-- Its operations may be applied again. -/
  reapplicable : ∀ {ns key op}, g.op? ns key = some op → op.Reapplicable
  /-- Where they lead the history reaches. -/
  reaches : ∀ {ns key x z}, NetOp.Leads .lenient (g.op? ns key) x z → Reaches (past ns key) x z

variable {g g' : Gathering} {past : Namespace → DocKey → List NetOp}

theorem Replayed.nil : Replayed [] fun _ _ => [] :=
  ⟨Gathering.wellFormed_nil, (fun hop => nomatch hop), fun hleads => .inl hleads⟩

/-- An operation that is added is the next one of its history. -/
theorem Replayed.add (h : Replayed g past) (hop : op.WellFormed) (hagain : op.Reapplicable)
    (hadd : g.add ns op = some g') :
    Replayed g' fun ns' key =>
      past ns' key ++ if ns' = ns ∧ key = op.key then [op] else [] := by
  obtain ⟨merged, hmerged, hall⟩ := Gathering.op?_add hadd
  refine ⟨h.gathering.add hadd hop, fun {ns' key o} ho => ?_, fun {ns' key x z} hleads => ?_⟩
  · rw [hall] at ho
    split_ifs at ho with hcase
    · obtain rfl := Option.some.inj ho
      cases hfirst : g.op? ns op.key with
      | none =>
        rw [hfirst] at hmerged
        obtain rfl : merged = op := hmerged
        exact hagain
      | some first =>
        rw [hfirst] at hmerged
        exact Reapplicable.fold hmerged (h.gathering.of_op? hfirst).2 (h.reapplicable hfirst) hagain
    · exact h.reapplicable ho
  · rw [hall] at hleads
    split_ifs at hleads ⊢ with hcase
    · obtain ⟨rfl, rfl⟩ := hcase
      have hnext : ∀ {y}, op.Takes .lenient y z → Reaches [op] y z :=
        fun htakes => .inl ⟨z, htakes, rfl⟩
      cases hfirst : g.op? ns' op.key with
      | none =>
        rw [hfirst] at hmerged
        obtain rfl : merged = op := hmerged
        have hstart : Reaches (past ns' merged.key) x x := h.reaches (by rw [hfirst]; rfl)
        exact hstart.append (hnext hleads)
      | some first =>
        rw [hfirst] at hmerged
        -- What was merged leads through both operations, or the later one hides the earlier one.
        rcases NetOp.Takes.unfold hmerged (h.gathering.of_op? hfirst).2 (h.reapplicable hfirst)
          hagain hleads with ⟨y, htakes, hlast⟩ | hover
        · have hstart : Reaches (past ns' op.key) x y := h.reaches (by rw [hfirst]; exact htakes)
          exact hstart.append (hnext hlast)
        · exact .inr ⟨past ns' op.key, op, [], z, rfl, hover, rfl⟩
    · rw [List.append_nil]
      exact h.reaches hleads

/-- What was gathered and runs has reached along the histories. -/
theorem Replayed.close (h : Replayed g past) (hs : w.store.WellFormed)
    (hrun : x.Runs .recovery g.close w w') :
    w'.store.WellFormed ∧ ∀ ns key,
      Reaches (past ns key) (w.store.document? ns key) (w'.store.document? ns key) := by
  obtain ⟨hs', hlead⟩ := lead_of_runs_close h.gathering hs hrun
  refine ⟨hs', fun ns key => h.reaches ?_⟩
  have hleads := hlead ns key
  rw [Gathering.op?_closeJobs h.gathering] at hleads
  cases hop : g.op? ns key with
  | none =>
    rw [hop] at hleads
    exact hleads
  | some op =>
    have hne : op.effect ≠ .noop := fun hnoop => by
      have hagain := h.reapplicable hop
      unfold Reapplicable at hagain
      rw [hnoop] at hagain
      exact hagain
    rw [hop, Option.filter_some, if_pos (decide_eq_true hne)] at hleads
    exact hleads

/-- Entries that can be gathered and run have reached along the histories. -/
theorem Replayed.gather (hes : ∀ e ∈ es, e.isCommand = false)
    (hagain : ∀ ns key, ∀ op ∈ history ns key es, op.Reapplicable) (h : Replayed g past)
    (hs : w.store.WellFormed) {bs : List Batch} (hgather : Batch.gather .recovery g es = .ok bs)
    (hrun : x.Runs .recovery bs w w') :
    w'.store.WellFormed ∧ ∀ ns key, Reaches (past ns key ++ history ns key es)
      (w.store.document? ns key) (w'.store.document? ns key) := by
  induction es generalizing g past w bs with
  | nil =>
    obtain rfl := Except.ok.inj hgather
    simpa only [history, List.filterMap_nil, List.append_nil] using h.close hs hrun
  | cons e es ih =>
    have he := hes e List.mem_cons_self
    have hes' := fun e' he' => hes e' (List.mem_cons_of_mem _ he')
    have hagain' : ∀ ns key, ∀ op ∈ history ns key es, op.Reapplicable :=
      fun ns key op hop => hagain ns key op (mem_history_cons hop)
    cases Batch.gathers_of_gather he hgather with
    | none read rest =>
      obtain ⟨hs', hall⟩ := ih hes' hagain' h hs rest hrun
      refine ⟨hs', fun ns key => ?_⟩
      rw [history_cons, opOn?_none read]
      exact hall ns key
    | added read add rest =>
      have hop := hagain _ _ _ (mem_history_self read es)
      have hadded := h.add (NetOp.fresh_of_ofEntry? read).wellFormed hop add
      obtain ⟨hs', hall⟩ := ih hes' hagain' hadded hs rest hrun
      refine ⟨hs', fun ns key => ?_⟩
      rw [history_cons_some read, ← List.append_assoc]
      exact hall ns key
    | closed read full rest =>
      -- The gathering is closed, and a new one begins with the operation.
      have hop := hagain _ _ _ (mem_history_self read es)
      have hwf := (NetOp.fresh_of_ofEntry? read).wellFormed
      obtain ⟨m, hclose, hrest⟩ := runs_append.1 hrun
      obtain ⟨hm, hbefore⟩ := h.close hs hclose
      obtain ⟨hs', hall⟩ := ih hes' hagain' (Replayed.nil.add hwf hop rfl) hm rest hrest
      refine ⟨hs', fun ns key => ?_⟩
      rw [history_cons_some read]
      exact (hbefore ns key).append (hall ns key)

/-- Entries that are cut and applied in recovery have reached along the histories. -/
theorem reaches_applyCuts {cuts : List (List Entry)}
    (hcuts : ∀ e ∈ cuts.flatten, e.isCommand = false)
    (hagain : ∀ ns key, ∀ op ∈ history ns key cuts.flatten, op.Reapplicable)
    (hs : w.store.WellFormed) (h : x.applyCuts .recovery cuts w = (.ok (), w')) (ns : Namespace)
    (key : DocKey) : Reaches (history ns key cuts.flatten) (w.store.document? ns key)
      (w'.store.document? ns key) := by
  induction cuts generalizing w with
  | nil =>
    obtain ⟨-, rfl⟩ := Prod.mk.inj h
    exact .inl rfl
  | cons es cuts ih =>
    rw [List.flatten_cons] at hcuts hagain ⊢
    simp only [history_append] at hagain ⊢
    obtain ⟨w₁, happly, h⟩ := applyCuts_cons_eq_ok.1 h
    obtain ⟨bs, hgather, hrun⟩ := applyEntries_eq_ok.1 happly
    obtain ⟨hs₁, hfirst⟩ := Replayed.nil.gather (fun e he => hcuts e (List.mem_append_left _ he))
      (fun ns key op hop => hagain ns key op (List.mem_append_left _ hop)) hs hgather hrun
    exact (hfirst ns key).append (ih (fun e he => hcuts e (List.mem_append_right _ he))
      (fun ns key op hop => hagain ns key op (List.mem_append_right _ hop)) hs₁ h)

/-- Recovery converges: if entries succeed one at a time on a reachable store, and another store
holds each document as it was before, between or after them, then a cut of the entries that succeeds
there in recovery leaves the same contents everywhere. -/
theorem applyCuts_recovery (x : Executor) (cuts : List (List Entry)) (w w' c c' : Workplace)
    (hx : x.dispatch = .sequential) (hcuts : ∀ e ∈ cuts.flatten, e.isCommand = false)
    (hcanonical : ∀ e ∈ cuts.flatten, e.Canonical) (hw : w.store.Reachable)
    (hc : c.store.Reachable) (heach : x.applyEach .steady cuts.flatten w = (.ok (), w'))
    (hcopy : ∀ ns key, ∃ seen rest m, cuts.flatten = seen ++ rest ∧
      x.applyEach .steady seen w = (.ok (), m) ∧
      c.store.document? ns key = m.store.document? ns key)
    (hrecovery : x.applyCuts .recovery cuts c = (.ok (), c')) (ns : Namespace) :
    c'.store.contents ns = w'.store.contents ns := by
  obtain ⟨-, hall⟩ := follows_applyEach hx hcuts hcanonical hw.wellFormed heach
  refine Store.contents_congr fun key => ?_
  have hreaches := reaches_applyCuts hcuts
    (fun ns key op hop => ((hall ns key).2 op hop).1) hc.wellFormed hrecovery ns key
  -- The copy holds this document as it was at a moment of its own, which parts the entries in two.
  obtain ⟨seen, rest, m, hflatten, hseen, hdoc⟩ := hcopy ns key
  rw [hflatten] at hcuts hcanonical heach hreaches
  rw [applyEach_append, hseen] at heach
  obtain ⟨hm, hfirst⟩ := follows_applyEach hx (fun e he => hcuts e (List.mem_append_left _ he))
    (fun e he => hcanonical e (List.mem_append_left _ he)) hw.wellFormed hseen
  obtain ⟨-, hlast⟩ := follows_applyEach hx (fun e he => hcuts e (List.mem_append_right _ he))
    (fun e he => hcanonical e (List.mem_append_right _ he)) hm heach
  rw [history_append, hdoc] at hreaches
  obtain ⟨hfollows, hops⟩ := hfirst ns key
  exact hfollows.converges (fun op hop => (hops op hop).2) (fun op hop => (hops op hop).1)
    (fun doc hd => hw.canonical hd) (hlast ns key).1 hreaches

/-- Two carts that are opened and filled then, cut in between. -/
def filledCarts : List (List Entry) :=
  let ns : Namespace := ⟨"shop", "carts"⟩
  [[⟨⟨1, 1⟩, 11, ns, .insert (.obj [("_id", .int 1)])⟩,
    ⟨⟨1, 2⟩, 12, ns, .insert (.obj [("_id", .int 2)])⟩],
    [⟨⟨1, 3⟩, 13, ns, .update (.int 1) (.obj [("$set", .obj [("total", .int 3)])]) false⟩,
    ⟨⟨1, 4⟩, 14, ns, .update (.int 2) (.obj [("$set", .obj [("total", .int 4)])]) false⟩]]

/-- A copy of the first cart before it was filled, and of the second one afterwards: the carts were
so at no moment. -/
def tornCopy : Workplace :=
  let ns : Namespace := ⟨"shop", "carts"⟩
  let opened := ((Store.empty.commit [.insert ns [.obj [("_id", .int 1)]]]).2.commit
    [.insert ns [.obj [("_id", .int 2)]]]).2
  ⟨(opened.commit [.delete ns [1], .insert ns [.obj [("_id", .int 2), ("total", .int 4)]]]).2,
    {}, {}⟩

theorem applyCuts_recovery_filledCarts : ∃ w' c' : Workplace,
    applyEach {} .steady filledCarts.flatten ⟨.empty, {}, {}⟩ = (.ok (), w') ∧
    applyCuts {} .recovery filledCarts tornCopy = (.ok (), c') ∧
    ∀ ns, c'.store.contents ns = w'.store.contents ns := by
  have heach : (applyEach {} .steady filledCarts.flatten ⟨.empty, {}, {}⟩).1 = .ok () := by
    decide +kernel
  have hrecovery : (applyCuts {} .recovery filledCarts tornCopy).1 = .ok () := by decide +kernel
  have hreachable : tornCopy.store.Reachable := by
    have htotal : "_id" < "total" := by decide +kernel
    refine ((Store.Reachable.empty.commit _ ?_).commit _ ?_).commit _ ?_
    · simp [Write.Inserts, Json.Canonical, Json.CanonicalMembers, Assoc.Ascending]
    · simp [Write.Inserts, Json.Canonical, Json.CanonicalMembers, Assoc.Ascending]
    · simpa [Write.Inserts, Json.Canonical, Json.CanonicalMembers, Assoc.Ascending] using htotal
  have hcanonical : ∀ e ∈ filledCarts.flatten, e.Canonical := by
    simp [filledCarts, Entry.Canonical, Json.Canonical, Json.CanonicalMembers, Assoc.Ascending]
  -- The copy is what filling the second cart alone makes of the opened ones.
  have hsecond : (applyEach {} .steady (filledCarts.flatten.eraseIdx 2)
      ⟨.empty, {}, {}⟩).1 = .ok () := by decide +kernel
  have hstore : (applyEach {} .steady (filledCarts.flatten.eraseIdx 2)
      ⟨.empty, {}, {}⟩).2.store = tornCopy.store := rfl
  obtain ⟨v, hcopy, hv⟩ : ∃ v, applyEach {} .steady (filledCarts.flatten.take 2 ++
      filledCarts.flatten.drop 3) ⟨.empty, {}, {}⟩ = (.ok (), v) ∧ v.store = tornCopy.store :=
    ⟨_, Prod.ext hsecond rfl, hstore⟩
  obtain ⟨m, hopened, hrest⟩ := applyEach_append_eq_ok.1 hcopy
  obtain ⟨u, hfilled, hnil⟩ := applyEach_cons_eq_ok.1 hrest
  have hm := (follows_applyEach rfl (by decide)
    (fun e he => hcanonical e (List.mem_of_mem_take he)) Store.Reachable.empty.wellFormed hopened).1
  obtain ⟨-, rfl⟩ := Prod.mk.inj hnil
  obtain ⟨-, op?, hread, hleads⟩ := leads_of_applyEntries_singleton (by decide) hm hfilled
  refine ⟨_, _, Prod.ext heach rfl, Prod.ext hrecovery rfl, ?_⟩
  refine applyCuts_recovery {} filledCarts _ _ tornCopy _ rfl (by decide) hcanonical .empty
    hreachable (Prod.ext heach rfl) (fun ns key => ?_) (Prod.ext hrecovery rfl)
  -- The second cart is as it was in the end, and all else as it was before the first one was filled.
  by_cases hcase : ns = ⟨"shop", "carts"⟩ ∧ key = .ofId (.int 2)
  · obtain ⟨rfl, rfl⟩ := hcase
    exact ⟨_, [], _, (List.append_nil _).symm, Prod.ext heach rfl, by decide +kernel⟩
  · refine ⟨_, _, m, (List.take_append_drop 2 _).symm, hopened, ?_⟩
    have hlead := hleads ns key
    obtain rfl := Except.ok.inj (hread.symm.trans rfl)
    rw [Option.filter_some] at hlead
    split_ifs at hlead with hkey
    · exact absurd (of_decide_eq_true hkey) hcase
    · rw [← hv]
      exact hlead

end Replica.Executor
