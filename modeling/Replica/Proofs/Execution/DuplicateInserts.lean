import Replica.Proofs.Execution.Existence

/-!
# Inserts over a document that is there

Folding keeps the check that an insert makes for a document that is already there, and what replaces
the document afterwards is executed apart. So a batch with an insert over a document that is there
fails as the single entry does (`applyEntries_insert_present`). There is one exception: an insert
and a delete that is folded into it cancel out, and neither of them is executed
(`applyEntries_insert_deleted`). The document is there then as it was before, and later entries that
insert a document that is there, or miss one that is not, still fail.

Entries that succeed one at a time get past every document (`clears_append_of_applyEach`), so all of
them do exactly if those behind the insert cancel it (`clears_iff_cancels`). Where nothing but
documents can be in the way, they succeed as a whole exactly if they cancel it
(`applyEntries_eq_ok_iff_cancels`).
-/

namespace Replica.Executor

variable {x : Executor} {c : Context} {w m : Workplace} {e : Entry} {before after es : List Entry}
  {doc : Json} {key : DocKey}

/-- Where entries succeed one at a time in a strict context, the outlook on a document behind them
is what is there. -/
theorem clears_append_of_applyEach (hst : c.strictness = .strict)
    (hbefore : ∀ e ∈ before, e.isCommand = false) (hs : w.store.WellFormed)
    (heach : x.applyEach c before w = (.ok (), m)) (g : Gathering) (ns : Namespace)
    (key : DocKey) :
    (Outlook.ofPresence (w.store.document? ns key).isSome).clears c ns key g (before ++ es) =
      (Outlook.ofPresence (m.store.document? ns key).isSome).clears c ns key (g.reading c before)
        es := by
  induction before generalizing g w with
  | nil =>
    obtain ⟨-, rfl⟩ := Prod.mk.inj heach
    rfl
  | cons e before ih =>
    obtain ⟨he, hbefore⟩ := List.forall_mem_cons.1 hbefore
    obtain ⟨w₁, hfirst, heach⟩ := applyEach_cons_eq_ok.1 heach
    obtain ⟨hw₁, op?, hread, hleads⟩ := leads_of_applyEntries_singleton he hs hfirst
    -- What the first entry is read into turns the outlook into what is there behind it.
    have hlead := hleads ns key
    rw [hst] at hlead
    have hafter := Outlook.after_of_leads hlead
    cases op? with
    | none =>
      rw [List.cons_append, Outlook.clears_none hread, Gathering.reading_none hread,
        ← ih hbefore hw₁ heach, ← hafter]
      rfl
    | some op =>
      rw [List.cons_append, Outlook.clears_of_settled hread (Outlook.settled_ofPresence _),
        Gathering.reading_some hread, ← ih hbefore hw₁ heach, ← hafter, Outlook.after_filter]
      simp only [decide_eq_true_eq]

/-- In a strict context an entry that inserts a document is read into an insert of it. -/
theorem exists_ofEntry?_insert (hst : c.strictness = .strict) (haction : e.action = .insert doc)
    (hkey : DocKey.ofDocument doc = .ok key) :
    ∃ op, NetOp.ofEntry? c e = .ok (some op) ∧ op.effect = .insert doc ∧ op.key = key := by
  obtain ⟨id, hid, rfl⟩ := NetOp.exists_documentId hkey
  have hreapplying : c.reapplying = false := by
    cases hc : c.reapplying with
    | false => rfl
    | true =>
      rw [Context.strictness, hc] at hst
      cases hst
  refine ⟨_, NetOp.ofEntry?_of_readOff (.insert haction hid), ?_, rfl⟩
  rw [hreapplying]
  rfl

/-- Entries cancel an insert of a document that is there: `g` was gathered with it, and `s` is where
single entries have led before it. -/
structure Cancels (c : Context) (s : Store) (ns : Namespace) (key : DocKey) (g : Gathering)
    (after : List Entry) : Prop where
  /-- A delete is folded into the insert, and the entries behind it get past the document. -/
  insert : Outlook.doubled.clears c ns key g after = true
  /-- The entries get past the other documents. -/
  others : ∀ ns' key', ¬(ns' = ns ∧ key' = key) →
    (Outlook.ofPresence (s.document? ns' key').isSome).clears c ns' key' g after = true

/-- Where single entries lead to a document that the next entry inserts, the entries get past every
document exactly if those behind the insert cancel it. -/
theorem clears_iff_cancels (hst : c.strictness = .strict)
    (hbefore : ∀ e ∈ before, e.isCommand = false) (hs : w.store.WellFormed)
    (heach : x.applyEach c before w = (.ok (), m)) (haction : e.action = .insert doc)
    (hkey : DocKey.ofDocument doc = .ok key) (hpresent : m.store.document? e.ns key ≠ none) :
    (∀ ns' key', (Outlook.ofPresence (w.store.document? ns' key').isSome).clears c ns' key' []
      (before ++ e :: after) = true) ↔
      Cancels c m.store e.ns key (Gathering.reading c [] (before ++ [e])) after := by
  obtain ⟨op, hentry, hins, rfl⟩ := exists_ofEntry?_insert hst haction hkey
  have hpush : Gathering.reading c [] (before ++ [e]) =
      (Gathering.reading c [] before).push e.ns op := by
    rw [Gathering.reading_append, Gathering.reading_some hentry, Gathering.reading]
  -- The entries before the insert and the insert itself close nothing that cannot run.
  have hclears : ∀ ns' key', (Outlook.ofPresence (w.store.document? ns' key').isSome).clears c ns'
      key' [] (before ++ e :: after) =
      (if ns' = e.ns ∧ key' = op.key then
        (Outlook.ofPresence (m.store.document? ns' key').isSome).next op
      else Outlook.ofPresence (m.store.document? ns' key').isSome).clears c ns' key'
        (Gathering.reading c [] (before ++ [e])) after := by
    intro ns' key'
    rw [clears_append_of_applyEach hst hbefore hs heach,
      Outlook.clears_of_settled hentry (Outlook.settled_ofPresence _), hpush]
  have hdoubled :
      (Outlook.ofPresence (m.store.document? e.ns op.key).isSome).next op = .doubled := by
    rw [Option.isSome_iff_ne_none.2 hpresent, Outlook.next_insert hins]
  simp only [hclears]
  constructor
  · intro h
    refine ⟨?_, fun ns' key' hother => ?_⟩
    · have hinsert := h e.ns op.key
      rwa [if_pos ⟨rfl, rfl⟩, hdoubled] at hinsert
    · have hothers := h ns' key'
      rwa [if_neg hother] at hothers
  · intro h ns' key'
    split_ifs with hcase
    · obtain ⟨rfl, rfl⟩ := hcase
      rw [hdoubled]
      exact h.insert
    · exact h.others ns' key' hcase

/-- Folding hides no insert over a document that is there: if in a strict context single entries
lead to a document that the next entry inserts, then the entries with whatever follows fail as a
whole, too, unless what follows cancels the insert. -/
theorem applyEntries_insert_present (x : Executor) (c : Context) (w m : Workplace)
    (before after : List Entry) (e : Entry) (doc : Json) (key : DocKey)
    (hst : c.strictness = .strict)
    (hes : ∀ e' ∈ before ++ e :: after, e'.isCommand = false) (hs : w.store.Reachable)
    (hbefore : x.applyEach c before w = (.ok (), m)) (haction : e.action = .insert doc)
    (hkey : DocKey.ofDocument doc = .ok key) (hpresent : m.store.document? e.ns key ≠ none)
    (hkept : ¬ Cancels c m.store e.ns key (Gathering.reading c [] (before ++ [e])) after) :
    ∃ err w', x.applyEntries c (before ++ e :: after) w = (.error err, w') := by
  rcases happly : x.applyEntries c (before ++ e :: after) w with ⟨err | ⟨⟩, w'⟩
  · exact ⟨err, w', rfl⟩
  · -- Batches that run get past every document.
    obtain ⟨bs, hgather, hrun⟩ := applyEntries_eq_ok.1 happly
    refine absurd ((clears_iff_cancels hst (List.forall_mem_append.1 hes).1 hs.wellFormed hbefore
      haction hkey hpresent).1 fun ns' key' => ?_) hkept
    exact clears_of_runs hst hes Gathering.wellFormed_nil hs.wellFormed hgather hrun ns' key'

/-- A store with an item. -/
def stocked : Workplace :=
  ⟨(Store.empty.commit [.insert ⟨"shop", "items"⟩
    [.obj [("_id", .int 1), ("n", .int 0)]]]).2, {}, {}⟩

/-- The item is counted, inserted a second time, deleted, and inserted once more. -/
def restocked : List Entry :=
  let ns : Namespace := ⟨"shop", "items"⟩
  [⟨⟨1, 1⟩, 1, ns, .update (.int 1) (.obj [("$set", .obj [("n", .int 5)])]) false⟩,
    ⟨⟨1, 2⟩, 2, ns, .insert (.obj [("_id", .int 1), ("n", .int 1)])⟩,
    ⟨⟨1, 3⟩, 3, ns, .delete (.int 1)⟩,
    ⟨⟨1, 4⟩, 4, ns, .insert (.obj [("_id", .int 1), ("n", .int 2)])⟩]

theorem applyEntries_insert_present_restocked :
    (applyEach {} .steady (restocked.take 1) stocked).1 = .ok () ∧
    ∃ err w', applyEntries {} .steady restocked stocked = (.error err, w') := by
  have hbefore : (applyEach {} .steady (restocked.take 1) stocked).1 = .ok () := by decide +kernel
  have hreachable : stocked.store.Reachable := by
    have hid : "_id" < "n" := by decide +kernel
    refine .commit .empty _ fun w hw => ?_
    rw [List.mem_singleton.1 hw]
    intro doc hdoc
    rw [List.mem_singleton.1 hdoc]
    exact ⟨by simpa [Assoc.Ascending] using hid, trivial, trivial, trivial⟩
  -- The delete takes the first insert back, and the item is there when it is inserted once more.
  have hagain : Outlook.doubled.clears .steady ⟨"shop", "items"⟩ (.ofId (.int 1))
      (Gathering.reading .steady [] (restocked.take 2)) (restocked.drop 2) = false := by
    decide +kernel
  refine ⟨hbefore, applyEntries_insert_present {} .steady stocked _ (restocked.take 1)
    (restocked.drop 2) _ _ _ rfl (by decide) hreachable (Prod.ext hbefore rfl) rfl rfl
    (by decide +kernel) fun hcancels => ?_⟩
  exact Bool.false_ne_true (hagain.symm.trans hcancels.insert)

/-- The delete takes the insert back only in its own batch, which the second insert of another item
has closed. -/
example :
    let ns : Namespace := ⟨"shop", "items"⟩
    let insert (id : Int) : Entry := ⟨⟨1, 1⟩, 1, ns, .insert (.obj [("_id", .int id)])⟩
    Outlook.doubled.clears .steady ns (.ofId (.int 1)) (Gathering.reading .steady [] [insert 1])
      [insert 2, insert 2, ⟨⟨1, 2⟩, 2, ns, .delete (.int 1)⟩] = false := by
  decide +kernel

/-- An insert over an item that is there fails on its own, but not with a delete behind it. -/
theorem applyEntries_insert_deleted :
    let ns : Namespace := ⟨"shop", "items"⟩
    let es : List Entry := [⟨⟨1, 1⟩, 1, ns, .insert (.obj [("_id", .int 1), ("n", .int 1)])⟩,
      ⟨⟨1, 2⟩, 2, ns, .delete (.int 1)⟩]
    (applyEach {} .steady es stocked).1 = .error (.duplicateKey "shop.items" "1") ∧
    (applyEntries {} .steady es stocked).1 = .ok () := by
  decide +kernel

/-- Nothing less than a cancelled insert lets entries through that insert, replace and delete: on a
store without faults and unique indexes, they succeed as a whole exactly if it is cancelled. -/
theorem applyEntries_eq_ok_iff_cancels (hx : x.dispatch = .sequential)
    (hst : c.strictness = .strict) (hes : ∀ e' ∈ before ++ e :: after, e'.isCommand = false)
    (hwhole : ∀ e' ∈ before ++ e :: after, ∀ op, NetOp.ofEntry? c e' = .ok (some op) → op.Whole)
    (hs : w.store.WellFormed) (hplain : w.store.Plain)
    (hbefore : x.applyEach c before w = (.ok (), m)) (haction : e.action = .insert doc)
    (hkey : DocKey.ofDocument doc = .ok key) (hpresent : m.store.document? e.ns key ≠ none) :
    (∃ w', x.applyEntries c (before ++ e :: after) w = (.ok (), w')) ↔
      Cancels c m.store e.ns key (Gathering.reading c [] (before ++ [e])) after :=
  (applyEntries_eq_ok_iff_clears hx hst hes hwhole hs hplain).trans
    (clears_iff_cancels hst (List.forall_mem_append.1 hes).1 hs hbefore haction hkey hpresent)

end Replica.Executor
