import Replica.Proofs.Analysis.Batches

/-!
# Whether a document is there, through folding

Whatever the documents hold, a strict operation is kept from running by two things: an insert by a
document that is there, and an operation that requires its target by one that is not. `Outlook` says
how a document stands with what was gathered. Folding is exact in these terms: two operations bring
the outlook of the one that they are folded into (`Outlook.next_fold`), also an insert over a
document that is there and a delete behind it, which leave nothing of the insert. Such a delete has
to be folded into it, so whether entries get past a document depends on where they close what is
gathered (`Outlook.clears`).
-/

namespace Replica

variable {c : Context} {e : Entry} {es : List Entry} {ns : Namespace} {key : DocKey} {op : NetOp}
  {g g' : Gathering}

/-! ## The outlook on a document -/

/-- How a document stands with the operations that were gathered. -/
inductive Outlook where
  /-- It is there. -/
  | present
  /-- It is not there. -/
  | absent
  /-- It is there, and an insert of it was gathered. -/
  | doubled
  /-- It is not there, and an operation that requires it was gathered. -/
  | missed
  deriving DecidableEq

namespace Outlook

variable {o : Outlook} {x y : Option Json}

/-- The outlook on a document before an operation on it is gathered. -/
def ofPresence (there : Bool) : Outlook := if there then present else absent

/-- The outlook with one more operation on the document. -/
def next (o : Outlook) (op : NetOp) : Outlook :=
  match o, op.effect with
  | missed, _ => missed
  -- Only a delete takes the insert back.
  | doubled, .delete => present
  | doubled, _ => doubled
  | present, .insert _ => doubled
  | present, .delete => absent
  | present, _ => present
  | absent, effect =>
    if op.requiresMatch then missed
    else match effect with
      | .insert _ | .deleteCreate _ | .update _ true => present
      | _ => absent

/-- The outlook with the operation on the document, if there is one. -/
def after (o : Outlook) (op? : Option NetOp) : Outlook := op?.elim o o.next

/-- What was gathered is not kept from running. -/
def settled : Outlook → Bool
  | present | absent => true
  | doubled | missed => false

theorem settled_ofPresence (there : Bool) : (ofPresence there).settled = true := by
  cases there <;> rfl

/-- Two operations bring the outlook of what they are folded into. -/
theorem next_fold {first later folded : NetOp} (h : first.fold? later = some folded)
    (hfirst : first.WellFormed) (hlater : later.Fresh) (there : Bool) :
    (ofPresence there).next folded = ((ofPresence there).next first).next later := by
  obtain ⟨hfold, -⟩ := NetOp.fold?_eq_some.1 h
  have hinserts := hfirst.insert
  have hnoop := hfirst.noop
  have hlaterInserts := hlater.wellFormed.insert
  have hlaterNoop := hlater.ne_noop
  have hcreates := hlater.creates
  have hupserts := hlater.upserts
  revert hfold
  fun_cases NetOp.foldEffects? first later <;> intro hfold
  all_goals
    unfold next ofPresence
    cases there <;> grind [Option.map_eq_some_iff]

theorem next_insert {doc : Json} (heff : op.effect = .insert doc) :
    (ofPresence true).next op = doubled := by
  unfold next
  rw [heff]
  rfl

theorem next_required (hr : op.requiresMatch = true) : (ofPresence false).next op = missed := by
  unfold next
  dsimp only [ofPresence]
  rw [hr]
  rfl

/-- What does nothing leaves the outlook as it is. -/
theorem next_noop (hop : op.WellFormed) (heff : op.effect = .noop) (there : Bool) :
    (ofPresence there).next op = ofPresence there := by
  unfold next
  rw [heff, hop.noop heff]
  cases there <;> rfl

/-- A strict operation that can be applied turns the outlook into what is there afterwards. -/
theorem next_of_takes (h : op.Takes .strict x y) :
    (ofPresence x.isSome).next op = ofPresence y.isSome := by
  have hpresent := h.present rfl
  have habsent := h.absent
  have houtcome := h.outcome
  unfold NetOp.outcome at houtcome
  unfold next ofPresence
  cases heff : op.effect <;> cases x <;> grind [NetOp.map_some_eq_ok]

theorem after_filter (p : NetOp → Bool) :
    o.after ((some op).filter p) = if p op then o.next op else o := by
  rw [Option.filter_some]
  split_ifs <;> rfl

theorem after_of_leads {op? : Option NetOp} (h : NetOp.Leads .strict op? x y) :
    (ofPresence x.isSome).after op? = ofPresence y.isSome := by
  cases op? with
  | none =>
    obtain rfl : y = x := h
    rfl
  | some op => exact next_of_takes h

end Outlook

/-! ## Gathering entries -/

namespace Gathering

/-- What is gathered with one more operation: where it cannot be added, a new gathering begins with
it. -/
def push (g : Gathering) (ns : Namespace) (op : NetOp) : Gathering :=
  (g.add ns op).getD [⟨ns, [op]⟩]

/-- What is gathered when entries have been read. -/
def reading (c : Context) : Gathering → List Entry → Gathering
  | g, [] => g
  | g, e :: es =>
    match NetOp.ofEntry? c e with
    | .ok (some op) => reading c (g.push e.ns op) es
    | _ => reading c g es

theorem push_of_add (h : g.add ns op = some g') : g.push ns op = g' := by
  rw [push, h]
  rfl

theorem push_of_full (h : g.add ns op = none) : g.push ns op = [⟨ns, [op]⟩] := by
  rw [push, h]
  rfl

theorem reading_none (h : NetOp.ofEntry? c e = .ok none) :
    g.reading c (e :: es) = g.reading c es := by
  rw [reading, h]

theorem reading_some (h : NetOp.ofEntry? c e = .ok (some op)) :
    g.reading c (e :: es) = (g.push e.ns op).reading c es := by
  rw [reading, h]

theorem reading_append (g : Gathering) (es fs : List Entry) :
    g.reading c (es ++ fs) = (g.reading c es).reading c fs := by
  induction es generalizing g with
  | nil => rfl
  | cons e es ih =>
    rw [List.cons_append, reading, reading]
    split <;> exact ih _

end Gathering

namespace Outlook

variable {o : Outlook}

/-- Whether entries that are read behind what was gathered get past a document: what is gathered
is never closed, nor left at the end, while it is kept from running by the document. -/
def clears (c : Context) (ns : Namespace) (key : DocKey) :
    Outlook → Gathering → List Entry → Bool
  | o, _, [] => o.settled
  | o, g, e :: es =>
    match NetOp.ofEntry? c e with
    | .error _ => false
    | .ok none => clears c ns key o g es
    | .ok (some op) =>
      (o.settled || (g.add e.ns op).isSome) &&
        clears c ns key (if ns = e.ns ∧ key = op.key then o.next op else o) (g.push e.ns op) es

theorem clears_error {err : EntryError} (h : NetOp.ofEntry? c e = .error err) :
    o.clears c ns key g (e :: es) = false := by
  rw [clears, h]

theorem clears_none (h : NetOp.ofEntry? c e = .ok none) :
    o.clears c ns key g (e :: es) = o.clears c ns key g es := by
  rw [clears, h]

theorem clears_added (h : NetOp.ofEntry? c e = .ok (some op)) (hadd : g.add e.ns op = some g') :
    o.clears c ns key g (e :: es) =
      (if ns = e.ns ∧ key = op.key then o.next op else o).clears c ns key g' es := by
  rw [clears, h]
  dsimp only
  rw [hadd, Gathering.push_of_add hadd, Option.isSome_some, Bool.or_true, Bool.true_and]

theorem clears_closed (h : NetOp.ofEntry? c e = .ok (some op)) (hfull : g.add e.ns op = none) :
    o.clears c ns key g (e :: es) = (o.settled &&
      (if ns = e.ns ∧ key = op.key then o.next op else o).clears c ns key [⟨e.ns, [op]⟩] es) := by
  rw [clears, h]
  dsimp only
  rw [hfull, Gathering.push_of_full hfull, Option.isSome_none, Bool.or_false]

/-- Nothing is in the way of what is closed while the outlook is settled. -/
theorem clears_of_settled (h : NetOp.ofEntry? c e = .ok (some op)) (ho : o.settled = true) :
    o.clears c ns key g (e :: es) =
      (if ns = e.ns ∧ key = op.key then o.next op else o).clears c ns key (g.push e.ns op) es := by
  rw [clears, h]
  dsimp only
  rw [ho, Bool.true_or, Bool.true_and]

/-- An operation that is added brings the outlook that it has on its own behind what was
gathered. -/
theorem after_add (hg : g.WellFormed) (hop : op.Fresh) {n : Namespace}
    (hadd : g.add n op = some g') {there : Bool} :
    (ofPresence there).after (g'.op? ns key) =
      if ns = n ∧ key = op.key then ((ofPresence there).after (g.op? ns key)).next op
      else (ofPresence there).after (g.op? ns key) := by
  obtain ⟨merged, hmerged, hall⟩ := Gathering.op?_add hadd
  rw [hall]
  split_ifs with hcase
  · obtain ⟨rfl, rfl⟩ := hcase
    cases hfirst : g.op? ns op.key with
    | none =>
      rw [hfirst] at hmerged
      obtain rfl : merged = op := hmerged
      rfl
    | some first =>
      rw [hfirst] at hmerged
      exact next_fold hmerged (hg.of_op? hfirst).1 hop there
  · rfl

end Outlook

end Replica
