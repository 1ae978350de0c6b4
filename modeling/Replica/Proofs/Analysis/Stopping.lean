import Replica.Proofs.Analysis.Reapplication
import Replica.Proofs.Update.Obstacles

/-!
# Where operations stop

Of the operations that may be applied again only upserts can fail, and several of them are folded
into one with all their modifiers (`modifiers`). Operations that have led from one document to
another and are applied again to what they left stop (`Stops`) only where that document has
something in the way of a path that one of them sets (`Stops.obstructed`).
-/

namespace Replica

/-- The bare document has nothing in the way of a path that spares the identifier. -/
theorem Json.not_obstructs_bareDocument {id : Json} {path : List String}
    (hpath : path.head? ≠ some idField) : ¬ (NetOp.bareDocument id).Obstructs path := by
  cases path with
  | nil => exact not_obstructs_nil
  | cons key path =>
    rw [NetOp.bareDocument, obstructs_cons, Assoc.get?, if_neg fun heq => hpath (by rw [heq]; rfl)]
    rintro ⟨held, hheld, -⟩
    cases hheld

namespace NetOp

variable {op first next folded : NetOp} {ops ops' : List NetOp} {x y z v : Option Json} {id : Json}
  {e : EntryError}

/-- An upsert fails where its modifiers cannot be applied to what it finds, or to the bare
document. -/
theorem outcome_upsert_error {ms : List Modifier} (h : op.effect = .update ms true)
    (herror : op.outcome x = .error e) :
    Modifier.applyAll ms (x.getD (bareDocument op.id)) = .error e := by
  have houtcome : op.outcome x = (Modifier.applyAll ms (x.getD (bareDocument op.id))).map some := by
    rw [outcome, h]
    cases x <;> rfl
  rw [houtcome] at herror
  cases happly : Modifier.applyAll ms (x.getD (bareDocument op.id)) with
  | error e' =>
    rw [happly] at herror
    exact congrArg _ (Except.error.inj herror)
  | ok t =>
    rw [happly] at herror
    cases herror

/-- The modifiers of operations, one after another. -/
def modifiers (ops : List NetOp) : List Modifier :=
  ops.flatMap fun op =>
    match op.effect with
    | .update ms _ => ms
    | _ => []

/-- All operations are upserts. -/
def Upserts (ops : List NetOp) : Prop := ∀ op ∈ ops, ∃ ms, op.effect = .update ms true

theorem modifiers_cons {ms : List Modifier} {upsert : Bool} (h : op.effect = .update ms upsert) :
    modifiers (op :: ops) = ms ++ modifiers ops := by
  simp only [modifiers, List.flatMap_cons, h]

theorem modifiers_append : modifiers (ops ++ ops') = modifiers ops ++ modifiers ops' :=
  List.flatMap_append

/-- What is modified behind upserts is what they leave. -/
theorem Follows.applyAll (hops : Upserts ops) (hid : ∀ op ∈ ops, op.id = id) (h : Follows ops x y)
    (ms : List Modifier) :
    Modifier.applyAll (modifiers ops ++ ms) (x.getD (bareDocument id)) =
      Modifier.applyAll ms (y.getD (bareDocument id)) := by
  induction ops generalizing x with
  | nil => rw [show y = x from h]; rfl
  | cons op ops ih =>
    obtain ⟨⟨ns, hns⟩, hrest⟩ := List.forall_mem_cons.1 hops
    obtain ⟨hopId, hrestId⟩ := List.forall_mem_cons.1 hid
    obtain ⟨m, htakes, hfollows⟩ := h
    obtain ⟨t, ht, rfl⟩ := (outcome_upsert hns).1 htakes.outcome
    rw [hopId] at ht
    rw [modifiers_cons hns, List.append_assoc, Modifier.applyAll_append, ht]
    exact ih hrest hrestId hfollows

/-- The modifiers of upserts that lead somewhere can be applied. -/
theorem Follows.exists_applyAll (hne : ops ≠ []) (hops : Upserts ops) (hid : ∀ op ∈ ops, op.id = id)
    (h : Follows ops x y) :
    ∃ t, Modifier.applyAll (modifiers ops) (x.getD (bareDocument id)) = .ok t := by
  obtain ⟨before, last, rfl⟩ := ops.eq_nil_or_concat.resolve_left hne
  rw [List.concat_eq_append] at *
  obtain ⟨m, hbefore, m', hlast, -⟩ := follows_append.1 h
  obtain ⟨ms, hms⟩ := hops last (List.mem_append_right _ List.mem_cons_self)
  obtain ⟨t, ht, -⟩ := (outcome_upsert hms).1 hlast.outcome
  rw [hid last (List.mem_append_right _ List.mem_cons_self)] at ht
  refine ⟨t, ?_⟩
  rw [modifiers_append, hbefore.applyAll (fun op hop => hops op (List.mem_append_left _ hop))
    (fun op hop => hid op (List.mem_append_left _ hop)), modifiers_cons hms]
  exact (congrArg (Modifier.applyAll · _) (List.append_nil ms)).trans ht

/-- Operations reach what they led to before, or all of them are upserts and follow one another. -/
theorem Reaches.eq_or_follows (hops : ∀ op ∈ ops, op.Reapplicable) (hfirst : Follows ops x y)
    (h : Reaches ops v z) : z = y ∨ Upserts ops ∧ Follows ops v z := by
  rcases h with hfollows | ⟨before, op, after, m, rfl, hop, hafter⟩
  · by_cases hupserts : Upserts ops
    · exact .inr ⟨hupserts, hfollows⟩
    · obtain ⟨before, op, after, m, rfl, hop⟩ := exists_overwrites hops hupserts
      obtain ⟨_, -, m', htakes, hafter⟩ := follows_append.1 hfollows
      rw [htakes.unique (hop _)] at hafter
      exact .inl (hafter.eq_of_overwrites hop hfirst)
  · exact .inl (hafter.eq_of_overwrites hop hfirst)

/-- Some of the operations reach a document to which the modifiers of upserts that follow cannot be
applied. -/
def Stops (ops : List NetOp) (x : Option Json) (e : EntryError) : Prop :=
  ∃ before part after y, ops = before ++ part ++ after ∧ Reaches before x y ∧ Upserts part ∧
    ∃ op ∈ part, Modifier.applyAll (modifiers part) (y.getD (bareDocument op.id)) = .error e

/-- Operations that stop do so whatever follows. -/
theorem Stops.append (h : Stops ops x e) (ops' : List NetOp) : Stops (ops ++ ops') x e := by
  obtain ⟨before, part, after, y, rfl, h⟩ := h
  exact ⟨before, part, after ++ ops', y, by simp, h⟩

/-- Operations stop if those that follow stop where they lead. -/
theorem Reaches.stops (h : Reaches ops x y) (h' : Stops ops' y e) : Stops (ops ++ ops') x e := by
  obtain ⟨before, part, after, z, rfl, hreaches, hpart⟩ := h'
  exact ⟨ops ++ before, part, after, z, by simp, h.append hreaches, hpart⟩

/-- Operations on one document that stop when they are applied again to what they left do so because
that has something in the way of a path that one of them sets. -/
theorem Stops.obstructed {key : DocKey} (hkey : ∀ op ∈ ops, op.key = key)
    (hops : ∀ op ∈ ops, op.Reapplicable) (hwf : ∀ op ∈ ops, op.WellFormed)
    (hy : ∀ doc, y = some doc → ∃ members, doc = .obj members) (h : Follows ops x y)
    (hstop : Stops ops y e) :
    ∃ op ∈ ops, ∃ ms path value reason doc, op.effect = .update ms true ∧ .set path value ∈ ms ∧
      y = some doc ∧ doc.Obstructs (pathSegments path) ∧ e = .typeMismatch path reason := by
  obtain ⟨before, part, after, z, rfl, hreaches, hpart, op, hop, herror⟩ := hstop
  have hmem : ∀ {o}, o ∈ before ++ part → o ∈ before ++ part ++ after := List.mem_append_left _
  have hid : ∀ o ∈ before ++ part, o.id = op.id := fun o ho => id_eq_of_key
    ((hkey o (hmem ho)).trans (hkey op (hmem (List.mem_append_right _ hop))).symm)
  have hidBefore := fun o ho => hid o (List.mem_append_left _ ho)
  have hidPart := fun o ho => hid o (List.mem_append_right _ ho)
  obtain ⟨m', hfirst, -⟩ := follows_append.1 h
  obtain ⟨m, hbefore, hnext⟩ := follows_append.1 hfirst
  -- On the way to what was left, all modifiers up to the failing ones could be applied.
  have hne : part ≠ [] := List.ne_nil_of_mem hop
  obtain ⟨t, ht⟩ := hnext.exists_applyAll hne hpart hidPart
  rcases hreaches.eq_or_follows (fun o ho => hops o (hmem (List.mem_append_left _ ho))) hbefore with
    rfl | ⟨hupserts, hagain⟩
  · -- What was led to at first lets the modifiers pass.
    rw [ht] at herror
    cases herror
  · -- Nothing but upserts stands before, so all modifiers are applied to what was left.
    have hall : Upserts (before ++ part) := List.forall_mem_append.2 ⟨hupserts, hpart⟩
    obtain ⟨t', ht'⟩ := hfirst.exists_applyAll (List.append_ne_nil_of_right_ne_nil _ hne) hall hid
    have hfails : Modifier.applyAll (modifiers (before ++ part)) (y.getD (bareDocument op.id)) =
        .error e := by
      rw [modifiers_append, hagain.applyAll hupserts hidBefore, herror]
    obtain ⟨members, hmembers⟩ : ∃ members, y.getD (bareDocument op.id) = .obj members := by
      cases y with
      | none => exact ⟨_, rfl⟩
      | some doc => exact hy doc rfl
    -- They could be applied to what was there at first, so what was left is in the way of one.
    rw [hmembers] at hfails
    obtain ⟨path, value, reason, hset, hobstructs, rfl⟩ := Modifier.exists_obstructed ht' hfails
    rw [← hmembers] at hobstructs
    obtain ⟨o, ho, hset⟩ := List.mem_flatMap.1 hset
    obtain ⟨ms, hms⟩ := hall o ho
    rw [hms] at hset
    cases y with
    | none =>
      -- Nothing is in the way in the bare document, the identifier being set by no modifier.
      have hspares := (hwf o (hmem ho)).spares ms true hms _ hset
      exact absurd hobstructs (Json.not_obstructs_bareDocument hspares)
    | some doc => exact ⟨o, hmem ho, ms, path, value, reason, doc, hms, hset, rfl, hobstructs, rfl⟩

/-- Only upserts are folded into an upsert, which has the modifiers of both. -/
theorem upsert_of_fold {ms : List Modifier} (h : first.fold? next = some folded)
    (hfirst : first.Reapplicable) (hnext : next.Reapplicable)
    (hms : folded.effect = .update ms true) :
    ∃ earlier later, first.effect = .update earlier true ∧ next.effect = .update later true ∧
      ms = earlier ++ later := by
  obtain ⟨hfold, -⟩ := fold?_eq_some.1 h
  rw [hms] at hfold
  rcases hfirst.effect_cases with hf | ⟨d, hf⟩ | ⟨earlier, hf⟩ <;>
    rcases hnext.effect_cases with hn | ⟨d', hn⟩ | ⟨later, hn⟩ <;>
    simp only [foldEffects?, hf, hn] at hfold <;> grind [Option.map_eq_some_iff]

end NetOp

end Replica
