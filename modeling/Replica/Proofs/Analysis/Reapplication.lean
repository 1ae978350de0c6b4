import Replica.Proofs.Analysis.Fold
import Replica.Proofs.Update.Replay

/-!
# Operations that are applied again

In recovery an entry is read into an operation that leads where the entry led in steady state
(`exists_ofEntry?_recovery`) and that changes nothing when it is applied again to what it left
(`Takes.again`). So operations that have led from one document to another lead to the same end from
every document that was there meanwhile (`Follows.converges`), also if those before one that does
not depend on what it finds were left out (`Reaches`), as folding does (`Takes.unfold`).
-/

namespace Replica

/-- The documents and identifiers of an entry are canonical. -/
def Entry.Canonical (e : Entry) : Prop :=
  match e.action with
  | .insert doc => doc.Canonical
  | .update id update _ => id.Canonical ∧ update.Canonical
  | .delete id => id.Canonical
  | .noop | .command _ => True

namespace NetOp

variable {op first next folded : NetOp} {ops ops' : List NetOp} {x y z v : Option Json}

/-- The operation either leaves the same document whatever it finds, or modifies what it finds and
starts from the bare identifier if that is nothing. -/
def Reapplicable (op : NetOp) : Prop :=
  match op.effect with
  | .delete | .deleteCreate _ => True
  | .update ms upsert => upsert = true ∧ (∀ m ∈ ms, m.Canonical) ∧ op.id.Canonical
  | _ => False

theorem reapplicable_delete {id : Json} {required : Bool} :
    Reapplicable ⟨id, .delete, required⟩ := trivial

theorem reapplicable_deleteCreate {id doc : Json} {required : Bool} :
    Reapplicable ⟨id, .deleteCreate doc, required⟩ := trivial

theorem Reapplicable.effect_cases (h : op.Reapplicable) : op.effect = .delete ∨
    (∃ doc, op.effect = .deleteCreate doc) ∨ ∃ ms, op.effect = .update ms true := by
  unfold Reapplicable at h
  cases heff : op.effect with
  | delete => exact .inl rfl
  | deleteCreate doc => exact .inr (.inl ⟨doc, rfl⟩)
  | update ms upsert =>
    rw [heff] at h
    exact .inr (.inr ⟨ms, by rw [h.1]⟩)
  | _ =>
    rw [heff] at h
    exact h.elim

theorem outcome_delete (h : op.effect = .delete) : op.outcome x = .ok none := by
  rw [NetOp.outcome, h]

theorem outcome_deleteCreate {doc : Json} (h : op.effect = .deleteCreate doc) :
    op.outcome x = .ok (some doc) := by
  rw [NetOp.outcome, h]

/-- An upsert modifies what it finds, or the bare document. -/
theorem outcome_upsert {ms : List Modifier} (h : op.effect = .update ms true) :
    op.outcome x = .ok y ↔
      ∃ t, Modifier.applyAll ms (x.getD (bareDocument op.id)) = .ok t ∧ y = some t := by
  rw [← map_some_eq_ok, NetOp.outcome, h]
  cases x <;> rfl

/-- In a lenient context an operation that may be applied again can be applied where it has an
outcome. -/
theorem Reapplicable.takes_iff (h : op.Reapplicable) :
    op.Takes .lenient x y ↔ op.outcome x = .ok y := by
  refine ⟨Takes.outcome, fun houtcome => ⟨(fun hst => nomatch hst), fun doc hdoc => ?_, houtcome⟩⟩
  unfold Reapplicable at h
  rw [hdoc] at h
  exact h.elim

/-- A strict replacement has found what it replaces, so it leaves what an insertion in its place
leaves. -/
theorem outcome_of_takes_replace {id doc : Json} {upsert : Bool}
    (h : (if upsert then ⟨id, .deleteCreate doc, false⟩ else ⟨id, .replace doc, true⟩ :
      NetOp).Takes .strict x y) : NetOp.outcome ⟨id, .deleteCreate doc, false⟩ x = .ok y := by
  split_ifs at h
  · exact h.outcome
  · obtain ⟨found, rfl⟩ := Option.ne_none_iff_exists'.1 (h.present rfl rfl)
    exact h.outcome

/-- A strict modification has found its target or is an upsert, so it leaves what an upsert
leaves. -/
theorem outcome_of_takes_update {id : Json} {ms : List Modifier} {upsert : Bool}
    (h : NetOp.Takes .strict ⟨id, .update ms upsert, !upsert⟩ x y) :
    NetOp.outcome ⟨id, .update ms true, false⟩ x = .ok y := by
  cases x with
  | some found => exact h.outcome
  | none =>
    cases upsert with
    | false => exact absurd rfl (h.present rfl rfl)
    | true => exact h.outcome

/-- In recovery an entry is read into an operation that may be applied again and leads where the
operation of steady state leads. -/
theorem exists_ofEntry?_recovery {e : Entry} (he : e.Canonical)
    (h : ofEntry? .steady e = .ok (some op)) : ∃ op', ofEntry? .recovery e = .ok (some op') ∧
      op'.key = op.key ∧ op'.Reapplicable ∧
      ∀ {x y}, op.Takes .strict x y → op'.Takes .lenient x y := by
  unfold Entry.Canonical at he
  cases readOff_of_ofEntry? h with
  | insert action identified =>
    exact ⟨_, ofEntry?_of_readOff (.insert action identified), rfl, reapplicable_deleteCreate,
      fun htakes => reapplicable_deleteCreate.takes_iff.2 htakes.outcome⟩
  -- Recovery reads every update as an upsert.
  | replace action identified parsed carries =>
    rename_i id update replacement doc upsert
    have hread : ofEntry? .recovery e = .ok (some ⟨id, .deleteCreate doc, false⟩) := by
      simpa [Context.recovery] using
        ofEntry?_of_readOff (c := .recovery) (.replace action identified parsed carries)
    refine ⟨_, hread, ?_, reapplicable_deleteCreate,
      fun htakes => reapplicable_deleteCreate.takes_iff.2 (outcome_of_takes_replace htakes)⟩
    split_ifs <;> rfl
  | modify action identified parsed =>
    rename_i id update upsert ms
    rw [action] at he
    have hread : ofEntry? .recovery e = .ok (some ⟨id, .update ms true, false⟩) := by
      simpa [Context.recovery] using
        ofEntry?_of_readOff (c := .recovery) (.modify action identified parsed)
    have hop : Reapplicable ⟨id, .update ms true, false⟩ :=
      ⟨rfl, fun m hm => Update.canonical_of_parse he.2 parsed hm, he.1⟩
    exact ⟨_, hread, rfl, hop, fun htakes => hop.takes_iff.2 (outcome_of_takes_update htakes)⟩
  | delete action identified =>
    exact ⟨_, ofEntry?_of_readOff (.delete action identified), rfl, reapplicable_delete,
      fun htakes => reapplicable_delete.takes_iff.2 htakes.outcome⟩

/-- What has no operation in steady state has none in recovery. -/
theorem ofEntry?_recovery_none {e : Entry} (h : ofEntry? .steady e = .ok none) :
    ofEntry? .recovery e = .ok none := ofEntry?_eq_none.2 (ofEntry?_eq_none.1 h)

/-- An operation that is applied again to what it left changes nothing. -/
theorem Takes.again (hop : op.Reapplicable) (hx : ∀ doc, x = some doc → doc.Canonical)
    (h : op.Takes .lenient x y) (h' : op.Takes .lenient y z) : z = y := by
  rcases hop.effect_cases with heff | ⟨doc, heff⟩ | ⟨ms, heff⟩
  · have hz := h'.outcome.symm.trans (outcome_delete heff)
    exact Except.ok.inj (hz.trans ((outcome_delete heff).symm.trans h.outcome))
  · have hz := h'.outcome.symm.trans (outcome_deleteCreate heff)
    exact Except.ok.inj (hz.trans ((outcome_deleteCreate heff).symm.trans h.outcome))
  · obtain ⟨t, hfirst, rfl⟩ := (outcome_upsert heff).1 h.outcome
    obtain ⟨t', hsecond, rfl⟩ := (outcome_upsert heff).1 h'.outcome
    unfold Reapplicable at hop
    rw [heff] at hop
    obtain ⟨-, hms, hid⟩ := hop
    have hstart : (x.getD (bareDocument op.id)).Canonical := by
      cases x with
      | some doc => exact hx doc rfl
      | none =>
        refine Json.canonical_obj_iff.2 ⟨List.pairwise_singleton _ _, fun b hb => ?_⟩
        rw [List.mem_singleton.1 hb]
        exact hid
    rw [Modifier.applyAll_again hms hstart hfirst hsecond]

/-! ## Folding -/

/-- The operation leaves the document `z` whatever it finds. -/
def Overwrites (op : NetOp) (z : Option Json) : Prop := ∀ y, op.Takes .lenient y z

/-- What two operations may be folded into may be applied again, too. -/
theorem Reapplicable.fold (h : first.fold? next = some folded) (hkey : first.key = next.key)
    (hfirst : first.Reapplicable) (hnext : next.Reapplicable) : folded.Reapplicable := by
  obtain ⟨hfold, hid⟩ := fold?_eq_some.1 h
  have hids := id_eq_of_key hkey
  unfold Reapplicable at *
  revert hfold
  fun_cases foldEffects? first next <;> intro hfold
  all_goals grind [Option.map_eq_some_iff]

/-- Where a folded operation leads, the two operations lead in order, unless the second one
overwrites what the first one leaves. -/
theorem Takes.unfold (h : first.fold? next = some folded) (hkey : first.key = next.key)
    (hfirst : first.Reapplicable) (hnext : next.Reapplicable) (htakes : folded.Takes .lenient x z) :
    (∃ y, first.Takes .lenient x y ∧ next.Takes .lenient y z) ∨ next.Overwrites z := by
  obtain ⟨hfold, hid⟩ := fold?_eq_some.1 h
  have hids := id_eq_of_key hkey
  have hz := htakes.outcome
  simp only [Overwrites, hfirst.takes_iff, hnext.takes_iff]
  -- A delete and a replacement hide what they find; modifications are split again.
  rcases hnext.effect_cases with hn | ⟨doc, hn⟩ | ⟨later, hn⟩
  · have hfolded : folded.effect = .delete := by
      rcases hfirst.effect_cases with hf | ⟨d, hf⟩ | ⟨earlier, hf⟩ <;>
        simp only [foldEffects?, hf, hn] at hfold <;> grind
    right
    intro y
    rwa [outcome_delete hn, ← outcome_delete hfolded (x := x)]
  · have hfolded : folded.effect = .deleteCreate doc := by
      rcases hfirst.effect_cases with hf | ⟨d, hf⟩ | ⟨earlier, hf⟩ <;>
        simp only [foldEffects?, hf, hn] at hfold <;> grind
    right
    intro y
    rwa [outcome_deleteCreate hn, ← outcome_deleteCreate hfolded (x := x)]
  · left
    simp only [outcome_upsert hn]
    rcases hfirst.effect_cases with hf | ⟨d, hf⟩ | ⟨earlier, hf⟩
    · simp only [foldEffects?, hf, hn, Option.map_eq_some_iff, modified?_eq_some] at hfold
      obtain ⟨t, ht, heq⟩ := hfold
      rw [outcome_deleteCreate (Prod.mk.inj heq).1.symm] at hz
      exact ⟨none, outcome_delete hf, t, by rwa [Option.getD_none, ← hids],
        (Except.ok.inj hz).symm⟩
    · simp only [foldEffects?, hf, hn, Option.map_eq_some_iff, modified?_eq_some] at hfold
      obtain ⟨t, ht, heq⟩ := hfold
      rw [outcome_deleteCreate (Prod.mk.inj heq).1.symm] at hz
      exact ⟨some d, outcome_deleteCreate hf, t, ht, (Except.ok.inj hz).symm⟩
    · simp only [foldEffects?, hf, hn, Option.some.injEq] at hfold
      obtain ⟨t, ht, rfl⟩ := (outcome_upsert (Prod.mk.inj hfold).1.symm).1 hz
      rw [Modifier.applyAll_append, hid] at ht
      obtain ⟨m, hm, ht⟩ := bind_eq_ok ht
      exact ⟨some m, (outcome_upsert hf).2 ⟨m, hm, rfl⟩, t, ht, rfl⟩

/-! ## Operations one after another -/

/-- Operations lead from one document to another, one after another. -/
def Follows : List NetOp → Option Json → Option Json → Prop
  | [], x, z => z = x
  | op :: ops, x, z => ∃ y, op.Takes .lenient x y ∧ Follows ops y z

/-- Operations lead from one document to another, one after another, or those from one that
overwrites on do so. -/
def Reaches (ops : List NetOp) (x z : Option Json) : Prop :=
  Follows ops x z ∨
    ∃ before op after y, ops = before ++ op :: after ∧ op.Overwrites y ∧ Follows after y z

theorem follows_append :
    Follows (ops ++ ops') x z ↔ ∃ y, Follows ops x y ∧ Follows ops' y z := by
  induction ops generalizing x with
  | nil => simp [Follows]
  | cons op ops ih =>
    simp only [List.cons_append, Follows, ih]
    constructor
    · rintro ⟨m, hop, y, hops, hops'⟩
      exact ⟨y, ⟨m, hop, hops⟩, hops'⟩
    · rintro ⟨y, ⟨m, hop, hops⟩, hops'⟩
      exact ⟨m, hop, y, hops, hops'⟩

/-- Operations lead to one document only. -/
theorem Follows.unique (h : Follows ops x y) (h' : Follows ops x z) : y = z := by
  induction ops generalizing x with
  | nil => exact Eq.trans h (Eq.symm h')
  | cons op ops ih =>
    obtain ⟨m, hop, hops⟩ := h
    obtain ⟨m', hop', hops'⟩ := h'
    rw [hop'.unique hop] at hops'
    exact ih hops hops'

/-- Behind an operation that overwrites nothing depends on what was there at first. -/
theorem Follows.eq_of_overwrites {before after : List NetOp} (hop : op.Overwrites v)
    (hafter : Follows after v z) (h : Follows (before ++ op :: after) x y) : z = y := by
  obtain ⟨m, -, m', htakes, hrest⟩ := follows_append.1 h
  rw [htakes.unique (hop m)] at hrest
  exact hafter.unique hrest

theorem Reaches.append (h : Reaches ops x y) (h' : Reaches ops' y z) :
    Reaches (ops ++ ops') x z := by
  rcases h' with hfollows' | ⟨before, op, after, v, rfl, hop, hafter⟩
  · rcases h with hfollows | ⟨before, op, after, v, rfl, hop, hafter⟩
    · exact .inl (follows_append.2 ⟨y, hfollows, hfollows'⟩)
    · exact .inr ⟨before, op, after ++ ops', v, by simp, hop,
        follows_append.2 ⟨y, hafter, hfollows'⟩⟩
  · exact .inr ⟨ops ++ before, op, after, v, by simp, hop, hafter⟩

/-- Upserts of one document lead where a single upsert leads. -/
theorem exists_upsert {key : DocKey} (hne : ops ≠ []) (hkey : ∀ op ∈ ops, op.key = key)
    (hops : ∀ op ∈ ops, op.Reapplicable) (hupserts : ∀ op ∈ ops, ∃ ms, op.effect = .update ms true) :
    ∃ (op : NetOp) (ms : List Modifier), op.effect = .update ms true ∧ op.key = key ∧
      op.Reapplicable ∧ ∀ {x y}, Follows ops x y → op.Takes .lenient x y := by
  induction ops with
  | nil => exact absurd rfl hne
  | cons first rest ih =>
    obtain ⟨hfirstKey, hrestKey⟩ := List.forall_mem_cons.1 hkey
    obtain ⟨hfirst, hrest⟩ := List.forall_mem_cons.1 hops
    obtain ⟨⟨ms, hms⟩, hrestUpserts⟩ := List.forall_mem_cons.1 hupserts
    by_cases hnil : rest = []
    · refine ⟨first, ms, hms, hfirstKey, hfirst, fun {x y} h => ?_⟩
      rw [hnil] at h
      obtain ⟨m, htakes, hlast⟩ := h
      obtain rfl : y = m := hlast
      exact htakes
    · obtain ⟨next, ns, hns, hnextKey, hnext, hfollows⟩ := ih hnil hrestKey hrest hrestUpserts
      have hsame : first.key = next.key := hfirstKey.trans hnextKey.symm
      have hfold : first.fold? next =
          some ⟨first.id, .update (ms ++ ns) true, first.requiresMatch⟩ := by
        simp only [fold?, foldEffects?, hms, hns, Option.map_some]
      refine ⟨_, ms ++ ns, rfl, (key_fold hfold).trans hfirstKey,
        Reapplicable.fold hfold hsame hfirst hnext, ?_⟩
      rintro x y ⟨m, htakes, hlast⟩
      exact Takes.fold hfold hsame htakes (hfollows hlast)

/-- Operations that are not all upserts have one among them that overwrites. -/
theorem exists_overwrites (hops : ∀ op ∈ ops, op.Reapplicable)
    (hno : ¬ ∀ op ∈ ops, ∃ ms, op.effect = .update ms true) :
    ∃ before op after v, ops = before ++ op :: after ∧ op.Overwrites v := by
  push Not at hno
  obtain ⟨op, hmem, hno⟩ := hno
  obtain ⟨v, hv⟩ : ∃ v, op.Overwrites v := by
    simp only [Overwrites, (hops op hmem).takes_iff]
    rcases (hops op hmem).effect_cases with heff | ⟨doc, heff⟩ | ⟨ms, heff⟩
    · exact ⟨none, fun y => outcome_delete heff⟩
    · exact ⟨some doc, fun y => outcome_deleteCreate heff⟩
    · exact absurd heff (hno ms)
  obtain ⟨before, after, rfl⟩ := List.append_of_mem hmem
  exact ⟨before, op, after, v, rfl, hv⟩

/-- Operations on one document that are applied again to what they left change nothing. -/
theorem Follows.again {key : DocKey} (hkey : ∀ op ∈ ops, op.key = key)
    (hops : ∀ op ∈ ops, op.Reapplicable) (hx : ∀ doc, x = some doc → doc.Canonical)
    (h : Follows ops x y) (h' : Follows ops y z) : z = y := by
  by_cases hupserts : ∀ op ∈ ops, ∃ ms, op.effect = .update ms true
  · by_cases hne : ops = []
    · rw [hne] at h'
      exact h'
    · obtain ⟨op, ms, -, -, hop, hfollows⟩ := exists_upsert hne hkey hops hupserts
      exact (hfollows h).again hop hx (hfollows h')
  · -- Some operation does not depend on what it finds, so both times the end comes of it.
    obtain ⟨before, op, after, v, rfl, hv⟩ := exists_overwrites hops hupserts
    obtain ⟨m, -, m', htakes, hafter⟩ := follows_append.1 h
    rw [htakes.unique (hv _)] at hafter
    exact (Follows.eq_of_overwrites hv hafter h').symm

/-- Operations on one document that have led from `x` by way of `v` to `y` lead from `v` to `y`. -/
theorem Follows.converges {key : DocKey} (hkey : ∀ op ∈ ops, op.key = key)
    (hops : ∀ op ∈ ops, op.Reapplicable) (hx : ∀ doc, x = some doc → doc.Canonical)
    (hseen : Follows ops x v) (hrest : Follows ops' v y) (h : Reaches (ops ++ ops') v z) :
    z = y := by
  rcases h with hagain | ⟨before, op, after, m, heq, hop, hafter⟩
  · obtain ⟨m, hfirst, hlast⟩ := follows_append.1 hagain
    rw [hseen.again hkey hops hx hfirst] at hlast
    exact hlast.unique hrest
  · have hall := follows_append.2 ⟨v, hseen, hrest⟩
    rw [heq] at hall
    exact hafter.eq_of_overwrites hop hall

end NetOp

end Replica
