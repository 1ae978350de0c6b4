import Replica.Analysis.Fold
import Replica.Proofs.Json.Unambiguous
import Replica.Proofs.Update.Modifiers

/-!
# What an operation does to its document

`NetOp.outcome` is the document at the key of an operation afterwards, given the one before, and
`NetOp.Takes` says that the operation can be applied and leads from the one to the other. An
operation that is read off an entry is well-formed (`fresh_of_ofEntry?`): the documents it inserts
carry its key (`WellFormed.result_keyed`), and what inserts or does nothing requires no target.
`ReadOff` has one case for each kind of entry with an operation, so what is said of these operations
goes through it in both directions (`readOff_of_ofEntry?`, `ofEntry?_of_readOff`).
-/

namespace Replica.NetOp

variable {st : Strictness} {op : NetOp} {x y : Option Json} {doc : Json}

/-- The document at the key of an operation afterwards, nothing standing for a missing one. -/
def outcome (op : NetOp) (x : Option Json) : Except EntryError (Option Json) :=
  match op.effect with
  | .noop => .ok x
  | .insert doc | .deleteCreate doc => .ok (some doc)
  | .delete => .ok none
  | .replace doc => .ok (x.map fun _ => doc)
  | .update modifiers upsert =>
    match x with
    | some doc => (Modifier.applyAll modifiers doc).map some
    | none =>
      if upsert then (Modifier.applyAll modifiers (bareDocument op.id)).map some else .ok none

/-- The operation can be applied to the document `x` at its key and leaves `y` there: a required
target is there, and a document to insert is not. -/
structure Takes (st : Strictness) (op : NetOp) (x y : Option Json) : Prop where
  /-- A required target is there. -/
  present : st = .strict → op.requiresMatch = true → x ≠ none
  /-- A document that is inserted is not there yet. -/
  absent : ∀ doc, op.effect = .insert doc → x = none
  /-- What is there afterwards. -/
  outcome : op.outcome x = .ok y

/-- An operation leaves one document only. -/
theorem Takes.unique {z : Option Json} (hy : op.Takes st x y) (hz : op.Takes st x z) : y = z :=
  Except.ok.inj (hy.outcome.symm.trans hz.outcome)

/-- What every operation has that entries are read into. -/
structure WellFormed (op : NetOp) : Prop where
  /-- The identifier can be one of a document. -/
  id_ne_null : op.id ≠ .null
  /-- A document that is put in place carries the key. -/
  keyed : ∀ doc, op.effect = .insert doc ∨ op.effect = .replace doc ∨
    op.effect = .deleteCreate doc → DocKey.ofDocument doc = .ok op.key
  /-- Modifiers leave the identifier alone. -/
  spares : ∀ ms upsert, op.effect = .update ms upsert → ∀ m ∈ ms, m.SparesId
  /-- What does nothing requires no target. -/
  noop : op.effect = .noop → op.requiresMatch = false
  /-- What inserts requires no target. -/
  insert : ∀ doc, op.effect = .insert doc → op.requiresMatch = false

/-- An object with an identifier has its key. -/
theorem ofDocument_of_get? {members : Json.Members} {id : Json}
    (h : Assoc.get? idField members = some id) (hid : id ≠ .null) :
    DocKey.ofDocument (.obj members) = .ok (DocKey.ofId id) := by
  have : documentId (.obj members) = .ok id := by
    simp only [documentId, h]
  rw [DocKey.ofDocument, this]
  rfl

/-- What has a key has an identifier. -/
theorem exists_documentId {key : DocKey} (h : DocKey.ofDocument doc = .ok key) :
    ∃ id, documentId doc = .ok id ∧ key = DocKey.ofId id := by
  rw [DocKey.ofDocument] at h
  cases hid : documentId doc with
  | error err =>
    rw [hid] at h
    cases h
  | ok id =>
    rw [hid] at h
    exact ⟨id, rfl, (Except.ok.inj h).symm⟩

/-- The bare document of an identifier has its key. -/
theorem ofDocument_bareDocument {id : Json} (h : id ≠ .null) :
    DocKey.ofDocument (bareDocument id) = .ok (DocKey.ofId id) :=
  ofDocument_of_get? (by rw [Assoc.get?, if_pos rfl]) h

theorem map_some_eq_ok {ms : List Modifier} : (Modifier.applyAll ms doc).map some = .ok y ↔
    ∃ t, Modifier.applyAll ms doc = .ok t ∧ y = some t := by
  cases Modifier.applyAll ms doc <;> simp [Except.map, eq_comm]

/-- Modifiers keep the key of what they start from. -/
theorem WellFormed.keyed_of_applyAll (h : op.WellFormed) {ms : List Modifier} {upsert : Bool}
    (heff : op.effect = .update ms upsert) {start : Json}
    (hstart : DocKey.ofDocument start = .ok op.key)
    (happly : (Modifier.applyAll ms start).map some = .ok (some doc)) :
    DocKey.ofDocument doc = .ok op.key := by
  obtain ⟨t, hms, heq⟩ := map_some_eq_ok.1 happly
  obtain rfl := Option.some.inj heq
  rw [Modifier.ofDocument_applyAll (h.spares ms upsert heff) hms, hstart]

/-- The document that an operation inserts carries its key, if the one that was loaded does. It need
not be known whether there is a target. -/
theorem WellFormed.result_keyed {found : Bool} (h : op.WellFormed)
    (hx : ∀ prior, x = some prior → DocKey.ofDocument prior = .ok op.key)
    (hresult : op.result found x = .ok (some doc)) : DocKey.ofDocument doc = .ok op.key := by
  unfold result at hresult
  cases heff : op.effect with
  | noop =>
    rw [heff] at hresult
    cases Except.ok.inj hresult
  | delete =>
    rw [heff] at hresult
    cases Except.ok.inj hresult
  | insert d =>
    rw [heff] at hresult
    obtain rfl := Option.some.inj (Except.ok.inj hresult)
    exact h.keyed d (.inl heff)
  | deleteCreate d =>
    rw [heff] at hresult
    obtain rfl := Option.some.inj (Except.ok.inj hresult)
    exact h.keyed d (.inr (.inr heff))
  | replace d =>
    rw [heff] at hresult
    dsimp only at hresult
    split_ifs at hresult
    · obtain rfl := Option.some.inj (Except.ok.inj hresult)
      exact h.keyed d (.inr (.inl heff))
    · cases Except.ok.inj hresult
  | update ms upsert =>
    rw [heff] at hresult
    -- What is modified is the document that was loaded or the bare one, and both carry the key.
    dsimp only at hresult
    split at hresult
    · exact h.keyed_of_applyAll heff (hx _ rfl) hresult
    · split_ifs at hresult
      · exact h.keyed_of_applyAll heff (ofDocument_bareDocument h.id_ne_null) hresult
      · cases Except.ok.inj hresult

/-- The document that an operation inserts, given the one that it finds. -/
def inserts (op : NetOp) (x : Option Json) : Except EntryError (Option Json) :=
  op.result x.isSome x

/-- What does nothing inserts nothing. -/
theorem ne_noop_of_inserts (h : op.inserts x = .ok (some doc)) : op.effect ≠ .noop := by
  intro hnoop
  unfold inserts result at h
  rw [hnoop] at h
  cases Except.ok.inj h

/-- What an operation inserts is what it leaves at its key, unless it does nothing. -/
theorem inserts_eq_outcome (h : op.effect ≠ .noop) :
    op.inserts x = op.outcome x := by
  unfold inserts result NetOp.outcome
  cases heff : op.effect with
  | noop => exact absurd heff h
  | replace doc => cases x <;> rfl
  | update ms upsert => cases x <;> rfl
  | _ => rfl

/-! ## Operations of single entries -/

/-- Only what needs its target requires it, and what creates the document does not. -/
structure Fresh (op : NetOp) : Prop where
  /-- The operation is well-formed. -/
  wellFormed : op.WellFormed
  /-- The operation does something. -/
  ne_noop : op.effect ≠ .noop
  /-- What creates a document requires no target. -/
  creates : ∀ doc, op.effect = .deleteCreate doc → op.requiresMatch = false
  /-- What creates a missing document requires no target. -/
  upserts : ∀ ms, op.effect = .update ms true → op.requiresMatch = false

/-- An identifier is not null. -/
theorem documentId_ne_null {id : Json} (h : documentId doc = .ok id) : id ≠ .null := by
  unfold documentId at h
  split at h
  · split at h
    · cases h
    · cases h
    · rename_i hnull hid
      obtain rfl := Except.ok.inj h
      rintro rfl
      exact hnull rfl
  · cases h

/-- A replacement carries the identifier of the document that it replaces. -/
theorem ofDocument_withId {replacement id : Json} (hid : id ≠ .null)
    (h : withId replacement id = .ok doc) : DocKey.ofDocument doc = .ok (DocKey.ofId id) := by
  have hput : ∃ members, doc = .obj (Assoc.put idField id members) := by
    unfold withId at h
    split at h
    · rename_i members
      split at h
      · split_ifs at h
        exact ⟨members, (Except.ok.inj h).symm⟩
      · exact ⟨members, (Except.ok.inj h).symm⟩
    · cases h
  obtain ⟨members, rfl⟩ := hput
  exact ofDocument_of_get? (by rw [Assoc.get?_put, if_pos rfl]) hid

/-- The identifier that an update or a delete names is not null. -/
theorem id_ne_null_of_documentId? {e : Entry} {id : Json} {r : Option Json}
    (haction : (∃ update upsert, e.action = .update id update upsert) ∨ e.action = .delete id)
    (h : e.documentId? = .ok r) : id ≠ .null := by
  unfold Entry.documentId? at h
  rcases haction with ⟨update, upsert, haction⟩ | haction
  all_goals
    rw [haction] at h
    dsimp only at h
    split_ifs at h with hnull
    exact hnull

/-- What an entry is read into. -/
inductive ReadOff (c : Context) (e : Entry) : NetOp → Prop
  /-- An insert overwrites when it is applied again. -/
  | insert {doc id : Json} (action : e.action = .insert doc) (identified : documentId doc = .ok id) :
      ReadOff c e ⟨id, if c.reapplying then .deleteCreate doc else .insert doc, false⟩
  /-- A replacement needs its target, unless it is an upsert. -/
  | replace {id update replacement doc : Json} {upsert : Bool}
      (action : e.action = .update id update upsert) (identified : id ≠ .null)
      (parsed : Update.parse update = .ok (.replace replacement))
      (carries : withId replacement id = .ok doc) :
      ReadOff c e (if upsert || c.upserts then ⟨id, .deleteCreate doc, false⟩
        else ⟨id, .replace doc, true⟩)
  /-- A modification needs its target, unless it is an upsert. -/
  | modify {id update : Json} {upsert : Bool} {ms : List Modifier}
      (action : e.action = .update id update upsert) (identified : id ≠ .null)
      (parsed : Update.parse update = .ok (.modify ms)) :
      ReadOff c e ⟨id, .update ms (upsert || c.upserts), !(upsert || c.upserts)⟩
  /-- A delete needs its target. -/
  | delete {id : Json} (action : e.action = .delete id) (identified : id ≠ .null) :
      ReadOff c e ⟨id, .delete, true⟩

theorem readOff_of_ofEntry? {c : Context} {e : Entry} (h : ofEntry? c e = .ok (some op)) :
    ReadOff c e op := by
  unfold ofEntry? at h
  cases haction : e.action with
  | insert doc =>
    rw [haction] at h
    obtain ⟨id, hid, h⟩ := bind_eq_ok h
    obtain rfl := Option.some.inj (Except.ok.inj h)
    exact .insert haction hid
  | update id update upsert =>
    rw [haction] at h
    obtain ⟨r, hid, h⟩ := bind_eq_ok h
    have hnull := id_ne_null_of_documentId? (.inl ⟨_, _, haction⟩) hid
    obtain ⟨parsed, hparse, h⟩ := bind_eq_ok h
    cases parsed with
    | replace replacement =>
      obtain ⟨doc, hdoc, h⟩ := bind_eq_ok h
      obtain rfl := Option.some.inj (Except.ok.inj h)
      exact .replace haction hnull hparse hdoc
    | modify ms =>
      obtain rfl := Option.some.inj (Except.ok.inj h)
      exact .modify haction hnull hparse
  | delete id =>
    rw [haction] at h
    obtain ⟨r, hid, h⟩ := bind_eq_ok h
    obtain rfl := Option.some.inj (Except.ok.inj h)
    exact .delete haction (id_ne_null_of_documentId? (.inr haction) hid)
  | noop =>
    rw [haction] at h
    cases h
  | command command =>
    rw [haction] at h
    cases h

theorem ofEntry?_of_readOff {c : Context} {e : Entry} (h : ReadOff c e op) :
    ofEntry? c e = .ok (some op) := by
  unfold ofEntry? Entry.documentId?
  cases h with
  | insert action identified =>
    rw [action]
    dsimp only
    rw [identified]
    rfl
  | replace action identified parsed carries =>
    rw [action]
    dsimp only
    rw [if_neg identified, parsed]
    simp only [bind, Except.bind, carries]
    rfl
  | modify action identified parsed =>
    rw [action]
    dsimp only
    rw [if_neg identified, parsed]
    rfl
  | delete action identified =>
    rw [action]
    dsimp only
    rw [if_neg identified]
    rfl

/-- The operation of an entry is well-formed. -/
theorem fresh_of_ofEntry? {c : Context} {e : Entry} (h : ofEntry? c e = .ok (some op)) :
    op.Fresh := by
  cases readOff_of_ofEntry? h with
  | insert action identified =>
    rename_i doc id
    have hkey : DocKey.ofDocument doc = .ok (DocKey.ofId id) := by
      rw [DocKey.ofDocument, identified]
      rfl
    have hnull := documentId_ne_null identified
    cases c.reapplying
    · exact ⟨⟨hnull, by rintro d (heff | heff | heff) <;> cases heff; exact hkey, by simp, by simp,
        fun _ _ => rfl⟩, by simp, by simp, by simp⟩
    · exact ⟨⟨hnull, by rintro d (heff | heff | heff) <;> cases heff; exact hkey, by simp, by simp,
        by simp⟩, by simp, fun _ _ => rfl, by simp⟩
  | replace action identified parsed carries =>
    have hkey := ofDocument_withId identified carries
    split_ifs
    · exact ⟨⟨identified, by rintro d (heff | heff | heff) <;> cases heff; exact hkey, by simp,
        by simp, by simp⟩, by simp, fun _ _ => rfl, by simp⟩
    · exact ⟨⟨identified, by rintro d (heff | heff | heff) <;> cases heff; exact hkey, by simp,
        by simp, by simp⟩, by simp, by simp, by simp⟩
  | modify action identified parsed =>
    refine ⟨⟨identified, (by rintro d (heff | heff | heff) <;> cases heff), ?_, by simp, by simp⟩,
      by simp, by simp, ?_⟩
    · intro ms' upsert' heff m hm
      obtain ⟨rfl, -⟩ := Effect.update.inj heff
      exact Update.sparesId_of_parse parsed hm
    · intro ms' heff
      rw [(Effect.update.inj heff).2]
      rfl
  | delete action identified =>
    exact ⟨⟨identified, (by rintro d (heff | heff | heff) <;> cases heff), by simp, by simp,
      by simp⟩, by simp, by simp, by simp⟩

/-- An entry is read into no operation exactly if it changes no document. -/
theorem ofEntry?_eq_none {c : Context} {e : Entry} :
    ofEntry? c e = .ok none ↔ e.isCrud = false := by
  unfold ofEntry? Entry.isCrud
  cases haction : e.action with
  | insert doc =>
    refine iff_of_false (fun h => ?_) (by simp)
    obtain ⟨id, -, h⟩ := bind_eq_ok h
    cases h
  | update id update upsert =>
    refine iff_of_false (fun h => ?_) (by simp)
    obtain ⟨r, -, h⟩ := bind_eq_ok h
    obtain ⟨parsed, -, h⟩ := bind_eq_ok h
    cases parsed with
    | replace replacement =>
      obtain ⟨doc, -, h⟩ := bind_eq_ok h
      cases h
    | modify ms => cases h
  | delete id =>
    refine iff_of_false (fun h => ?_) (by simp)
    obtain ⟨r, -, h⟩ := bind_eq_ok h
    cases h
  | noop | command command => exact iff_of_true rfl rfl

/-- A command has no operation. -/
theorem ofEntry?_of_isCommand {c : Context} {e : Entry} (h : e.isCommand = true) :
    ofEntry? c e = .ok none := by
  obtain ⟨position, hash, ns, action⟩ := e
  cases action with
  | command command => rfl
  | _ => cases h

/-- The operation of an entry is on the document that the entry changes. -/
theorem docKey?_of_ofEntry? {c : Context} {e : Entry} (h : ofEntry? c e = .ok (some op)) :
    e.docKey? = .ok (some op.key) := by
  unfold Entry.docKey? Entry.documentId?
  cases readOff_of_ofEntry? h with
  | insert action identified =>
    rw [action]
    dsimp only
    rw [identified]
    rfl
  | replace action identified =>
    rw [action]
    dsimp only
    rw [if_neg identified]
    split_ifs <;> rfl
  | modify action identified | delete action identified =>
    rw [action]
    dsimp only
    rw [if_neg identified]
    rfl

end Replica.NetOp
