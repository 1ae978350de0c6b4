import Replica.Proofs.Analysis.Batches
import Replica.Proofs.Update.Grammar
import Replica.RawBatch

/-!
# Checked batches and the analysis

A batch is checked entry by entry before anything of it is executed, and its entries are read again
when they are analyzed. Reading them is all of the analysis that can fail
(`Batch.ofEntries_eq_error`), and it refuses an entry that changes a document exactly as the check
does (`NetOp.map_ofEntry?`). One case is left out of the check: that a replacement names another
identifier than that of its document (`Action.ChangesId`) is found by the analysis only. So this is
what a checked batch can still be refused for (`RawBatch.analyzed_of_check`).
-/

namespace Replica

/-- The update replaces the document with the identifier `id` by one that names the identifier
`found`. -/
inductive Action.ChangesId : Action → Json → Json → Prop
  /-- The replacement has another value in its member `_id`. -/
  | update {id found : Json} {members : Json.Members} {upsert : Bool}
      (replaces : Update.Replaces members) (names : Assoc.get? idField members = some found)
      (other : found.same id = false) : ChangesId (.update id (.obj members) upsert) id found

/-- What is reported about a replacement that names another identifier. -/
def EntryError.changedId (id found : Json) : EntryError :=
  .invalidUpdate
    ("replacement changes " ++ idField ++ " from " ++ id.render ++ " to " ++ found.render)

/-- An object cannot replace a document exactly if it names another identifier. -/
theorem withId_eq_error {members : Json.Members} {id : Json} {err : EntryError} :
    withId (.obj members) id = .error err ↔
      ∃ found, Assoc.get? idField members = some found ∧ found.same id = false ∧
        err = .changedId id found := by
  rw [withId]
  split
  · rename_i found hfound
    split_ifs with hsame
    · simp [hfound, hsame]
    · constructor
      · intro h
        exact ⟨found, hfound, Bool.eq_false_of_not_eq_true hsame, (Except.error.inj h).symm⟩
      · rintro ⟨found', hfound', -, rfl⟩
        obtain rfl := Option.some.inj (hfound.symm.trans hfound')
        rfl
  · rename_i hfound
    simp [hfound]

namespace NetOp

variable {c : Context} {e : Entry}

/-- A replacement that names another identifier is refused with both identifiers. -/
theorem ofEntry?_of_changesId {id found : Json} (he : e.checkSupported = .ok ())
    (h : e.action.ChangesId id found) : ofEntry? c e = .error (.changedId id found) := by
  obtain ⟨position, hash, ns, action⟩ := e
  cases h with
  | update replaces names other =>
    obtain ⟨r, hid, -⟩ := bind_eq_ok he
    have hparse := Update.parse_eq_replace_iff.2 ⟨rfl, _, rfl, replaces⟩
    have hwithId := withId_eq_error.2 ⟨found, names, other, rfl⟩
    simp only [NetOp.ofEntry?, hid, hparse, hwithId, bind, Except.bind]

/-- An entry that changes no identifier, and that is no command, is refused by the analysis exactly
as it is by the check. -/
theorem map_ofEntry? (he : e.isCommand = false) (h : ∀ id found, ¬ e.action.ChangesId id found) :
    (NetOp.ofEntry? c e).map (fun _ => ()) = e.checkSupported := by
  obtain ⟨position, hash, ns, action⟩ := e
  unfold ofEntry? Entry.checkSupported
  cases action with
  | insert doc =>
    simp only [Entry.documentId?]
    cases documentId doc <;> rfl
  | update id update upsert =>
    dsimp only
    generalize Entry.documentId? _ = documentId
    cases documentId with
    | error err => rfl
    | ok r =>
      cases hparse : Update.parse update with
      | error err => rfl
      | ok parsed =>
        cases parsed with
        | modify ms => rfl
        | replace doc =>
          obtain ⟨rfl, members, rfl, hreplaces⟩ := Update.parse_eq_replace_iff.1 hparse
          cases hwithId : withId (.obj members) id with
          | ok doc => simp only [bind, Except.bind, hwithId]; rfl
          | error err =>
            -- Only another identifier keeps an object from replacing.
            obtain ⟨found, hnames, hother, -⟩ := withId_eq_error.1 hwithId
            exact absurd (.update hreplaces hnames hother) (h id found)
  | delete id =>
    dsimp only
    cases Entry.documentId? _ <;> rfl
  | noop => rfl
  | command command => cases he

/-- An entry that passed its check is read, unless it is a replacement that names another
identifier. Then this is what is reported. -/
theorem ofEntry?_of_checkSupported (he : e.checkSupported = .ok ()) :
    (∃ op?, ofEntry? c e = .ok op?) ∨
      ∃ id found, e.action.ChangesId id found ∧ ofEntry? c e = .error (.changedId id found) := by
  by_cases hid : ∃ id found, e.action.ChangesId id found
  · obtain ⟨id, found, hchanges⟩ := hid
    exact .inr ⟨id, found, hchanges, ofEntry?_of_changesId he hchanges⟩
  · have hkeeps : ∀ id found, ¬ e.action.ChangesId id found := by simpa using hid
    refine .inl ?_
    cases hcommand : e.isCommand with
    | true => exact ⟨none, ofEntry?_of_isCommand hcommand⟩
    | false =>
      have hread := map_ofEntry? (c := c) hcommand hkeeps
      rw [he] at hread
      cases hop : ofEntry? c e with
      | ok op? => exact ⟨op?, rfl⟩
      | error err => rw [hop] at hread; cases hread

/-- What passed its check and is read names no other identifier. -/
theorem not_changesId_of_ofEntry? {op? : Option NetOp} (he : e.checkSupported = .ok ())
    (hop : ofEntry? c e = .ok op?) (id found : Json) : ¬ e.action.ChangesId id found := by
  intro hchanges
  rw [ofEntry?_of_changesId he hchanges] at hop
  cases hop

end NetOp

namespace Batch

variable {c : Context} {g : Gathering} {es : List Entry} {err : EntryError}

/-- Entries cannot be gathered exactly if one of them cannot be read, and the first of these says
why. -/
theorem gather_eq_error :
    gather c g es = .error err ↔ es.mapM (NetOp.ofEntry? c) = .error err := by
  -- What was gathered does not matter: an entry changes it, and never is there a failure for it.
  induction es generalizing g with
  | nil => simp [gather, pure, Except.pure]
  | cons e es ih =>
    cases hop : NetOp.ofEntry? c e with
    | error err' =>
      have he : e.isCommand = false := by
        cases he : e.isCommand with
        | false => rfl
        | true => rw [NetOp.ofEntry?_of_isCommand he] at hop; cases hop
      rw [gather_error he hop, List.mapM_cons, hop]
      simp [bind, Except.bind]
    | ok op? =>
      rw [mapM_cons_eq_error hop]
      cases he : e.isCommand with
      | true => rw [gather_command he, map_eq_error, ih]
      | false =>
        cases op? with
        | none => rw [gather_none he hop, ih]
        | some op =>
          cases hadd : g.add e.ns op with
          | some g' => rw [gather_added he hop hadd, ih]
          | none => rw [gather_closed he hop hadd, map_eq_error, ih]

/-- Entries cannot be analyzed exactly if one of them cannot be read, and the first of these says
why. -/
theorem ofEntries_eq_error :
    ofEntries c es = .error err ↔ es.mapM (NetOp.ofEntry? c) = .error err := by
  rw [← gather_eq_error (g := []), gather_eq_map, map_eq_error]

end Batch

namespace RawBatch

variable {c : Context} {b : RawBatch}

/-- What the analysis refuses of a checked batch is the first replacement that names another
identifier than that of its document. -/
theorem first_changesId_of_error {err : EntryError} (h : b.check = .ok ())
    (herr : Batch.ofEntries c b.entries = .error err) :
    ∃ earlier e later id found, b.entries = earlier ++ e :: later ∧
      (∀ a ∈ earlier, ∀ id found, ¬ a.action.ChangesId id found) ∧
      e.action.ChangesId id found ∧ err = .changedId id found := by
  have hchecked : ∀ e ∈ b.entries, e.checkSupported = .ok () := forM_eq_ok.1 h
  obtain ⟨earlier, e, later, hsplit, hearlier, hfail⟩ :=
    first_of_mapM_eq_error (Batch.ofEntries_eq_error.1 herr)
  rw [hsplit] at hchecked
  rcases NetOp.ofEntry?_of_checkSupported (c := c) (hchecked e (by simp)) with
    ⟨op?, hop⟩ | ⟨id, found, hchanges, hreported⟩
  · rw [hfail] at hop
    cases hop
  · refine ⟨earlier, e, later, id, found, hsplit, fun a ha => ?_, hchanges,
      Except.error.inj (hfail.symm.trans hreported)⟩
    obtain ⟨op?, hop⟩ := hearlier a ha
    exact NetOp.not_changesId_of_ofEntry? (hchecked a (by simp [ha])) hop

/-- A checked batch is analyzed exactly if none of its replacements names another identifier than
that of its document. Otherwise the first one that does is what the analysis refuses. -/
theorem analyzed_of_check (h : b.check = .ok ()) :
    ((∃ batches, Batch.ofEntries c b.entries = .ok batches) ↔
      ∀ e ∈ b.entries, ∀ id found, ¬ e.action.ChangesId id found) ∧
    ∀ err, Batch.ofEntries c b.entries = .error err →
      ∃ earlier e later id found, b.entries = earlier ++ e :: later ∧
        (∀ a ∈ earlier, ∀ id found, ¬ a.action.ChangesId id found) ∧
        e.action.ChangesId id found ∧ err = .changedId id found := by
  refine ⟨⟨?_, fun hall => ?_⟩, fun err => first_changesId_of_error h⟩
  · rintro ⟨batches, hbatches⟩ e he
    -- Every entry was read, as the analysis would have failed with the first that is not.
    cases hops : b.entries.mapM (NetOp.ofEntry? c) with
    | error err =>
      rw [Batch.ofEntries_eq_error.2 hops] at hbatches
      cases hbatches
    | ok ops =>
      obtain ⟨op?, -, hop⟩ := exists_of_mem_of_mapM hops he
      exact NetOp.not_changesId_of_ofEntry? (forM_eq_ok.1 h e he) hop
  · cases hbatches : Batch.ofEntries c b.entries with
    | ok batches => exact ⟨batches, rfl⟩
    | error err =>
      obtain ⟨earlier, e, later, id, found, hsplit, -, hchanges, -⟩ :=
        first_changesId_of_error h hbatches
      exact absurd hchanges (hall e (by simp [hsplit]) id found)

theorem analyzed_of_check_shelved :
    let shelf : Namespace := ⟨"shop", "shelf"⟩
    let kept : Entry :=
      ⟨⟨1, 1⟩, 1, shelf, .update (.str "a") (.obj [("_id", .str "a"), ("row", .str "2")]) false⟩
    let moved : Entry := ⟨⟨1, 2⟩, 2, shelf, .update (.str "a") (.obj [("_id", .str "b")]) true⟩
    (ofEntries [kept] true).check = .ok () ∧ (ofEntries [kept, moved] true).check = .ok () ∧
      (∃ batches, Batch.ofEntries .steady [kept] = .ok batches) ∧
      ¬ ∃ batches, Batch.ofEntries .steady [kept, moved] = .ok batches := by
  intro shelf kept moved
  have hkept : (ofEntries [kept] true).check = .ok () := by decide +kernel
  have hboth : (ofEntries [kept, moved] true).check = .ok () := by decide +kernel
  have hkeeps : ∀ id found, ¬ kept.action.ChangesId id found := by
    rintro _ _ ⟨-, names, other⟩
    obtain rfl := Option.some.inj names
    cases other
  have hmoves : moved.action.ChangesId (.str "a") (.str "b") := by
    refine .update ?_ rfl rfl
    rw [← Update.all_not_isOperator]
    decide
  refine ⟨hkept, hboth, (analyzed_of_check hkept).1.2 ?_, fun h => ?_⟩
  · exact List.forall_mem_singleton.2 hkeeps
  · exact (analyzed_of_check hboth).1.1 h moved (by simp [ofEntries]) _ _ hmoves

/-- The check lets a replacement with another identifier pass, and the analysis refuses it. -/
theorem check_renumbered :
    let renumbered : Entry :=
      ⟨⟨1, 1⟩, 10, ⟨"shop", "items"⟩, .update (.int 1) (.obj [("_id", .int 2)]) false⟩
    (ofEntries [renumbered] true).check = .ok () ∧
      Batch.ofEntries .steady [renumbered] =
        .error (.invalidUpdate "replacement changes _id from 1 to 2") := by
  decide +kernel

end RawBatch

end Replica
