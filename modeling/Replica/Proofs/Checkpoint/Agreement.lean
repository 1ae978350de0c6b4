import Replica.Checkpoint.Handle
import Replica.Proofs.Position
import Replica.Proofs.StateRow

/-!
# Memory and storage of the checkpoint agree

A mark is read back from its document as it was written (`ofDocument?_document`), so a mark that was
stored is the one that is loaded (`load_of_store`), and one that could not be stored changes nothing
that can be read (`sameData_of_store`). Hence the mark in memory is the one that is loaded from the
store, whatever calls are made and whatever happens to the store between them
(`agrees_runAll`).
-/

namespace Replica

namespace Checkpoint

variable {m : Mark} {s s' : Store} {c c' : Checkpoint} {e : ReplicationError} {retries : Nat}
  {P : Store → Prop}

/-! ## The document -/

theorem nodup_content (m : Mark) : (idField :: (content m).map Prod.fst).Nodup := by
  simp [content, idField]

/-- A mark is read back from its document as it was written. -/
theorem ofDocument?_document (m : Mark) : ofDocument? (row.document (content m)) = some m := by
  unfold ofDocument?
  simp only [StateRow.member?_document (nodup_content m)]
  simp [content, Assoc.get?, idField, Json.text?, Json.int64?_ofInt64, Position.ofJson?_toJson]

/-! ## Storing -/

/-- What is loaded depends on the data of the store. -/
theorem load_congr (h : s.SameData s') : load s' = load s := by
  rw [load, StateRow.load?_congr h, load]

/-- A mark that was saved is loaded. -/
theorem load_of_save (hs : s.WellFormed) (h : row.save (content m) s = (.ok (), s')) :
    load s' = .ok m := by
  rw [load, StateRow.load?_of_save (nodup_content m) hs h]
  dsimp only
  rw [ofDocument?_document]

/-- A mark that was stored, in whatever attempt, is loaded. -/
theorem load_of_store (hs : s.WellFormed) (h : store m retries s = (.ok (), s')) :
    load s' = .ok m := by
  induction retries generalizing s with
  | zero =>
    unfold store store.persisted at h
    rcases hsave : row.save (content m) s with ⟨e | ⟨⟩, s₁⟩
    · rw [hsave] at h
      cases congrArg Prod.fst h
    · rw [hsave] at h
      obtain ⟨-, rfl⟩ := Prod.mk.inj h
      exact load_of_save hs hsave
  | succ retries ih =>
    unfold store at h
    rcases hsave : row.save (content m) s with ⟨e | ⟨⟩, s₁⟩
    · have hs₁ := (StateRow.sameData_of_save hsave).wellFormed hs
      rw [hsave] at h
      split at h
      · rename_i heq
        obtain ⟨-, rfl⟩ := Prod.mk.inj heq
        exact ih hs₁ h
      · cases congrArg Prod.fst h
    · rw [hsave] at h
      obtain ⟨-, rfl⟩ := Prod.mk.inj h
      exact load_of_save hs hsave

/-- Storing keeps what saving keeps, whether it succeeds or not. -/
theorem keeps_store (hsave : ∀ m s, P s → P (row.save (content m) s).2) (hs : P s) :
    P (store m retries s).2 := by
  induction retries generalizing s with
  | zero => exact hsave m s hs
  | succ retries ih =>
    -- Each attempt keeps the property, also one that is refused.
    have hfirst := hsave m s hs
    unfold store
    split
    · rename_i heq
      rw [heq] at hfirst
      exact ih hfirst
    · exact hfirst

theorem sameData_of_persisted (h : store.persisted (row.save (content m) s) = (.error e, s')) :
    s.SameData s' ∧ ∃ cause, e = .ofPersisting cause := by
  unfold store.persisted at h
  rcases hsave : row.save (content m) s with ⟨cause | ⟨⟩, s₁⟩
  · rw [hsave] at h
    obtain ⟨⟨rfl⟩, rfl⟩ := Prod.mk.inj h
    exact ⟨StateRow.sameData_of_save hsave, cause, rfl⟩
  · rw [hsave] at h
    cases congrArg Prod.fst h

/-- A mark that could not be stored in any attempt changes nothing that can be read. -/
theorem sameData_of_store (h : store m retries s = (.error e, s')) :
    s.SameData s' ∧ ∃ cause, e = .ofPersisting cause := by
  induction retries generalizing s with
  | zero => exact sameData_of_persisted h
  | succ retries ih =>
    unfold store at h
    split at h
    · rename_i hsave
      obtain ⟨hsame, hcause⟩ := ih h
      exact ⟨(StateRow.sameData_of_save hsave).trans hsame, hcause⟩
    · exact sameData_of_persisted h

end Checkpoint

/-! ## Calls -/

/-- The mark that a call moves to. -/
def CheckpointCall.target : CheckpointCall → Mark
  | advance m | force m => m
  | reset => .initial

namespace Checkpoint

variable {m : Mark} {s s' : Store} {c c' : Checkpoint} {e : ReplicationError} {P : Store → Prop}

theorem force_eq_ok (h : c.force m s = (.ok (), c', s')) :
    c' = { c with current := m } ∧ store m (c.attempts - 1) s = (.ok (), s') := by
  unfold force at h
  split at h
  · rename_i hstore
    obtain ⟨-, h⟩ := Prod.mk.inj h
    obtain ⟨rfl, rfl⟩ := Prod.mk.inj h
    exact ⟨rfl, hstore⟩
  · cases congrArg Prod.fst h

theorem force_eq_error (h : c.force m s = (.error e, c', s')) :
    c' = c ∧ s.SameData s' ∧ ∃ cause, e = .ofPersisting cause := by
  unfold force at h
  split at h
  · cases congrArg Prod.fst h
  · rename_i hstore
    obtain ⟨he, h⟩ := Prod.mk.inj h
    obtain ⟨rfl, rfl⟩ := Prod.mk.inj h
    obtain rfl := Except.error.inj he
    exact ⟨rfl, sameData_of_store hstore⟩

theorem keeps_force (hsave : ∀ m s, P s → P (row.save (content m) s).2) (hs : P s) :
    P (c.force m s).2.2 := by
  have hstore : P (store m (c.attempts - 1) s).2 := keeps_store hsave hs
  unfold force
  split <;> rename_i heq <;> rw [heq] at hstore <;> exact hstore

/-- An advance goes to a mark that does not lie before the current one, or fails. -/
theorem advance_eq_ok (h : c.advance m s = (.ok (), c', s')) :
    ¬ m.position < c.current.position ∧ c.force m s = (.ok (), c', s') := by
  unfold advance at h
  split_ifs at h with hback
  · cases congrArg Prod.fst h
  · exact ⟨hback, h⟩

end Checkpoint

namespace CheckpointCall

variable {request : CheckpointCall} {s s' : Store} {c c' : Checkpoint} {e : ReplicationError}

/-- A call that succeeds moves to its target, in memory and in the store. -/
theorem run_eq_ok (hs : s.WellFormed) (h : request.run c s = (.ok (), c', s')) :
    c' = { c with current := request.target } ∧ Checkpoint.load s' = .ok request.target := by
  have hforce : c.force request.target s = (.ok (), c', s') := by
    cases request with
    | advance m => exact (Checkpoint.advance_eq_ok h).2
    | force m => exact h
    | reset => exact h
  obtain ⟨hc, hstore⟩ := Checkpoint.force_eq_ok hforce
  exact ⟨hc, Checkpoint.load_of_store hs hstore⟩

/-- A call that fails changes nothing, in memory or in the store. -/
theorem run_eq_error (h : request.run c s = (.error e, c', s')) :
    c' = c ∧ s.SameData s' ∧ ((∃ current requested, e = .nonMonotonicCheckpoint current requested) ∨
      ∃ cause, e = .ofPersisting cause) := by
  have hforce : ∀ {m}, c.force m s = (.error e, c', s') → c' = c ∧ s.SameData s' ∧
      ((∃ current requested, e = .nonMonotonicCheckpoint current requested) ∨
        ∃ cause, e = .ofPersisting cause) := by
    intro m hm
    obtain ⟨hc, hsame, hcause⟩ := Checkpoint.force_eq_error hm
    exact ⟨hc, hsame, .inr hcause⟩
  cases request with
  | advance m =>
    unfold run Checkpoint.advance at h
    dsimp only at h
    split_ifs at h with hback
    · obtain ⟨he, h⟩ := Prod.mk.inj h
      obtain ⟨rfl, rfl⟩ := Prod.mk.inj h
      exact ⟨rfl, .refl _, .inl ⟨_, _, (Except.error.inj he).symm⟩⟩
    · exact hforce h
  | force m => exact hforce h
  | reset => exact hforce h

/-- A call keeps what saving a mark keeps, whether it succeeds or not. -/
theorem keeps_run {P : Store → Prop}
    (hsave : ∀ m s, P s → P (Checkpoint.row.save (Checkpoint.content m) s).2) (hs : P s) :
    P (request.run c s).2.2 := by
  cases request with
  | advance m =>
    unfold run Checkpoint.advance
    dsimp only
    split_ifs
    · exact hs
    · exact Checkpoint.keeps_force hsave hs
  | force m => exact Checkpoint.keeps_force hsave hs
  | reset => exact Checkpoint.keeps_force hsave hs

/-- A call keeps the store well-formed. -/
theorem wellFormed_run (hs : s.WellFormed) : (request.run c s).2.2.WellFormed :=
  keeps_run (fun _ _ hs => StateRow.wellFormed_save hs) hs

end CheckpointCall

/-! ## Sessions -/

/-- The store of a member, and the handle of its checkpoint that is in use. -/
structure CheckpointSession where
  /-- The handle. -/
  handle : CheckpointHandle
  /-- The store. -/
  store : Store

/-- What may happen in a session. -/
inductive CheckpointEvent where
  /-- A call is made on the handle. -/
  | call (request : CheckpointCall)
  /-- The handle is closed. -/
  | close
  /-- Another handle is opened. -/
  | openHandle
  /-- The member starts again and loads the checkpoint from the store. -/
  | restart (attempts : Nat)
  /-- Some of the coming commits are to be refused. -/
  | refuse (refusals : Refusals)
  /-- Commits to a collection are to fail. -/
  | failWritesTo (ns : Namespace)
  /-- Commits to all collections are to succeed again. -/
  | clearWriteFailures
  /-- A transaction on other databases is committed, with or without success. -/
  | commit (t : Transaction) (elsewhere : ∀ w ∈ t, w.database ≠ reservedDatabase)

namespace CheckpointSession

variable {x x' : CheckpointSession} {request : CheckpointCall} {e : ReplicationError}

/-- The mark that is held in memory. -/
def mark (x : CheckpointSession) : Mark := x.handle.checkpoint.current

/-- Makes a call on the handle. -/
def call (x : CheckpointSession) (request : CheckpointCall) :
    Except ReplicationError Unit × CheckpointSession :=
  let (result, handle, store) := x.handle.call request x.store
  (result, ⟨handle, store⟩)

/-- The session behind an event. -/
def step (x : CheckpointSession) : CheckpointEvent → CheckpointSession
  | .call request => (x.call request).2
  | .close => { x with handle := x.handle.close }
  | .openHandle => { x with handle := { x.handle with isOpen := true } }
  | .restart attempts =>
    match Checkpoint.ofStore x.store attempts with
    | .ok c => { x with handle := ⟨c, true⟩ }
    | .error _ => x
  | .refuse refusals => { x with store := { x.store with refusals := refusals } }
  | .failWritesTo ns => { x with store := x.store.failWritesTo ns }
  | .clearWriteFailures => { x with store := x.store.clearWriteFailures }
  | .commit t _ => { x with store := (x.store.commit t).2 }

/-- The session behind events in order. -/
def runAll (events : List CheckpointEvent) (x : CheckpointSession) : CheckpointSession :=
  events.foldl step x

/-- The mark in memory is the one that is loaded from the store. -/
structure Agrees (x : CheckpointSession) : Prop where
  /-- The store is well-formed. -/
  wellFormed : x.store.WellFormed
  /-- What is loaded is what is held in memory. -/
  load : Checkpoint.load x.store = .ok x.mark

/-- A call on an open handle is made on its checkpoint. -/
theorem call_of_isOpen (h : x.handle.isOpen = true) : x.call request =
    ((request.run x.handle.checkpoint x.store).1,
      ⟨{ x.handle with checkpoint := (request.run x.handle.checkpoint x.store).2.1 },
        (request.run x.handle.checkpoint x.store).2.2⟩) := by
  rw [call, CheckpointHandle.call, if_pos h]

/-- A call on a closed handle is refused. -/
theorem call_of_isClosed (h : x.handle.isOpen = false) :
    x.call request = (.error .closedHandle, x) := by
  rw [call, CheckpointHandle.call, if_neg (by rw [h]; decide)]

/-- A call that succeeds moves to its target, in memory and in the store. -/
theorem call_eq_ok (hx : x.store.WellFormed) (h : x.call request = (.ok (), x')) :
    x'.mark = request.target ∧ Checkpoint.load x'.store = .ok request.target := by
  cases hopen : x.handle.isOpen with
  | false =>
    rw [call_of_isClosed hopen] at h
    cases congrArg Prod.fst h
  | true =>
    rw [call_of_isOpen hopen] at h
    obtain ⟨hresult, rfl⟩ := Prod.mk.inj h
    obtain ⟨hmark, hload⟩ := CheckpointCall.run_eq_ok hx (Prod.ext hresult rfl)
    exact ⟨congrArg Checkpoint.current hmark, hload⟩

/-- A call that fails changes nothing, in memory or in the store. -/
theorem call_eq_error (h : x.call request = (.error e, x')) :
    x'.mark = x.mark ∧ x.store.SameData x'.store ∧ (e = .closedHandle ∨
      (∃ current requested, e = .nonMonotonicCheckpoint current requested) ∨
      ∃ cause, e = .ofPersisting cause) := by
  cases hopen : x.handle.isOpen with
  | false =>
    rw [call_of_isClosed hopen] at h
    obtain ⟨⟨rfl⟩, rfl⟩ := Prod.mk.inj h
    exact ⟨rfl, .refl _, .inl rfl⟩
  | true =>
    rw [call_of_isOpen hopen] at h
    obtain ⟨hresult, rfl⟩ := Prod.mk.inj h
    obtain ⟨hmark, hsame, he⟩ := CheckpointCall.run_eq_error (Prod.ext hresult rfl)
    exact ⟨congrArg Checkpoint.current hmark, hsame, .inr he⟩

/-- An advance that succeeds does not go back. -/
theorem not_lt_of_advance {target : Mark} (h : x.call (.advance target) = (.ok (), x')) :
    ¬ target.position < x.mark.position := by
  cases hopen : x.handle.isOpen with
  | false =>
    rw [call_of_isClosed hopen] at h
    cases congrArg Prod.fst h
  | true =>
    rw [call_of_isOpen hopen] at h
    obtain ⟨hresult, rfl⟩ := Prod.mk.inj h
    exact (Checkpoint.advance_eq_ok (Prod.ext hresult rfl)).1

/-- Every event keeps memory and storage in agreement. -/
theorem Agrees.step (hx : x.Agrees) (event : CheckpointEvent) : (x.step event).Agrees := by
  cases event with
  | call request =>
    have hwf : (x.call request).2.store.WellFormed := by
      cases hopen : x.handle.isOpen with
      | false =>
        rw [call_of_isClosed hopen]
        exact hx.wellFormed
      | true =>
        rw [call_of_isOpen hopen]
        exact CheckpointCall.wellFormed_run hx.wellFormed
    refine ⟨hwf, ?_⟩
    show Checkpoint.load (x.call request).2.store = .ok (x.call request).2.mark
    -- A call moves both or neither.
    rcases hcall : x.call request with ⟨e | ⟨⟩, x'⟩
    · obtain ⟨hmark, hsame, -⟩ := call_eq_error hcall
      rw [Checkpoint.load_congr hsame, hx.load, hmark]
    · obtain ⟨hmark, hload⟩ := call_eq_ok hx.wellFormed hcall
      rw [hload, hmark]
  | close => exact ⟨hx.wellFormed, hx.load⟩
  | openHandle => exact ⟨hx.wellFormed, hx.load⟩
  | restart attempts =>
    have hload : Checkpoint.ofStore x.store attempts = .ok ⟨x.mark, attempts⟩ := by
      rw [Checkpoint.ofStore, hx.load]
      rfl
    rw [CheckpointSession.step, hload]
    exact ⟨hx.wellFormed, hx.load⟩
  | refuse refusals => exact ⟨hx.wellFormed, hx.load⟩
  | failWritesTo ns => exact ⟨hx.wellFormed, hx.load⟩
  | clearWriteFailures => exact ⟨hx.wellFormed, hx.load⟩
  | commit t elsewhere =>
    refine ⟨hx.wellFormed.commit t, ?_⟩
    have hrow : Checkpoint.row.load? (x.store.commit t).2 = Checkpoint.row.load? x.store :=
      StateRow.load?_commit elsewhere
    show Checkpoint.load (x.store.commit t).2 = _
    rw [Checkpoint.load, hrow]
    exact hx.load

/-- Events in any number and order keep memory and storage in agreement. -/
theorem Agrees.runAll (hx : x.Agrees) (events : List CheckpointEvent) :
    (runAll events x).Agrees := by
  induction events generalizing x with
  | nil => exact hx
  | cons event events ih => exact ih (hx.step event)

/-- Memory and storage of the checkpoint never diverge: after any events what is loaded from the
store is the mark in memory, a call that fails then changes neither, one that succeeds moves to its
target, and an advance succeeds only to a position that does not lie before the current one. -/
theorem agrees_runAll (s : Store) (attempts : Nat) (c : Checkpoint) (hs : s.Reachable)
    (hopen : Checkpoint.ofStore s attempts = .ok c) (events : List CheckpointEvent) :
    let x := runAll events ⟨⟨c, true⟩, s⟩
    Checkpoint.load x.store = .ok x.mark ∧
    (∀ request e x', x.call request = (.error e, x') →
      x'.mark = x.mark ∧ Checkpoint.load x'.store = Checkpoint.load x.store ∧
      (e = .closedHandle ∨ (∃ current requested, e = .nonMonotonicCheckpoint current requested) ∨
        ∃ cause, e = .ofPersisting cause)) ∧
    (∀ request x', x.call request = (.ok (), x') → x'.mark = request.target) ∧
    ∀ target x', x.call (.advance target) = (.ok (), x') →
      x.mark.position.term < target.position.term ∨
        x.mark.position.term = target.position.term ∧ x.mark.position.time ≤ target.position.time := by
  -- The mark in memory is the one that was loaded.
  have hstart : Agrees ⟨⟨c, true⟩, s⟩ := by
    refine ⟨hs.wellFormed, ?_⟩
    rw [Checkpoint.ofStore] at hopen
    cases hload : Checkpoint.load s with
    | error e =>
      rw [hload] at hopen
      cases hopen
    | ok m =>
      rw [hload] at hopen
      obtain rfl := Except.ok.inj hopen
      rfl
  intro x
  have hx : x.Agrees := hstart.runAll events
  refine ⟨hx.load, fun request e x' hcall => ?_, fun request x' hcall => ?_,
    fun target x' hcall => ?_⟩
  · obtain ⟨hmark, hsame, he⟩ := call_eq_error hcall
    exact ⟨hmark, Checkpoint.load_congr hsame, he⟩
  · exact (call_eq_ok hx.wellFormed hcall).1
  · exact Position.term_lt_or_of_not_lt (not_lt_of_advance hcall)

/-- A session that advances while a commit is refused, and then back, which fails. -/
theorem agrees_runAll_advance :
    Checkpoint.ofStore .empty 2 = .ok ⟨.initial, 2⟩ ∧
    let x := runAll [.refuse ⟨0, 1⟩, .call (.advance ⟨7, ⟨1, 5⟩⟩)] ⟨⟨⟨.initial, 2⟩, true⟩, .empty⟩
    (x.call (.advance ⟨8, ⟨1, 4⟩⟩)).1 = .error (.nonMonotonicCheckpoint ⟨1, 5⟩ ⟨1, 4⟩) ∧
    Checkpoint.load x.store = .ok x.mark ∧
    (x.call (.advance ⟨8, ⟨1, 4⟩⟩)).2.mark = x.mark := by
  have hopen : Checkpoint.ofStore .empty 2 = .ok ⟨.initial, 2⟩ := rfl
  refine ⟨hopen, ?_⟩
  intro x
  obtain ⟨hload, herror, -⟩ := agrees_runAll .empty 2 ⟨.initial, 2⟩ .empty hopen
    [.refuse ⟨0, 1⟩, .call (.advance ⟨7, ⟨1, 5⟩⟩)]
  have hback : (x.call (.advance ⟨8, ⟨1, 4⟩⟩)).1 =
      .error (.nonMonotonicCheckpoint ⟨1, 5⟩ ⟨1, 4⟩) := by
    decide +kernel
  exact ⟨hback, hload, (herror _ _ _ (Prod.ext hback rfl)).1⟩

end CheckpointSession

end Replica
