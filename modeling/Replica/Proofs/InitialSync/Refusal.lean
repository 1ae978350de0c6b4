import Replica.Proofs.InitialSync.Losses

/-!
# An initial sync of which one commit is refused

A run of an initial sync that succeeds is compared with the run in which one of its commits is
refused once. An attempt then ends in the same way, or it loses the commit, or the commit was to set
the flag, with which an attempt begins and ends (`ends_attempt`). A lost attempt is replaced by
another one, which finds the same. Setting the flag is not tried again, and the sync fails for good.
By induction on the attempts, a run still succeeds exactly if the refused commit does not set the
flag (`run_refused`).
-/

namespace Replica

variable {α : Type} {k : Option Nat} {made n : Nat} {copied : Prop}

/-- The state in which the commit that comes behind `count` other ones is refused once. -/
def SyncState.refusing (s : SyncState) (count : Nat) : SyncState :=
  s.setStore { s.store with refusals := ⟨count, 1⟩ }

namespace InitialSync

open SyncState (Twin SameStart)

variable {x : InitialSync} {s a a₁ b : SyncState}

/-! ## Attempts -/

/-- The error with which a sync fails that cannot set the flag. -/
def flagRefused : ReplicationError := .ofPersisting (.rollback "injected rollback")

/-- How the rest of an attempt, which sets the flag at last, ends on twins. -/
inductive Ends (s : SyncState) (k : Option Nat) (made : Nat) (copied : Prop)
    (o o' : Except ReplicationError Unit × SyncState) : Prop
  /-- It fails on the first one with an error that ends the sync. -/
  | fatal (e : ReplicationError) (he : o.1 = .error e) (hfatal : e.isRetryable = false)
  /-- The outcome is the same. -/
  | alike (hresult : o'.1 = o.1) (htwin : Twin k made copied o.2 o'.2)
    (hflag : o.1 = .ok () →
      made < o.2.store.commits ∧ ∀ n, k = some n → n + 1 ≠ o.2.store.commits)
  /-- A commit was lost that does not set the flag. -/
  | lost (n : Nat) (hk : k = some n)
    (hresult : ∃ e, o'.1 = .error e ∧ e.isRetryable = true) (hstart : SameStart s o'.2)
    (hself : Twin none (n + 1) True o.2 o.2)
    (hflag : o.1 = .ok () → n + 1 < o.2.store.commits)
  /-- The flag could not be set. -/
  | flagged (n : Nat) (hk : k = some n) (hok : o.1 = .ok ())
    (hlast : n + 1 = o.2.store.commits) (hquiet : o.2.incidents = [])
    (hresult : o'.1 = .error flagRefused)

theorem Ends.imp {o o' : Except ReplicationError Unit × SyncState}
    (h : Ends s k made True o o') : Ends s k made copied o o' := by
  cases h with
  | fatal e he hfatal => exact .fatal e he hfatal
  | alike hresult htwin hflag => exact .alike hresult (htwin.imp fun _ => trivial) hflag
  | lost n hk hresult hstart hself hflag => exact .lost n hk hresult hstart hself hflag
  | flagged n hk hok hlast hquiet hresult =>
    exact .flagged n hk hok hlast hquiet hresult

theorem Ends.of_mirrors {m : SyncM α} {f : α → SyncM Unit}
    (h : Mirrors (Twin k made copied) (m a) (m b))
    (hf : ∀ x a₁ b₁, m a = (.ok x, a₁) → Twin k made copied a₁ b₁ →
      Ends s k made copied (f x a₁) (f x b₁)) :
    Ends s k made copied ((m >>= f) a) ((m >>= f) b) := by
  obtain ⟨e, he, hfatal⟩ | ⟨hresult, htwin⟩ := h
  · exact .fatal e (SyncM.bind_eq_error he) hfatal
  · rw [SyncM.bind_apply, SyncM.bind_apply]
    rcases hm : m a with ⟨e | x, a₁⟩ <;> rcases hm' : m b with ⟨r, b₁⟩ <;>
      rw [hm, hm'] at hresult htwin
    · obtain rfl : r = .error e := hresult
      exact .alike rfl htwin nofun
    · obtain rfl : r = .ok x := hresult
      exact hf x a₁ b₁ hm htwin

theorem Ends.of_steady {t : SyncState} {m : SyncM α} {f : α → SyncM Unit}
    (hsteady : Steady k made copied m) (hrenewable : Renewable m) (hstart : SameStart t a)
    (h : Twin k made copied a b)
    (hf : ∀ x a₁ b₁, SameStart t a₁ → Twin k made copied a₁ b₁ →
      Ends s k made copied (f x a₁) (f x b₁)) :
    Ends s k made copied ((m >>= f) a) ((m >>= f) b) :=
  .of_mirrors (hsteady a b h) fun x a₁ b₁ hm => hf x a₁ b₁ (hrenewable t a x a₁ hstart hm)

theorem Ends.of_tracks {m : SyncM α} {f : α → SyncM Unit} (h : Tracks s k made (m a) (m b))
    (hf : ∀ x a₁, m a = (.ok x, a₁) → ∀ k made b₁, Twin k made True a₁ b₁ →
      Ends s k made True (f x a₁) (f x b₁)) :
    Ends s k made True ((m >>= f) a) ((m >>= f) b) := by
  cases h with
  | alike h => exact .of_mirrors h fun x a₁ b₁ hm => hf x a₁ hm k made b₁
  | lost n hk hresult hstart hrest =>
    -- Nothing follows on the second one, so what follows on the first one is compared with itself.
    have hself : Ends s none (n + 1) True ((m >>= f) a) ((m >>= f) a) :=
      .of_mirrors hrest fun x a₁ _ hm htwin => hf x a₁ hm none (n + 1) _ htwin
    obtain ⟨e, he, hretryable⟩ := hresult
    have hb : (m >>= f) b = (.error e, (m b).2) := by
      rw [SyncM.bind_apply]
      rcases hm : m b with ⟨r, b₁⟩
      rw [hm] at he
      obtain rfl : r = .error e := he
      rfl
    rw [hb]
    cases hself with
    | fatal e he hfatal => exact .fatal e he hfatal
    | alike _ htwin hflag =>
      exact .lost n hk ⟨e, rfl, hretryable⟩ hstart htwin fun hok => (hflag hok).1
    | lost _ hk | flagged _ hk => cases hk

theorem ends_setConsistent (h : Twin k made copied a b) :
    Ends s k made copied (setConsistent true a) (setConsistent true b) := by
  have hmade := h.store.counted
  obtain ⟨e, he, hfatal⟩ | ⟨a₁, hset, hcommits, hright⟩ := setConsistent_twin h true
  · exact .fatal e he hfatal
  rw [hset]
  have hquiet : a₁.incidents = [] := by
    have hkept : (setConsistent true a).2.incidents = a.incidents := rfl
    rw [hset] at hkept
    exact hkept.trans h.quiet
  split_ifs at hright with hhit
  · exact .flagged a.store.commits hhit rfl hcommits.symm hquiet hright
  · obtain ⟨b₁, hset', htwin⟩ := hright
    rw [hset']
    refine .alike rfl (htwin.later (by omega)) fun _ => ⟨?_, fun n hk heq => hhit ?_⟩
    · show made < a₁.store.commits
      omega
    · rw [hk, Nat.succ.inj (heq.trans hcommits)]

theorem ends_syncFrom (hstart : SameStart s a) (h : Twin k made copied a b)
    (hcopied : k ≠ none → copied) :
    Ends s.answered k made copied (x.syncFrom a) (x.syncFrom b) := by
  refine .of_mirrors (steady_lastEntry a b h) fun first a₁ b₁ hfirst h => ?_
  have hstart := sameStart_lastEntry hstart hfirst
  refine .of_steady steady_checkStopped renewable_checkStopped hstart h fun _ _ _ hstart h => ?_
  refine .of_steady (steady_enter _) (renewable_enter _) hstart h fun _ _ _ hstart h => ?_
  refine Ends.imp (.of_tracks (tracks_replaceData first.mark hstart h hcopied)
    fun _ a₄ _ k made b₄ h => ?_)
  -- Behind the copy all steps but the last one are steady.
  refine .of_mirrors (steady_checkStopped _ _ h) fun _ _ _ _ h => ?_
  refine .of_mirrors (steady_enter .applyingFirstWindow _ _ h) fun _ _ _ _ h => ?_
  refine .of_mirrors (steady_lastEntry _ _ h) fun second _ _ _ h => ?_
  refine .of_mirrors (steady_applyWindow x _ _ _ _ h) fun _ _ _ _ h => ?_
  refine .of_mirrors (steady_checkStopped _ _ h) fun _ _ _ _ h => ?_
  refine .of_mirrors (steady_enter .applyingSecondWindow _ _ h) fun _ _ _ _ h => ?_
  refine .of_mirrors (steady_lastEntry _ _ h) fun third _ _ _ h => ?_
  refine .of_mirrors (steady_applyWindow x _ _ _ _ h) fun _ _ _ _ h => ?_
  refine .of_mirrors (steady_checkStopped _ _ h) fun _ _ _ _ h => ?_
  refine .of_mirrors (steady_enter .rebuildingIndexes _ _ h) fun _ _ _ _ h => ?_
  refine .of_mirrors (steady_start .rebuild "" _ _ h) fun _ _ _ _ h => ?_
  exact ends_setConsistent h

theorem Ends.close {o o' : Except ReplicationError Unit × SyncState}
    (h : Ends s k made copied o o') :
    Ends s k made copied (o.1, (close o.2).2) (o'.1, (close o'.2).2) := by
  have hclose : ∀ {s : SyncState}, s.incidents = [] →
      (InitialSync.close s).2 = { s with calls := s.calls ++ [⟨.close, "", s.phase⟩] } :=
    fun hquiet => congrArg Prod.snd (SyncState.startCall_of_quiet hquiet _ _)
  cases h with
  | fatal e he hfatal => exact .fatal e he hfatal
  | alike hresult htwin hflag =>
    rw [hclose htwin.quiet, hclose htwin.quiet']
    exact .alike hresult { htwin with } hflag
  | lost n hk hresult hstart hself hflag =>
    rw [hclose hself.quiet, hclose hstart.quiet']
    exact .lost n hk hresult { hstart with } { hself with } hflag
  | flagged n hk hok hlast hquiet hresult =>
    rw [hclose hquiet]
    exact .flagged n hk hok hlast hquiet hresult

/-- What an attempt does once the member counts as inconsistent. -/
def proceed (x : InitialSync) : SyncM Unit := do
  checkStopped
  enter .selectingSource
  start .select ""
  let address ← onRemote Remote.select
  start .connect address
  onRemote fun r => r.connect address
  fun s =>
    let (result, s) := x.syncFrom s
    (result, (close s).2)

theorem ends_proceed (hstart : SameStart s a) (h : Twin k made copied a b)
    (hcopied : k ≠ none → copied) :
    Ends s.answered k made copied (x.proceed a) (x.proceed b) := by
  refine .of_steady steady_checkStopped renewable_checkStopped hstart h fun _ _ _ hstart h => ?_
  refine .of_steady (steady_enter _) (renewable_enter _) hstart h fun _ _ _ hstart h => ?_
  refine .of_steady (steady_start _ _) (renewable_start _ _) hstart h fun _ _ _ hstart h => ?_
  refine .of_steady (steady_onRemote data_select) renewable_select hstart h
    fun address _ _ hstart h => ?_
  refine .of_steady (steady_start _ _) (renewable_start _ _) hstart h fun _ _ _ hstart h => ?_
  refine .of_steady (steady_onRemote (data_connect _)) (renewable_connect _) hstart h
    fun _ _ _ hstart h => ?_
  exact (ends_syncFrom hstart h hcopied).close

theorem attempt_of_stopped (x : InitialSync) (h : s.stopped = true) :
    (x.attempt s).1 = .error .cancelled := by
  have hcheck : (checkStopped { s with tails := [], executed := [] }).1 = .error .cancelled := by
    unfold checkStopped
    rw [if_pos h]
  show ((checkStopped >>= _) { s with tails := [], executed := [] }).1 = _
  exact SyncM.bind_eq_error hcheck

/-- An attempt sets the flag first, unless the sync was told to stop. -/
theorem attempt_of_running (x : InitialSync) (h : s.stopped = false) :
    x.attempt s = (setConsistent false >>= fun _ => x.proceed)
      { s with tails := [], executed := [], phase := .inconsistent } := by
  have hcheck : checkStopped { s with tails := [], executed := [] } =
      (.ok (), { s with tails := [], executed := [] }) := by
    unfold checkStopped
    rw [if_neg (by rw [h]; exact Bool.false_ne_true)]
  show (checkStopped >>= _) { s with tails := [], executed := [] } = _
  rw [SyncM.bind_apply, hcheck]
  rfl

/-- With the first commit of an attempt the flag is set, and if another one is refused then the
attempt ends in one of the ways. -/
theorem ends_attempt (h : Twin k made copied a b) (hcopied : k ≠ none → copied) :
    (∃ e, (x.attempt a).1 = .error e ∧ e.isRetryable = false) ∨
      if k = some a.store.commits then (x.attempt b).1 = .error flagRefused
      else Ends a.answered k (a.store.commits + 1) copied (x.attempt a) (x.attempt b) := by
  cases hstopped : a.stopped with
  | true => exact .inl ⟨.cancelled, attempt_of_stopped x hstopped, rfl⟩
  | false =>
    let entered (s : SyncState) : SyncState :=
      { s with tails := [], executed := [], phase := .inconsistent }
    rw [attempt_of_running x hstopped, attempt_of_running x (h.stopped.trans hstopped)]
    have hstart : SameStart a (entered a) :=
      { (h.self (Nat.zero_le _)).imp False.elim with }
    have h : Twin k made copied (entered a) (entered b) := { h with }
    obtain ⟨e, he, hfatal⟩ | ⟨a₁, hset, hcommits, hright⟩ := setConsistent_twin h false
    · exact .inl ⟨e, SyncM.bind_eq_error he, hfatal⟩
    refine .inr ?_
    change if k = some a.store.commits then _ else _ at hright
    split_ifs at hright ⊢ with hhit
    · exact SyncM.bind_eq_error hright
    · obtain ⟨b₁, hset', h⟩ := hright
      rw [SyncM.bind_apply, SyncM.bind_apply, hset, hset']
      exact ends_proceed (renewable_setConsistent false a _ _ a₁ hstart hset) h hcopied

/-! ## Runs -/

/-- An attempt that a sync begins. -/
structure Beginning where
  /-- How many attempts may follow it. -/
  more : Nat
  /-- Its number. -/
  number : Nat
  /-- The state in which it begins. -/
  state : SyncState

/-- The attempts that a sync begins with the attempt that has the number `number` and up to `more`
further ones. -/
def begun (x : InitialSync) : (more number : Nat) → SyncState → List Beginning
  | more, number, s =>
    if linearDelay x.settings.step number ≠ 0 ∧ s.stopped then []
    else
      ⟨more, number, s⟩ ::
        match x.attempt s with
        | (.ok (), _) => []
        | (.error e, s) =>
          match more with
          | 0 => []
          | more + 1 => if e.isRetryable then x.begun more (number + 1) s else []

/-- The commit with a number, counted from the first one that the store ever made, sets the flag in
an attempt: it is the first one of the attempt, or the last one if the attempt succeeds. -/
def SetsFlag (x : InitialSync) (s : SyncState) (n : Nat) : Prop :=
  n = s.store.commits ∨ ((x.attempt s).1 = .ok () ∧ n + 1 = (x.attempt s).2.store.commits)

instance (x : InitialSync) (s : SyncState) (n : Nat) : Decidable (x.SetsFlag s n) :=
  inferInstanceAs (Decidable (_ ∨ _))

/-- Further attempts may follow, and they would succeed if all that this one did were to ask the
source for the tail of its log. -/
def Replaceable (x : InitialSync) (start : Beginning) : Prop :=
  ∃ more n, start.more = more + 1 ∧
    (x.attempts more (start.number + 1) start.state.answered).1 = .finished n

section Attempts

variable {more number : Nat} {e : ReplicationError}

/-- The next attempt comes without a wait, or the sync was not told to stop. -/
def GoesOn (x : InitialSync) (number : Nat) (s : SyncState) : Prop :=
  ¬ (linearDelay x.settings.step number ≠ 0 ∧ s.stopped = true)

theorem attempts_of_ok (hgo : x.GoesOn number s) (h : (x.attempt s).1 = .ok ()) :
    (x.attempts more number s).1 = .finished number ∧
      x.begun more number s = [⟨more, number, s⟩] := by
  unfold attempts begun
  rw [if_neg hgo, if_neg hgo]
  rcases hattempt : x.attempt s with ⟨r, s₁⟩
  rw [hattempt] at h
  obtain rfl : r = .ok () := h
  exact ⟨rfl, rfl⟩

theorem attempts_of_retryable (more : Nat) (hgo : x.GoesOn number s)
    (h : (x.attempt s).1 = .error e) (he : e.isRetryable = true) :
    x.attempts (more + 1) number s = x.attempts more (number + 1) (x.attempt s).2 ∧
      x.begun (more + 1) number s =
        ⟨more + 1, number, s⟩ :: x.begun more (number + 1) (x.attempt s).2 := by
  rw [attempts, begun, if_neg hgo, if_neg hgo]
  rcases hattempt : x.attempt s with ⟨r, s₁⟩
  rw [hattempt] at h
  obtain rfl : r = .error e := h
  dsimp only
  rw [if_pos he, if_pos he]
  exact ⟨rfl, rfl⟩

theorem attempts_of_error (hgo : x.GoesOn number s) (h : (x.attempt s).1 = .error e)
    (he : more = 0 ∨ e.isRetryable = false) : (x.attempts more number s).1 = .failed number e := by
  unfold attempts
  rw [if_neg hgo]
  rcases hattempt : x.attempt s with ⟨r, s₁⟩
  rw [hattempt] at h
  obtain rfl : r = .error e := h
  cases more with
  | zero => rfl
  | succ more =>
    have he := he.resolve_left (Nat.succ_ne_zero more)
    dsimp only
    rw [if_neg (by rw [he]; exact Bool.false_ne_true)]
    rfl

/-- How a sync that succeeds goes on: its next attempt succeeds, or it fails with an error after
which another one does. -/
inductive Continues (x : InitialSync) (more number : Nat) (s : SyncState) (n : Nat)
    (later : List Beginning) : Prop
  /-- The next attempt is the last one. -/
  | last (hok : (x.attempt s).1 = .ok ()) (hlater : later = [])
  /-- There are later ones. -/
  | again (e : ReplicationError) (less : Nat) (he : (x.attempt s).1 = .error e)
    (hretryable : e.isRetryable = true) (hmore : more = less + 1)
    (hrest : (x.attempts less (number + 1) (x.attempt s).2).1 = .finished n)
    (hlater : later = x.begun less (number + 1) (x.attempt s).2)

theorem Continues.isRetryable {later : List Beginning} (h : x.Continues more number s n later)
    (he : (x.attempt s).1 = .error e) : e.isRetryable = true := by
  cases h with
  | last hok =>
    rw [hok] at he
    cases he
  | again _ _ he' hretryable => rwa [← Except.error.inj (he'.symm.trans he)]

theorem attempts_eq_finished (h : (x.attempts more number s).1 = .finished n) :
    x.GoesOn number s ∧ ∃ later, x.begun more number s = ⟨more, number, s⟩ :: later ∧
      x.Continues more number s n later := by
  have hgo : x.GoesOn number s := by
    intro hwait
    unfold attempts at h
    rw [if_pos hwait] at h
    cases h
  refine ⟨hgo, ?_⟩
  cases hresult : (x.attempt s).1 with
  | ok => exact ⟨[], (attempts_of_ok hgo hresult).2, .last hresult rfl⟩
  | error e =>
    by_cases hlast : more = 0 ∨ e.isRetryable = false
    · rw [attempts_of_error hgo hresult hlast] at h
      cases h
    · rw [not_or, Bool.not_eq_false] at hlast
      obtain ⟨less, rfl⟩ := Nat.exists_eq_succ_of_ne_zero hlast.1
      obtain ⟨hattempts, hbegun⟩ := attempts_of_retryable less hgo hresult hlast.2
      rw [hattempts] at h
      exact ⟨_, hbegun, .again e less hresult hlast.2 rfl h rfl⟩

/-- Where a commit is refused, an attempt that does not end the sync fails for good if the commit
sets the flag. Otherwise it has the same outcome, or it may be replaced. -/
theorem attempt_refused {k : Nat} (h : Twin (some k) made True a b)
    (hfatal : ∀ e, (x.attempt a).1 = .error e → e.isRetryable = true) :
    if x.SetsFlag a k then (x.attempt b).1 = .error flagRefused
    else ((x.attempt b).1 = (x.attempt a).1 ∧
        Twin (some k) 0 True (x.attempt a).2 (x.attempt b).2) ∨
      (∃ e, (x.attempt b).1 = .error e ∧ e.isRetryable = true) ∧
        SameStart a.answered (x.attempt b).2 ∧
        Twin (some k) 0 True (x.attempt a).2 (x.attempt a).2 := by
  have hnot : ∀ {e}, (x.attempt a).1 = .error e → e.isRetryable ≠ false := fun he => by
    simp [hfatal _ he]
  obtain ⟨e, he, hretryable⟩ | hends := ends_attempt (x := x) h fun _ => trivial
  · exact absurd hretryable (hnot he)
  split_ifs at hends with hfirst
  · rwa [if_pos (.inl (Option.some.inj hfirst))]
  cases hends with
  | fatal e he hretryable => exact absurd hretryable (hnot he)
  | alike hresult htwin hflag =>
    rw [if_neg]
    · exact .inl ⟨hresult, htwin.later (Nat.zero_le _)⟩
    · rintro (rfl | ⟨hok, hlast⟩)
      · exact hfirst rfl
      · exact (hflag hok).2 k rfl hlast
  | lost n hk hresult hstart hself hflag =>
    obtain rfl := Option.some.inj hk
    have hcounted : k + 1 ≤ (x.attempt a).2.store.commits := hself.store.counted
    rw [if_neg]
    · exact .inr ⟨hresult, hstart, (hself.past hcounted).later (Nat.zero_le _)⟩
    · rintro (rfl | ⟨hok, hlast⟩)
      · exact hfirst rfl
      · exact (hflag hok).ne hlast
  | flagged n hk hok hlast hquiet hresult =>
    obtain rfl := Option.some.inj hk
    rwa [if_pos (.inr ⟨hok, hlast⟩)]

/-- A sync that succeeds does so on twins too if no commit is refused. -/
theorem attempts_twin (h : Twin none made copied a b)
    (hfinished : (x.attempts more number a).1 = .finished n) :
    (x.attempts more number b).1 = .finished n := by
  induction more using Nat.strong_induction_on generalizing number made copied a b with
  | _ more ih =>
    obtain ⟨hgo, later, -, hnext⟩ := attempts_eq_finished hfinished
    have hgo' : x.GoesOn number b := by rwa [GoesOn, h.stopped]
    -- The attempt does not end the sync, so it has the same outcome.
    obtain ⟨hresult, htwin⟩ : (x.attempt b).1 = (x.attempt a).1 ∧
        Twin none (a.store.commits + 1) copied (x.attempt a).2 (x.attempt b).2 := by
      obtain ⟨e, he, hfatal⟩ | hends := ends_attempt (x := x) h fun hk => absurd rfl hk
      · cases hfatal.symm.trans (hnext.isRetryable he)
      · rw [if_neg nofun] at hends
        cases hends with
        | fatal e he hfatal => cases hfatal.symm.trans (hnext.isRetryable he)
        | alike hresult htwin => exact ⟨hresult, htwin⟩
        | lost _ hk | flagged _ hk => cases hk
    cases hnext with
    | last hok =>
      rw [(attempts_of_ok hgo hok).1] at hfinished
      rw [(attempts_of_ok hgo' (hresult.trans hok)).1, hfinished]
    | again e less he hretryable hmore hrest =>
      subst hmore
      rw [(attempts_of_retryable less hgo' (hresult.trans he) hretryable).1]
      exact ih less (Nat.lt_succ_self _) htwin hrest

/-- Wherever a commit is refused once, a sync that succeeds otherwise still does unless the commit
sets the flag, and fails if it does. -/
theorem attempts_refused {k : Nat} (h : Twin (some k) made True a b)
    (hfinished : (x.attempts more number a).1 = .finished n)
    (hanswers : ∀ start ∈ x.begun more number a, x.Replaceable start) :
    ((∀ start ∈ x.begun more number a, ¬ x.SetsFlag start.state k) →
      ∃ n, (x.attempts more number b).1 = .finished n) ∧
    ((∃ start ∈ x.begun more number a, x.SetsFlag start.state k) →
      ∃ n, (x.attempts more number b).1 = .failed n flagRefused) := by
  -- Every retry leaves fewer attempts, and the twins that it begins with are others.
  induction more using Nat.strong_induction_on generalizing number made a b with
  | _ more ih =>
    obtain ⟨hgo, later, hbegun, hnext⟩ := attempts_eq_finished hfinished
    have hgo' : x.GoesOn number b := by rwa [GoesOn, h.stopped]
    rw [hbegun] at hanswers ⊢
    obtain ⟨hfirst, hbehind⟩ := List.forall_mem_cons.1 hanswers
    rw [List.forall_mem_cons, List.exists_mem_cons_iff]
    have hattempt := attempt_refused (x := x) h fun _ => hnext.isRetryable
    split_ifs at hattempt with hflag
    · exact ⟨fun hmissed => absurd hflag hmissed.1,
        fun _ => ⟨number, attempts_of_error hgo' hattempt (.inr rfl)⟩⟩
    obtain ⟨hresult, htwin⟩ | ⟨⟨e', he', hretryable'⟩, hstart, hself⟩ := hattempt
    · -- The attempt has the same outcome.
      cases hnext with
      | last hok hlater =>
        rw [hlater]
        exact ⟨fun _ => ⟨number, (attempts_of_ok hgo' (hresult.trans hok)).1⟩,
          fun hflagged => by simp [hflag] at hflagged⟩
      | again e less he hretryable hmore hrest hlater =>
        subst hmore hlater
        rw [(attempts_of_retryable less hgo' (hresult.trans he) hretryable).1]
        have hrefused := ih less (Nat.lt_succ_self _) htwin hrest hbehind
        exact ⟨fun hmissed => hrefused.1 hmissed.2,
          fun hflagged => hrefused.2 (hflagged.resolve_left hflag)⟩
    · refine ⟨fun _ => ?_, fun hflagged => ?_⟩
      · -- Another attempt takes its place.
        obtain ⟨less, n, hmore, hreplaced⟩ := hfirst
        subst hmore
        rw [(attempts_of_retryable less hgo' he' hretryable').1]
        exact ⟨n, attempts_twin hstart hreplaced⟩
      · -- The commit was made on the first one, which never fails with the flag.
        cases hnext with
        | last _ hlater => simp [hflag, hlater] at hflagged
        | again e less he hretryable hmore hrest hlater =>
          subst hmore hlater
          obtain ⟨_, hfailed⟩ := (ih less (Nat.lt_succ_self _) hself hrest hbehind).2
            (hflagged.resolve_left hflag)
          rw [hrest] at hfailed
          cases hfailed

end Attempts

/-- The attempts that a run begins. -/
def attemptsOfRun (x : InitialSync) (s : SyncState) : List Beginning :=
  x.begun (max x.settings.maxAttempts 1 - 1) 1 s

/-- Where no tails are chosen, the answers of the source do not run out: the attempt of a run that
succeeds at once can be replaced. -/
theorem replaceable_of_tails (htails : s.remote.tails = []) (hfirst : (x.attempt s).1 = .ok ())
    (hmax : 2 ≤ x.settings.maxAttempts) : ∀ start ∈ x.attemptsOfRun s, x.Replaceable start := by
  have hanswered : s.answered = s := by
    obtain ⟨⟨address, data, log, tails⟩, _⟩ := s
    obtain rfl : tails = [] := htails
    unfold SyncState.answered Remote.lastEntry
    dsimp only
    split <;> rfl
  have hrunning : s.stopped = false := by
    cases hstopped : s.stopped with
    | true => cases (attempt_of_stopped x hstopped).symm.trans hfirst
    | false => rfl
  have hgo : ∀ number, x.GoesOn number s := fun number hwait => by
    cases hrunning.symm.trans hwait.2
  intro start hstart
  rw [attemptsOfRun, (attempts_of_ok (hgo 1) hfirst).2, List.mem_singleton] at hstart
  subst hstart
  refine ⟨x.settings.maxAttempts - 2, 2, ?_, ?_⟩
  · show max x.settings.maxAttempts 1 - 1 = _
    omega
  · rw [hanswered]
    exact (attempts_of_ok (hgo 2) hfirst).1

/-- A single refusal, wherever it comes: if a run succeeds while nothing happens from outside, and
each of its attempts can be replaced, then it still succeeds where one of its commits is refused
once, unless that commit sets the flag. Then it fails, since setting the flag is not tried again. -/
theorem run_refused (x : InitialSync) (s : SyncState) (k n : Nat) (hstore : s.store.WellFormed)
    (hhealthy : s.store.Healthy) (hdata : s.remote.data.Reachable) (hquiet : s.incidents = [])
    (hattempts : 2 ≤ s.applied.checkpoint.attempts) (hfinished : (x.run s).1 = .finished n)
    (hanswers : ∀ start ∈ x.attemptsOfRun s, x.Replaceable start) :
    ((∀ start ∈ x.attemptsOfRun s, ¬ x.SetsFlag start.state (s.store.commits + k)) →
      ∃ m, (x.run (s.refusing k)).1 = .finished m) ∧
    ((∃ start ∈ x.attemptsOfRun s, x.SetsFlag start.state (s.store.commits + k)) →
      ∃ m, (x.run (s.refusing k)).1 =
        .failed m (.ofPersisting (.rollback "injected rollback"))) := by
  -- The two states differ in the refusal only, which the commit numbered so is still to meet.
  have howes : (⟨k, 1⟩ : Refusals).Owes (some (s.store.commits + k)) s.store.commits := by
    rw [Refusals.Owes, if_pos (Nat.le_add_right _ _), Nat.add_sub_cancel_left]
  have htwin : Twin (some (s.store.commits + k)) 0 True s (s.refusing k) :=
    { store :=
        { left := hstore
          right := hstore
          rows := fun _ _ => ⟨fun _ _ => rfl, rfl⟩
          users := fun _ => Store.paired_self hstore
          healthy := hhealthy
          failing := hhealthy.failing
          owes := howes
          counted := Nat.zero_le _ }
      metrics := ⟨_, rfl⟩
      remote := rfl
      data := hdata
      quiet := hquiet
      quiet' := hquiet
      stopped := rfl
      attempts := hattempts
      equally := rfl
      current := fun _ => rfl }
  exact attempts_refused htwin hfinished hanswers

/-- A member that is to become a copy of a shop, the log of which reaches beyond the tails that are
reported first. -/
def newBranch : SyncState where
  remote :=
    { address := "a:1"
      data := (Store.empty.seed ⟨"shop", "orders"⟩
        [.obj [("_id", .int 1)], .obj [("_id", .int 2)]]).2
      log := [⟨⟨1, 1⟩, 11, ⟨"shop", "orders"⟩, .insert (.obj [("_id", .int 1)])⟩,
        ⟨⟨1, 2⟩, 12, ⟨"shop", "orders"⟩, .insert (.obj [("_id", .int 2)])⟩,
        ⟨⟨1, 3⟩, 13, ⟨"shop", "orders"⟩, .insert (.obj [("_id", .int 3)])⟩]
      tails := [⟨1, 1⟩, ⟨1, 2⟩] }
  applied := { work := { store := .empty }, checkpoint := ⟨.initial, 3⟩ }

theorem run_refused_newBranch :
    let x : InitialSync := { settings := { maxAttempts := 3 } }
    (x.run newBranch).1 = .finished 1 ∧
      (∃ m, (x.run (newBranch.refusing 2)).1 = .finished m) ∧
      ∃ m, (x.run (newBranch.refusing 8)).1 =
        .failed m (.ofPersisting (.rollback "injected rollback")) := by
  intro x
  have hfinished : (x.run newBranch).1 = .finished 1 := by decide +kernel
  have hfirst : (x.attempt newBranch).1 = .ok () := by decide +kernel
  have hreplaced : (x.attempts 1 2 newBranch.answered).1 = .finished 2 := by decide +kernel
  have hcopy : ¬ x.SetsFlag newBranch (newBranch.store.commits + 2) := by decide +kernel
  have hflag : x.SetsFlag newBranch (newBranch.store.commits + 8) := by decide +kernel
  have hbegun : x.attemptsOfRun newBranch = [⟨2, 1, newBranch⟩] := by
    show x.begun 2 1 newBranch = _
    exact (attempts_of_ok (fun hwait => hwait.1 rfl) hfirst).2
  have hanswers : ∀ start ∈ x.attemptsOfRun newBranch, x.Replaceable start := by
    rw [hbegun]
    intro start hstart
    rw [List.mem_singleton.1 hstart]
    exact ⟨1, 2, rfl, hreplaced⟩
  have hdata : newBranch.remote.data.Reachable := by
    unfold newBranch
    refine .commit .empty _ ?_
    simp [Transaction.insert, Write.Inserts, Json.Canonical, Json.CanonicalMembers, Assoc.Ascending]
  have hstore : newBranch.store.WellFormed := Store.Reachable.empty.wellFormed
  have hrefused (k : Nat) := run_refused x newBranch k 1 hstore ⟨rfl, rfl⟩ hdata rfl (by decide)
    hfinished hanswers
  rw [hbegun] at hrefused
  refine ⟨hfinished, (hrefused 2).1 fun start hstart => ?_,
    (hrefused 8).2 ⟨_, List.mem_singleton_self _, hflag⟩⟩
  rw [List.mem_singleton.1 hstart]
  exact hcopy

/-- The first commit of the sync sets the flag. -/
theorem run_newBranch_flag :
    let x : InitialSync := { settings := { maxAttempts := 3 } }
    (x.run newBranch).1 = .finished 1 ∧
      (x.run (newBranch.refusing 0)).1 =
        .failed 1 (.ofPersisting (.rollback "injected rollback")) := by
  decide +kernel

end InitialSync

end Replica
