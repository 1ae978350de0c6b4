import Replica.Execution.State
import Replica.Proofs.Store.Reachable

/-!
# Transactions with a retry

A transaction that is done again after a refusal reads the same data again. So its success is that
of one commit on a store with the same data (`perform_eq_ok`), and its failure is that of planning
or of the store (`perform_eq_error`) and leaves the data as it was.
-/

namespace Replica.Workplace

variable {w w' : Workplace} {plan : Store → Except ReplicationError Transaction}
  {record : ExecutorMetrics → ExecutorMetrics} {e : ReplicationError}

/-- A transaction that fails leaves the data, and either planning failed or the store did. -/
theorem transact_eq_error (h : w.transact plan = (.error e, w')) :
    w.store.SameData w'.store ∧ (plan w.store = .error e ∨ e.isOfStore = true) := by
  unfold transact at h
  dsimp only at h
  split at h
  · rename_i hplan
    obtain ⟨⟨rfl⟩, rfl⟩ := Prod.mk.inj h
    exact ⟨.refl _, .inl hplan⟩
  · rename_i t hplan
    rcases hc : w.store.commit t with ⟨r, s'⟩
    rw [hc] at h
    obtain ⟨rfl, rfl⟩ := Prod.mk.inj h
    obtain ⟨hsame, he⟩ := Store.commit_eq_error hc
    exact ⟨hsame, .inr he⟩

/-- A transaction that succeeds commits what was planned. -/
theorem transact_eq_ok (h : w.transact plan = (.ok (), w')) :
    ∃ t, plan w.store = .ok t ∧ w.store.commit t = (.ok (), w'.store) := by
  unfold transact at h
  dsimp only at h
  split at h
  · cases congrArg Prod.fst h
  · rename_i t hplan
    rcases hc : w.store.commit t with ⟨r, s'⟩
    rw [hc] at h
    obtain ⟨rfl, rfl⟩ := Prod.mk.inj h
    exact ⟨t, hplan, hc⟩

/-- A transaction with retries that succeeds commits what was planned on the same data. -/
theorem transactRetrying_eq_ok {n : Nat} (h : transactRetrying plan n w = (.ok (), w')) :
    ∃ s t, w.store.SameData s ∧ plan s = .ok t ∧ s.commit t = (.ok (), w'.store) := by
  induction n generalizing w with
  | zero =>
    obtain ⟨t, hplan, hcommit⟩ := transact_eq_ok h
    exact ⟨w.store, t, .refl _, hplan, hcommit⟩
  | succ n ih =>
    rw [transactRetrying] at h
    split at h
    · rename_i reason mid hfirst
      obtain ⟨hsame, -⟩ := transact_eq_error hfirst
      obtain ⟨s, t, hs, hplan, hcommit⟩ := ih h
      exact ⟨s, t, hsame.trans hs, hplan, hcommit⟩
    · obtain ⟨t, hplan, hcommit⟩ := transact_eq_ok h
      exact ⟨w.store, t, .refl _, hplan, hcommit⟩

/-- A transaction with retries that fails leaves the data, and its last attempt failed in planning
on the same data or in the store. -/
theorem transactRetrying_eq_error {n : Nat} (h : transactRetrying plan n w = (.error e, w')) :
    w.store.SameData w'.store ∧
      ((∃ s, w.store.SameData s ∧ plan s = .error e) ∨ e.isOfStore = true) := by
  induction n generalizing w with
  | zero => exact (transact_eq_error h).imp_right (Or.imp_left fun hplan => ⟨_, .refl _, hplan⟩)
  | succ n ih =>
    rw [transactRetrying] at h
    split at h
    · rename_i reason mid hfirst
      obtain ⟨hmid, -⟩ := transact_eq_error hfirst
      obtain ⟨hsame, ⟨s, hs, hplan⟩ | he⟩ := ih h
      · exact ⟨hmid.trans hsame, .inl ⟨s, hmid.trans hs, hplan⟩⟩
      · exact ⟨hmid.trans hsame, .inr he⟩
    · exact (transact_eq_error h).imp_right (Or.imp_left fun hplan => ⟨_, .refl _, hplan⟩)

/-- What performs ends as its transaction with retries does, apart from what is counted. -/
theorem perform_eq_transactRetrying :
    (w.perform plan record).1 = (transactRetrying plan retries w).1 ∧
      (w.perform plan record).2.store = (transactRetrying plan retries w).2.store := by
  rw [perform]
  split
  · rename_i heq
    rw [heq]
    exact ⟨rfl, rfl⟩
  · exact ⟨rfl, rfl⟩

theorem exists_transactRetrying_of_perform (h : w.perform plan record = (.ok (), w')) :
    ∃ mid, transactRetrying plan retries w = (.ok (), mid) ∧ mid.store = w'.store := by
  have hsame : (w.perform plan record).1 = (transactRetrying plan retries w).1 ∧
      (w.perform plan record).2.store = (transactRetrying plan retries w).2.store :=
    perform_eq_transactRetrying
  rw [h] at hsame
  exact ⟨(transactRetrying plan retries w).2, Prod.ext hsame.1.symm rfl, hsame.2.symm⟩

/-- What performs commits what was planned on the same data. -/
theorem perform_eq_ok (h : w.perform plan record = (.ok (), w')) :
    ∃ s t, w.store.SameData s ∧ plan s = .ok t ∧ s.commit t = (.ok (), w'.store) := by
  obtain ⟨mid, hmid, hstore⟩ := exists_transactRetrying_of_perform h
  rw [← hstore]
  exact transactRetrying_eq_ok hmid

/-- What does not perform leaves the data, and planning failed on the same data, or the store. -/
theorem perform_eq_error (h : w.perform plan record = (.error e, w')) :
    w.store.SameData w'.store ∧
      ((∃ s, w.store.SameData s ∧ plan s = .error e) ∨ e.isOfStore = true) := by
  rw [perform] at h
  split at h
  · cases congrArg Prod.fst h
  · exact transactRetrying_eq_error h

/-- What was planned is performed if it can be committed at once. -/
theorem exists_perform {t : Transaction} {s : Store} (hplan : plan w.store = .ok t)
    (hcommit : w.store.commit t = (.ok (), s)) :
    ∃ w', w.perform plan record = (.ok (), w') ∧ w'.store = s := by
  have htransact : w.transact plan = (.ok (), { w with store := s, cancel := w.cancel.burn }) := by
    simp only [transact, hplan, hcommit]
  exact ⟨{ w with store := s, cancel := w.cancel.burn, metrics := record w.metrics },
    by simp only [perform, retries, transactRetrying, htransact], rfl⟩

/-- A transaction whose planning fails with another error than a refusal fails with that error. -/
theorem perform_of_plan_error (hplan : plan w.store = .error e)
    (he : ∀ reason, e ≠ .rollback reason) :
    (w.perform plan record).1 = .error e := by
  have htransact : w.transact plan = (.error e, { w with cancel := w.cancel.burn }) := by
    simp only [transact, hplan]
  cases e with
  | rollback reason => exact absurd rfl (he reason)
  | _ => simp only [perform, retries, transactRetrying, htransact]

/-- What every attempt and all counting keeps is kept by a transaction with retries. -/
theorem transactRetrying_keeps {P : Workplace → Prop}
    (htransact : ∀ w, P w → P (w.transact plan).2)
    (hcount : ∀ w metrics, P w → P { w with metrics := metrics }) (n : Nat) (h : P w) :
    P (transactRetrying plan n w).2 := by
  induction n generalizing w with
  | zero => exact htransact w h
  | succ n ih =>
    have hfirst := htransact w h
    rw [transactRetrying]
    split
    · rename_i mid hmid
      rw [hmid] at hfirst
      exact ih (hcount mid _ hfirst)
    · exact hfirst

theorem perform_keeps_of_transact {P : Workplace → Prop}
    (htransact : ∀ w, P w → P (w.transact plan).2)
    (hcount : ∀ w metrics, P w → P { w with metrics := metrics }) (h : P w) :
    P (w.perform plan record).2 := by
  have hall := transactRetrying_keeps htransact hcount retries h
  rw [perform]
  split
  · rename_i mid hmid
    rw [hmid] at hall
    exact hcount mid _ hall
  · exact hall

/-- What every commit of planned writes keeps is kept by every transaction with retries. -/
theorem perform_keeps {P : Store → Prop}
    (hP : ∀ s t, plan s = .ok t → P s → P (s.commit t).2) (h : P w.store) :
    P (w.perform plan record).2.store := by
  refine perform_keeps_of_transact (P := fun w => P w.store) (fun w h => ?_) (fun _ _ h => h) h
  unfold transact
  dsimp only
  split
  · exact h
  · rename_i t hplan
    exact hP _ _ hplan h

/-- Where no token is going to be fired, none is. -/
theorem cancel_perform (h : w.cancel.fuse = 0) : (w.perform plan record).2.cancel = w.cancel := by
  refine perform_keeps_of_transact (P := fun m => m.cancel = w.cancel) (fun m hm => ?_)
    (fun _ _ hm => hm) rfl
  have hburn : m.cancel.burn = w.cancel := by rw [Cancellation.burn, hm, h]
  unfold transact
  dsimp only
  split <;> exact hburn

end Replica.Workplace
