import Replica.Proofs.Execution.Perform

/-!
# What refusals let through

A store may refuse some of the coming commits, and it may refuse all commits to some collections. A
transaction is done again when it is refused, so a few refusals stop nothing, and others stop what
comes behind the commits that are spared (`Refusals.Allows`). Two stores are compared by what they
let through (`Store.Outlasts`): a transaction that succeeds uses up one commit at most
(`outlasts_of_perform`), and what outlasts it lets it through (`Outlasts.exists_perform`).
-/

namespace Replica

namespace Refusals

variable {r : Refusals} {m n : Nat}

/-- As many of the coming transactions are let through: each of them is done again as often as
commits are refused, or as many commits are spared. -/
def Allows (r : Refusals) (n : Nat) : Prop :=
  r.refused ≤ Workplace.retries ∨ n ≤ r.spared

theorem Allows.mono (h : r.Allows n) (hle : m ≤ n) : r.Allows m := h.imp_right hle.trans

/-- A commit that is not refused is one of those that are spared, if any are refused behind it. -/
theorem next_spares (h : r.next.1 = false) :
    r.refused = 0 ∨ r.next.2.refused = r.refused ∧ r.next.2.spared < r.spared := by
  rcases r with ⟨_ | spared, _ | refused⟩
  · exact .inl rfl
  · cases h
  · exact .inl rfl
  · exact .inr ⟨rfl, Nat.lt_succ_self _⟩

/-- A commit uses up one refusal or one commit that is spared. -/
theorem le_next (r : Refusals) :
    r.next.2.refused ≤ r.refused ∧ r.refused ≤ r.next.2.refused + 1 ∧
      r.spared ≤ r.next.2.spared + 1 := by
  rcases r with ⟨_ | spared, _ | refused⟩ <;> simp [next]

/-- The next commit is not refused where none is, or where commits are spared. -/
theorem next_eq_false (h : r.refused = 0 ∨ 0 < r.spared) : r.next.1 = false := by
  rcases r with ⟨_ | spared, _ | refused⟩
  · rfl
  · simp at h
  · rfl
  · rfl

/-- A commit that is refused is the last one but those that are left. -/
theorem of_next_eq_true (h : r.next.1 = true) :
    r.spared = 0 ∧ r.refused = r.next.2.refused + 1 := by
  rcases r with ⟨_ | spared, _ | refused⟩
  · cases h
  · exact ⟨rfl, rfl⟩
  · cases h
  · cases h

/-- Where commits are still spared, none was refused. -/
theorem of_lt_spared_next (h : m < r.next.2.spared) :
    r.next.2.refused = r.refused ∧ r.next.2.spared < r.spared := by
  rcases r with ⟨_ | spared, _ | refused⟩
  · cases h
  · cases h
  · exact ⟨rfl, Nat.lt_succ_self _⟩
  · exact ⟨rfl, Nat.lt_succ_self _⟩

end Refusals

/-! ## Comparing stores -/

namespace Store

variable {s t u : Store} {m n : Nat}

/-- The first store lets through what the second one does, and so many commits more. -/
structure Outlasts (s t : Store) (more : Nat) : Prop where
  /-- What cannot be written to in the first store cannot be written to in the second one. -/
  failing : ∀ ns ∈ s.failing, ns ∈ t.failing
  /-- The first store lets more commits through. -/
  allows : ∀ n, t.refusals.Allows n → s.refusals.Allows (n + more)

theorem Outlasts.refl (s : Store) : s.Outlasts s 0 := ⟨fun _ h => h, fun _ h => h⟩

theorem Outlasts.trans (h : s.Outlasts t m) (h' : t.Outlasts u n) : s.Outlasts u (m + n) where
  failing ns hns := h'.failing ns (h.failing ns hns)
  allows k hk := by
    have := h.allows _ (h'.allows k hk)
    rwa [Nat.add_assoc, Nat.add_comm n m] at this

theorem Outlasts.mono (h : s.Outlasts t n) (hle : m ≤ n) : s.Outlasts t m :=
  ⟨h.failing, fun k hk => (h.allows k hk).mono (Nat.add_le_add_left hle k)⟩

/-- A store without faults lets everything through. -/
theorem Healthy.outlasts (h : s.Healthy) (t : Store) (n : Nat) : s.Outlasts t n where
  failing ns hns := by simp [h.failing] at hns
  allows _ _ := .inl (h.refused.le.trans (Nat.zero_le _))

/-- Writes that can be made in the second store can be made in the first one. -/
theorem Outlasts.failingTarget? (h : s.Outlasts t n) {ws : Transaction}
    (hws : t.failingTarget? ws = none) : s.failingTarget? ws = none :=
  List.find?_eq_none.2 fun ns hns => List.find?_eq_none.1 hws ns (h.failing ns hns)

end Store

/-- How many commits a transaction is: one without writes is none. -/
def Transaction.cost (t : Transaction) : Nat := if t.isEmpty then 0 else 1

theorem Transaction.cost_of_ne_nil {t : Transaction} (ht : t ≠ []) : t.cost = 1 :=
  if_neg (by rwa [List.isEmpty_iff])

/-! ## Transactions -/

namespace Workplace

/-- What is planned depends on the databases only. -/
def Reads (plan : Store → Except ReplicationError Transaction) : Prop :=
  ∀ s s' : Store, s'.databases = s.databases → plan s' = plan s

variable {w w' : Workplace} {plan : Store → Except ReplicationError Transaction}
  {record : ExecutorMetrics → ExecutorMetrics} {t : Transaction} {databases : Databases}
  {next : Did} {n k : Nat}

/-- A transaction with writes uses up the next refusal. -/
theorem refusals_transact (ht : t ≠ []) (hplan : plan w.store = .ok t) :
    (w.transact plan).2.store.refusals = w.store.refusals.next.2 := by
  simp only [transact, hplan]
  exact Store.refusals_commit ht

/-- A transaction with writes that succeeds at once uses up a commit that is spared, or nothing is
refused. -/
theorem refusals_of_transact (ht : t ≠ []) (hplan : plan w.store = .ok t)
    (h : w.transact plan = (.ok (), w')) : w.store.refusals.refused = 0 ∨
      w'.store.refusals.refused = w.store.refusals.refused ∧
        w'.store.refusals.spared < w.store.refusals.spared := by
  have hnext := refusals_transact ht hplan
  obtain ⟨t', hplan', hcommit⟩ := transact_eq_ok h
  obtain rfl := Except.ok.inj (hplan.symm.trans hplan')
  rw [h] at hnext
  rw [hnext]
  exact Refusals.next_spares (Store.not_refused_of_commit ht hcommit)

/-- A transaction with writes that succeeds uses up a commit that is spared, or its retries are
enough. -/
theorem refusals_of_transactRetrying (hreads : Reads plan) (ht : t ≠ [])
    (hplan : plan w.store = .ok t) (h : transactRetrying plan n w = (.ok (), w')) :
    w.store.refusals.refused ≤ n ∨
      w'.store.refusals.refused = w.store.refusals.refused ∧
        w'.store.refusals.spared < w.store.refusals.spared := by
  induction n generalizing w with
  | zero => exact (refusals_of_transact ht hplan h).imp_left Nat.le_of_eq
  | succ n ih =>
    rw [transactRetrying] at h
    split at h
    · rename_i reason mid hfirst
      have hnext := refusals_transact ht hplan
      rw [hfirst] at hnext
      obtain ⟨hsame, -⟩ := transact_eq_error hfirst
      have hplan' : plan mid.store = .ok t := (hreads _ _ hsame.databases).trans hplan
      -- Behind a refusal one retry less is left, and no commit is spared any more.
      obtain hrefused | ⟨hrefused, hspared⟩ :=
        ih (w := { mid with metrics := mid.metrics.recordRollback }) hplan' h
      · rw [hnext] at hrefused
        exact .inl ((w.store.refusals.le_next).2.1.trans (Nat.succ_le_succ hrefused))
      · rw [hnext] at hrefused hspared
        obtain ⟨hsame, hlt⟩ := Refusals.of_lt_spared_next hspared
        exact .inr ⟨hrefused.trans hsame, hspared.trans hlt⟩
    · exact (refusals_of_transact ht hplan h).imp_left fun hr => hr.le.trans (Nat.zero_le _)

/-- A transaction that succeeds uses up one commit at most, and none if it has no writes. -/
theorem outlasts_of_perform (hreads : Reads plan) (hplan : plan w.store = .ok t)
    (h : w.perform plan record = (.ok (), w')) : w.store.Outlasts w'.store t.cost := by
  obtain ⟨s, _, hsame, -, hcommit⟩ := perform_eq_ok h
  obtain ⟨-, hfailing⟩ := Store.commit_eq_ok hcommit
  have hfailing' : w'.store.failing = w.store.failing := hfailing.trans hsame.failing
  refine ⟨fun ns hns => hfailing' ▸ hns, fun k hk => ?_⟩
  by_cases ht : t = []
  · subst ht
    obtain ⟨w'', hperform, hstore⟩ : ∃ w'', w.perform plan record = (.ok (), w'') ∧
        w''.store = w.store := exists_perform hplan rfl
    rw [h] at hperform
    obtain ⟨-, rfl⟩ := Prod.mk.inj hperform
    rwa [← hstore]
  · rw [Transaction.cost_of_ne_nil ht]
    obtain ⟨mid, hmid, hstore⟩ := exists_transactRetrying_of_perform h
    rw [← hstore] at hk
    obtain hrefused | ⟨hrefused, hspared⟩ := refusals_of_transactRetrying hreads ht hplan hmid
    · exact .inl hrefused
    · exact hk.imp (fun hle => hrefused ▸ hle) fun hle => (Nat.succ_le_succ hle).trans hspared

/-- Where the next commit is not refused, a transaction ends as the commit of what was planned. -/
theorem transactRetrying_of_plan (hplan : plan w.store = .ok t)
    (hrefused : w.store.refusals.next.1 = false) :
    (transactRetrying plan n w).1 = (w.store.commit t).1 ∧
      (transactRetrying plan n w).2.store = (w.store.commit t).2 := by
  have htransact : w.transact plan =
      ((w.store.commit t).1, { w with store := (w.store.commit t).2, cancel := w.cancel.burn }) := by
    simp only [transact, hplan]
  cases n with
  | zero => exact ⟨congrArg Prod.fst htransact, by rw [transactRetrying, htransact]⟩
  | succ n =>
    have hne : ∀ reason, (w.store.commit t).1 ≠ .error (.rollback reason) := fun reason heq =>
      ReplicationError.ne_rollback_of_isOfWrite (Store.isOfWrite_of_commit hrefused heq) reason rfl
    rw [transactRetrying, htransact]
    split
    · rename_i reason mid heq
      exact absurd (congrArg Prod.fst heq) (hne reason)
    · exact ⟨rfl, rfl⟩

/-- Where fewer commits are to be refused than a transaction is done again, it ends as a commit of
what was planned that is not refused. -/
theorem perform_of_plan (hreads : Reads plan) (ht : t ≠ []) (hplan : plan w.store = .ok t)
    (hr : w.store.refusals.refused ≤ retries) :
    ∃ r : Refusals, r.next.1 = false ∧
      (w.perform plan record).1 = ({ w.store with refusals := r }.commit t).1 ∧
      (w.perform plan record).2.store = ({ w.store with refusals := r }.commit t).2 := by
  rw [perform_eq_transactRetrying.1, perform_eq_transactRetrying.2]
  cases hrefused : w.store.refusals.next.1 with
  | false => exact ⟨_, hrefused, transactRetrying_of_plan hplan hrefused⟩
  | true =>
    obtain ⟨-, hmore⟩ := Refusals.of_next_eq_true hrefused
    let mid : Workplace :=
      { w with store := { w.store with refusals := w.store.refusals.next.2 },
               cancel := w.cancel.burn }
    have htransact : w.transact plan = (.error (.rollback "injected rollback"), mid) := by
      simp only [transact, hplan, Store.commit_of_refused ht hrefused]
      rfl
    have hnext : w.store.refusals.next.2.next.1 = false := by
      refine Refusals.next_eq_false (.inl ?_)
      rw [retries] at hr
      omega
    obtain ⟨hresult, hstore⟩ := transactRetrying_of_plan (n := 0)
      (w := { mid with metrics := mid.metrics.recordRollback })
      ((hreads w.store mid.store rfl).trans hplan) hnext
    exact ⟨_, hnext, by rw [retries, transactRetrying, htransact]; exact hresult,
      by rw [retries, transactRetrying, htransact]; exact hstore⟩

/-- Planned writes that can be made are made at once if the commit is not refused. -/
theorem exists_transact (ht : t ≠ []) (hplan : plan w.store = .ok t)
    (hrefused : w.store.refusals.next.1 = false) (hfailing : w.store.failingTarget? t = none)
    (happly : Write.applyAll t w.store.nextDid w.store.databases = (.ok databases, next)) :
    ∃ w', w.transact plan = (.ok (), w') ∧ w'.store.databases = databases ∧
      w'.store.nextDid = next ∧ w'.store.refusals.refused ≤ w.store.refusals.refused ∧
      w.store.refusals.spared ≤ w'.store.refusals.spared + 1 := by
  obtain ⟨s, hcommit⟩ := Store.exists_commit hrefused hfailing happly
  obtain ⟨happly', -⟩ := Store.commit_eq_ok hcommit
  obtain ⟨hdatabases, hnext⟩ := Prod.mk.inj (happly.symm.trans happly')
  have hrefusals := Store.refusals_commit (s := w.store) ht
  rw [hcommit] at hrefusals
  obtain ⟨hle, -, hspared⟩ := w.store.refusals.le_next
  refine ⟨{ w with store := s, cancel := w.cancel.burn }, ?_, (Except.ok.inj hdatabases).symm,
    hnext.symm, ?_, ?_⟩
  · simp only [transact, hplan, hcommit]
  · exact hrefusals ▸ hle
  · exact hrefusals ▸ hspared

/-- Planned writes that can be made are made if commits are spared or there are enough retries. -/
theorem exists_transactRetrying (hreads : Reads plan) (ht : t ≠ []) (hplan : plan w.store = .ok t)
    (hfailing : w.store.failingTarget? t = none)
    (happly : Write.applyAll t w.store.nextDid w.store.databases = (.ok databases, next))
    (hr : w.store.refusals.refused ≤ n ∨ 0 < w.store.refusals.spared) :
    ∃ w', transactRetrying plan n w = (.ok (), w') ∧ w'.store.databases = databases ∧
      w'.store.nextDid = next ∧ w'.store.refusals.refused ≤ w.store.refusals.refused ∧
      w.store.refusals.spared ≤ w'.store.refusals.spared + 1 := by
  induction n generalizing w with
  | zero =>
    have hrefused := Refusals.next_eq_false (hr.imp_left Nat.le_zero.1)
    exact exists_transact ht hplan hrefused hfailing happly
  | succ n ih =>
    cases hrefused : w.store.refusals.next.1 with
    | false =>
      obtain ⟨w', htransact, hrest⟩ := exists_transact ht hplan hrefused hfailing happly
      exact ⟨w', by rw [transactRetrying, htransact], hrest⟩
    | true =>
      obtain ⟨hspared, hmore⟩ := Refusals.of_next_eq_true hrefused
      let mid : Workplace :=
        { w with store := { w.store with refusals := w.store.refusals.next.2 },
                 cancel := w.cancel.burn }
      have htransact :
          w.transact plan = (.error (.rollback "injected rollback"), mid) := by
        simp only [transact, hplan, Store.commit_of_refused ht hrefused]
        rfl
      have hr' : mid.store.refusals.refused ≤ n := by
        show w.store.refusals.next.2.refused ≤ n
        omega
      obtain ⟨w', hretry, hdatabases, hnext, hle, -⟩ :=
        ih (w := { mid with metrics := mid.metrics.recordRollback })
          ((hreads w.store mid.store rfl).trans hplan) hfailing happly (.inl hr')
      refine ⟨w', by rw [transactRetrying, htransact]; exact hretry, hdatabases, hnext, ?_, ?_⟩
      · exact hle.trans w.store.refusals.le_next.1
      · omega

end Workplace

variable {w : Workplace} {plan : Store → Except ReplicationError Transaction}
  {record : ExecutorMetrics → ExecutorMetrics} {t : Transaction} {u : Store}

/-- A transaction that can be made is let through by a store that outlasts another one. -/
theorem Store.Outlasts.exists_perform {more : Nat} (h : w.store.Outlasts u (more + t.cost))
    (hreads : Workplace.Reads plan) (hplan : plan w.store = .ok t)
    (hfailing : w.store.failingTarget? t = none) {databases : Databases} {next : Did}
    (happly : Write.applyAll t w.store.nextDid w.store.databases = (.ok databases, next)) :
    ∃ w', w.perform plan record = (.ok (), w') ∧ w'.store.databases = databases ∧
      w'.store.nextDid = next ∧ w'.store.Outlasts u more := by
  by_cases ht : t = []
  · subst ht
    obtain ⟨⟨rfl⟩, rfl⟩ := Prod.mk.inj happly
    obtain ⟨w', hperform, hstore⟩ : ∃ w', w.perform plan record = (.ok (), w') ∧
        w'.store = w.store := Workplace.exists_perform hplan rfl
    exact ⟨w', hperform, by rw [hstore], by rw [hstore], hstore ▸ h⟩
  · rw [Transaction.cost_of_ne_nil ht] at h
    have hr : w.store.refusals.refused ≤ Workplace.retries ∨ 0 < w.store.refusals.spared :=
      (h.allows 0 (.inr (Nat.zero_le _))).imp_right fun hle => by omega
    obtain ⟨w', hretrying, hdatabases, hnext, hrefused, hspared⟩ :=
      Workplace.exists_transactRetrying hreads ht hplan hfailing happly hr
    obtain ⟨s, _, hsame, -, hcommit⟩ := Workplace.transactRetrying_eq_ok hretrying
    have hfailing' : w'.store.failing = w.store.failing :=
      (Store.commit_eq_ok hcommit).2.trans hsame.failing
    refine ⟨{ w' with metrics := record w'.metrics }, ?_, hdatabases, hnext, ?_, fun n hn => ?_⟩
    · rw [Workplace.perform, hretrying]
    · exact fun ns hns => h.failing ns (hfailing' ▸ hns)
    · refine (h.allows n hn).imp hrefused.trans fun hle => ?_
      show n + more ≤ w'.store.refusals.spared
      omega

end Replica
