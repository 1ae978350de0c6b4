import Replica.Proofs.Store.Staging

/-!
# Commits and reachable stores

A commit that succeeds has the effect of its writes in order (`commit_eq_ok`), one that fails
changes nothing that can be read (`commit_eq_error`), and a store without faults commits whatever
its writes allow (`commit_of_healthy`). So every store that calls can lead to is well-formed, and
all its documents are canonical if all that were inserted are (`Reachable.holds`).
-/

namespace Replica

/-- Where none is to be refused, the next commit is not, and still none is to be. -/
theorem Refusals.next_of_refused {r : Refusals} (h : r.refused = 0) :
    r.next.1 = false ∧ r.next.2.refused = 0 := by
  rcases r with ⟨_ | n, refused⟩ <;> obtain rfl : refused = 0 := h <;> exact ⟨rfl, rfl⟩

namespace Store

variable {s s' : Store} {t : Transaction} {ns : Namespace}

/-- Every collection is well-formed. -/
def WellFormed (s : Store) : Prop := ∀ ns, (s.collection ns).WellFormed s.nextDid

/-- No commit is going to be refused, and all collections can be written to. -/
structure Healthy (s : Store) : Prop where
  /-- No commit is going to be refused. -/
  refused : s.refusals.refused = 0
  /-- Commits to all collections succeed. -/
  failing : s.failing = []

/-- The second store holds what the first one holds; it may have used up numbers and refusals. -/
structure SameData (s s' : Store) : Prop where
  /-- The databases are the same. -/
  databases : s'.databases = s.databases
  /-- No document number was given back. -/
  nextDid : s.nextDid ≤ s'.nextDid
  /-- The same collections cannot be written to. -/
  failing : s'.failing = s.failing
  /-- No refusal was added. -/
  healthy : s.Healthy → s'.Healthy

theorem SameData.refl (s : Store) : s.SameData s := ⟨rfl, le_rfl, rfl, id⟩

theorem SameData.trans {s₁ s₂ s₃ : Store} (h : s₁.SameData s₂) (h' : s₂.SameData s₃) :
    s₁.SameData s₃ :=
  ⟨h'.databases.trans h.databases, h.nextDid.trans h'.nextDid, h'.failing.trans h.failing,
    h'.healthy ∘ h.healthy⟩

theorem SameData.collection (h : s.SameData s') (ns : Namespace) :
    s'.collection ns = s.collection ns := by
  rw [Store.collection, h.databases, Store.collection]

theorem SameData.document? (h : s.SameData s') (ns : Namespace) (key : DocKey) :
    s'.document? ns key = s.document? ns key := by
  rw [Store.document?, h.collection, Store.document?]

theorem SameData.wellFormed (h : s.SameData s') (hs : s.WellFormed) : s'.WellFormed := by
  intro ns
  rw [h.collection]
  exact (hs ns).mono h.nextDid

/-- A commit adds no fault. -/
theorem Healthy.commit (hs : s.Healthy) (t : Transaction) : (s.commit t).2.Healthy := by
  have hnext := (Refusals.next_of_refused hs.refused).2
  rw [commit_eq]
  split_ifs
  · exact hs
  · exact ⟨hnext, hs.failing⟩
  · split
    · exact ⟨hnext, hs.failing⟩
    · split <;> exact ⟨hnext, hs.failing⟩

/-- A commit that succeeds has the effect of its writes in order. -/
theorem commit_eq_ok (h : s.commit t = (.ok (), s')) :
    Write.applyAll t s.nextDid s.databases = (.ok s'.databases, s'.nextDid) ∧
      s'.failing = s.failing := by
  rw [commit_eq] at h
  split_ifs at h with ht
  · rw [List.isEmpty_iff] at ht
    obtain ⟨-, rfl⟩ := Prod.mk.inj h
    exact ⟨by rw [ht]; rfl, rfl⟩
  · cases congrArg Prod.fst h
  · split at h
    · cases congrArg Prod.fst h
    · split at h
      · cases congrArg Prod.fst h
      · rename_i databases next happly
        obtain ⟨-, rfl⟩ := Prod.mk.inj h
        exact ⟨happly, rfl⟩

/-- A commit that fails changes nothing that can be read, and it fails with an error of the
store. -/
theorem commit_eq_error {e : ReplicationError} (h : s.commit t = (.error e, s')) :
    s.SameData s' ∧ e.isOfStore = true := by
  have hhealthy : s.Healthy → s'.Healthy := fun hs => by
    have := hs.commit t
    rwa [h] at this
  rw [commit_eq] at h
  split_ifs at h with ht
  · cases congrArg Prod.fst h
  · obtain ⟨⟨rfl⟩, rfl⟩ := Prod.mk.inj h
    exact ⟨⟨rfl, le_rfl, rfl, hhealthy⟩, rfl⟩
  · split at h
    · obtain ⟨⟨rfl⟩, rfl⟩ := Prod.mk.inj h
      exact ⟨⟨rfl, le_rfl, rfl, hhealthy⟩, rfl⟩
    · split at h
      · rename_i next happly
        obtain ⟨⟨rfl⟩, rfl⟩ := Prod.mk.inj h
        have hle := Write.le_applyAll t s.nextDid s.databases
        rw [happly] at hle
        exact ⟨⟨rfl, hle, rfl, hhealthy⟩,
          ReplicationError.isOfStore_of_isOfWrite (Write.isOfWrite_of_applyAll happly)⟩
      · cases congrArg Prod.fst h

/-- A commit that is not refused fails if one of its collections cannot be written to, and otherwise
as its writes do. -/
theorem commit_fails {e : ReplicationError} (hrefused : s.refusals.next.1 = false)
    (h : (s.commit t).1 = .error e) :
    (∃ ns, s.failingTarget? t = some ns ∧
      e = .user ("injected write failure on " ++ ns.text)) ∨
    (s.failingTarget? t = none ∧ (Write.applyAll t s.nextDid s.databases).1 = .error e) := by
  rw [commit_eq, hrefused, if_neg Bool.false_ne_true] at h
  split_ifs at h
  cases hfailing : s.failingTarget? t with
  | some ns =>
    rw [hfailing] at h
    exact .inl ⟨ns, rfl, (Except.error.inj h).symm⟩
  | none =>
    rw [hfailing] at h
    rcases happly : Write.applyAll t s.nextDid s.databases with ⟨e' | databases, next⟩
    · rw [happly] at h
      exact .inr ⟨rfl, congrArg _ (Except.error.inj h)⟩
    · rw [happly] at h
      cases h

/-- A commit that is not refused fails with an error of a write. -/
theorem isOfWrite_of_commit {e : ReplicationError} (hrefused : s.refusals.next.1 = false)
    (h : (s.commit t).1 = .error e) : e.isOfWrite = true := by
  obtain ⟨ns, -, rfl⟩ | ⟨-, happly⟩ := commit_fails hrefused h
  · rfl
  · exact Write.isOfWrite_of_applyAll (Prod.ext happly rfl)

/-- A transaction on other databases leaves a database, whether it is committed or fails. -/
theorem get?_commit {name : String} (ht : ∀ w ∈ t, w.database ≠ name) :
    (s.commit t).2.databases.get? name = s.databases.get? name := by
  rcases hc : s.commit t with ⟨e | ⟨⟩, s'⟩
  · rw [(commit_eq_error hc).1.databases]
  · exact Write.get?_applyAll_of_ne ht (commit_eq_ok hc).1

/-- The collections of a database are those that it has. -/
theorem collection?_of_get? {ns : Namespace}
    (h : s'.databases.get? ns.database = s.databases.get? ns.database) :
    s'.collection? ns = s.collection? ns := by
  rw [collection?, Databases.collection?, Databases.database, h, collection?,
    Databases.collection?, Databases.database]

/-- A commit of some writes uses up the next refusal. -/
theorem refusals_commit (ht : t ≠ []) : (s.commit t).2.refusals = s.refusals.next.2 := by
  rw [commit_eq, if_neg (by rwa [List.isEmpty_iff])]
  split_ifs
  · rfl
  · split
    · rfl
    · split <;> rfl

/-- Some writes are committed only if the commit is not refused. -/
theorem not_refused_of_commit (ht : t ≠ []) (h : s.commit t = (.ok (), s')) :
    s.refusals.next.1 = false := by
  rw [commit_eq, if_neg (by rwa [List.isEmpty_iff])] at h
  split_ifs at h with hrefused
  · cases congrArg Prod.fst h
  · exact Bool.eq_false_iff.2 hrefused

/-- Without writes there is nothing that cannot be written to. -/
theorem failingTarget?_nil (s : Store) : s.failingTarget? [] = none :=
  List.find?_eq_none.2 fun _ _ => Bool.false_ne_true

/-- Writes are committed only if all their collections can be written to. -/
theorem failingTarget?_of_commit (h : s.commit t = (.ok (), s')) : s.failingTarget? t = none := by
  rw [commit_eq] at h
  split_ifs at h with ht
  · rw [List.isEmpty_iff.1 ht]
    exact failingTarget?_nil s
  · cases congrArg Prod.fst h
  · split at h
    · cases congrArg Prod.fst h
    · rename_i hfailing
      exact hfailing

/-- A commit of some writes that is refused changes nothing else. -/
theorem commit_of_refused (ht : t ≠ []) (hrefused : s.refusals.next.1 = true) :
    s.commit t =
      (.error (.rollback "injected rollback"), { s with refusals := s.refusals.next.2 }) := by
  rw [commit_eq, if_neg (by rwa [List.isEmpty_iff])]
  exact if_pos hrefused

/-- Writes that are not refused and can be made are committed. -/
theorem exists_commit (hrefused : s.refusals.next.1 = false) (hfailing : s.failingTarget? t = none)
    {databases : Databases} {next : Did}
    (h : Write.applyAll t s.nextDid s.databases = (.ok databases, next)) :
    ∃ s', s.commit t = (.ok (), s') := by
  rw [commit_eq, hrefused, hfailing, h, if_neg Bool.false_ne_true]
  split_ifs <;> exact ⟨_, rfl⟩

/-- A store without faults commits what its writes allow. -/
theorem commit_of_healthy (hs : s.Healthy) {databases : Databases} {next : Did}
    (h : Write.applyAll t s.nextDid s.databases = (.ok databases, next)) :
    ∃ s', s.commit t = (.ok (), s') := by
  have hfailing : s.failingTarget? t = none :=
    List.find?_eq_none.2 fun ns hns => by simp [hs.failing] at hns
  exact exists_commit (Refusals.next_of_refused hs.refused).1 hfailing h

/-- A commit keeps all collections well-formed and all documents in a set that holds the inserted
ones. -/
theorem holds_commit {Q : Json → Prop} (h : s.databases.Holds Q s.nextDid)
    (ht : ∀ w ∈ t, w.Inserts Q) : (s.commit t).2.databases.Holds Q (s.commit t).2.nextDid := by
  rcases hc : s.commit t with ⟨e | _, s'⟩
  · obtain ⟨hsame, -⟩ := commit_eq_error hc
    rw [hsame.databases]
    exact h.mono hsame.nextDid
  · exact h.applyAll ht (commit_eq_ok hc).1

/-- Where every collection is well-formed, every commit keeps that. -/
theorem WellFormed.commit (h : s.WellFormed) (t : Transaction) : (s.commit t).2.WellFormed := by
  have hs : s.databases.Holds (fun _ => True) s.nextDid := by
    intro database name c hc
    have hcollection : s.collection ⟨database, name⟩ = c := by
      rw [collection, Databases.collection, Databases.collection?, hc]
      rfl
    exact ⟨hcollection ▸ h ⟨database, name⟩, fun _ _ _ => trivial⟩
  have ht : ∀ w ∈ t, w.Inserts fun _ => True := by
    intro w _
    cases w with
    | insert ns docs => exact fun _ _ => trivial
    | _ => trivial
  exact fun ns => ((holds_commit hs ht).collection ns).wellFormed

/-- The stores that calls can lead to, the documents of all inserts being canonical. -/
inductive Reachable : Store → Prop
  /-- At first a store is empty. -/
  | empty : Reachable Store.empty
  /-- A transaction is committed, with or without success. -/
  | commit {s : Store} (h : Reachable s) (t : Transaction)
      (ht : ∀ w ∈ t, w.Inserts Json.Canonical) : Reachable (s.commit t).2
  /-- Some of the coming commits are to be refused. -/
  | refuse {s : Store} (h : Reachable s) (refusals : Refusals) :
      Reachable { s with refusals := refusals }
  /-- Commits to a collection are to fail. -/
  | failWritesTo {s : Store} (h : Reachable s) (ns : Namespace) : Reachable (s.failWritesTo ns)
  /-- Commits to all collections are to succeed again. -/
  | clearWriteFailures {s : Store} (h : Reachable s) : Reachable s.clearWriteFailures

/-- In a reachable store every collection is well-formed and every document canonical. -/
theorem Reachable.holds (h : s.Reachable) : s.databases.Holds Json.Canonical s.nextDid := by
  induction h with
  | empty => exact fun name => Database.Holds.empty _ _
  | commit h t ht ih => exact holds_commit ih ht
  | refuse h refusals ih => exact ih
  | failWritesTo h ns ih => exact ih
  | clearWriteFailures h ih => exact ih

/-- A reachable store is well-formed. -/
theorem Reachable.wellFormed (h : s.Reachable) : s.WellFormed :=
  fun ns => (h.holds.collection ns).wellFormed

/-- The documents of a reachable store are canonical. -/
theorem Reachable.canonical (h : s.Reachable) {key : DocKey} {doc : Json}
    (hk : s.document? ns key = some doc) : doc.Canonical :=
  (h.holds.collection ns).document? hk

end Store

end Replica
