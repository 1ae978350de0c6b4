import Replica.Proofs.Store.Numbers

/-!
# Transactions side by side

Transactions are opened, written to, committed and given up in any order; each commit takes place in
whatever the store has become since the transaction was opened, and commits may be refused or fail.
Whatever happens, the store stays coherent: keys and documents correspond one to one, unique indexes
are respected, document numbers are given out once, and what an observer is shown is every document
once, in the order of keys (`coherent_runAll`).
-/

namespace Replica

/-! ## Coherent stores -/

/-- Keys and documents of a collection correspond, and unique indexes are respected. -/
structure Collection.Coherent (c : Collection) : Prop where
  /-- A key leads to a number exactly when the document with this number has the key. -/
  ids_iff : ∀ key did, c.ids.get? key = some did ↔
    ∃ doc, c.docs.get? did = some doc ∧ DocKey.ofDocument doc = .ok key
  /-- Every document is an object with an identifier, whose key leads to the document's number. -/
  identified : ∀ did doc, c.docs.get? did = some doc → ∃ members id, doc = .obj members ∧
    Assoc.get? idField members = some id ∧ id ≠ .null ∧ c.ids.get? (.ofId id) = some did
  /-- No two documents agree in the fields of a unique index. -/
  unique : ∀ index ∈ c.indexes.values, index.unique = true → ∀ did did' doc doc',
    c.docs.get? did = some doc → c.docs.get? did' = some doc' →
    index.tuple doc = index.tuple doc' → did = did'

/-- A document comes before another one in the order of their keys. -/
def Json.KeyBefore (a b : Json) : Prop :=
  ∃ k l, DocKey.ofDocument a = .ok k ∧ DocKey.ofDocument b = .ok l ∧ k < l

/-- A collection of a store has a document with a number. -/
def Store.Has (s : Store) (ns : Namespace) (did : Did) (doc : Json) : Prop :=
  ∃ c, s.collection? ns = some c ∧ c.docs.get? did = some doc

/-- What holds of a store at any time. -/
structure Store.Coherent (s : Store) : Prop where
  /-- Keys and documents of every collection correspond, and unique indexes are respected. -/
  collections : ∀ ns c, s.collection? ns = some c → c.Coherent
  /-- A number stands for one document of one collection. -/
  apart : ∀ ns ns' did doc doc', s.Has ns did doc → s.Has ns' did doc' → ns = ns' ∧ doc = doc'
  /-- Numbers that were not given out yet stand for no document. -/
  given : ∀ ns did doc, s.Has ns did doc → did < s.nextDid
  /-- Every database has collections. -/
  inhabited : ∀ name ∈ s.databaseNames, s.collectionNames name ≠ []
  /-- An observer is shown every document once. -/
  perm : ∀ ns, (s.contents ns).Perm (s.scan ns)
  /-- An observer is shown the documents in the order of their keys. -/
  ascending : ∀ ns, (s.contents ns).Pairwise Json.KeyBefore

namespace Collection.WellFormed

variable {c : Collection} {next : Did} {did did' : Did} {key : DocKey} {doc : Json}

theorem ids_of_docs (h : c.WellFormed next) (hd : c.docs.get? did = some doc)
    (hkey : DocKey.ofDocument doc = .ok key) : c.ids.get? key = some did := by
  obtain ⟨key', hkey', hid⟩ := h.found did doc hd
  rw [hkey, Except.ok.injEq] at hkey'
  rwa [hkey']

/-- No document has two numbers. -/
theorem docs_inj (h : c.WellFormed next) (hd : c.docs.get? did = some doc)
    (hd' : c.docs.get? did' = some doc) : did = did' := by
  obtain ⟨key, hkey, hid⟩ := h.found did doc hd
  have hid' := h.ids_of_docs hd' hkey
  rw [hid, Option.some_inj] at hid'
  exact hid'

/-- What has a key is an object with an identifier. -/
theorem exists_id_of_ofDocument (h : DocKey.ofDocument doc = .ok key) : ∃ members id,
    doc = .obj members ∧ Assoc.get? idField members = some id ∧ id ≠ .null ∧ key = .ofId id := by
  cases doc with
  | obj members =>
    rw [DocKey.ofDocument, documentId] at h
    cases hid : Assoc.get? idField members with
    | none =>
      rw [hid] at h
      cases h
    | some id =>
      rw [hid] at h
      cases id with
      | null => cases h
      | _ => exact ⟨members, _, rfl, hid, by simp, (Except.ok.inj h).symm⟩
  | _ => cases h

theorem coherent (h : c.WellFormed next) : c.Coherent where
  ids_iff key did :=
    ⟨h.keyed key did, fun ⟨_, hd, hkey⟩ => h.ids_of_docs hd hkey⟩
  identified did doc hd := by
    obtain ⟨key, hkey, hid⟩ := h.found did doc hd
    obtain ⟨members, id, hdoc, hmember, hnull, rfl⟩ := exists_id_of_ofDocument hkey
    exact ⟨members, id, hdoc, hmember, hnull, hid⟩
  unique index hi hu did did' doc doc' hd hd' ht := by
    obtain ⟨key, hkey, hid⟩ := h.found did doc hd
    obtain ⟨key', hkey', hid'⟩ := h.found did' doc' hd'
    have heq : key = key' := h.unique index hi hu key key' doc doc'
      (document?_eq_some.2 ⟨did, hid, hd⟩) (document?_eq_some.2 ⟨did', hid', hd'⟩) ht
    rw [heq, hid', Option.some_inj] at hid
    exact hid.symm

/-- The contents are in the order of their keys. -/
theorem contents_ascending (h : c.WellFormed next) : c.contents.Pairwise Json.KeyBefore := by
  rw [contents_eq_values, Table.values, List.pairwise_map]
  refine List.Pairwise.imp_of_mem (fun {a b} ha hb hlt => ?_) c.byKey.ascending
  have hkey : ∀ x ∈ c.byKey.toList, DocKey.ofDocument x.2 = .ok x.1 := by
    intro x hx
    have hx := Table.mem_toList.1 hx
    rw [get?_byKey] at hx
    exact h.ofDocument hx
  exact ⟨a.1, b.1, hkey a ha, hkey b hb, hlt⟩

/-- The contents are all documents, each of them once. -/
theorem contents_perm (h : c.WellFormed next) : c.contents.Perm c.docs.values := by
  have hcontents : c.contents.Nodup := by
    -- Equal documents have one key, which does not come before itself.
    refine h.contents_ascending.imp fun {a b} hlt heq => ?_
    obtain ⟨k, l, hk, hl, hlt⟩ := hlt
    rw [heq, hl, Except.ok.injEq] at hk
    rw [hk] at hlt
    exact Std.lt_irrefl hlt
  have hdocs : c.docs.values.Nodup := by
    rw [Table.values, List.Nodup, List.pairwise_map]
    refine List.Pairwise.imp_of_mem (fun {a b} ha hb hlt heq => ?_) c.docs.ascending
    have ha := Table.mem_toList.1 ha
    rw [heq] at ha
    rw [h.docs_inj ha (Table.mem_toList.1 hb)] at hlt
    exact Nat.lt_irrefl _ hlt
  -- Neither list has a document twice, so it is enough that they have the same ones.
  rw [List.perm_ext_iff_of_nodup hcontents hdocs]
  intro doc
  rw [contents_eq_values, Table.mem_values, Table.mem_values]
  simp only [get?_byKey]
  constructor
  · rintro ⟨key, hk⟩
    obtain ⟨did, -, hd⟩ := document?_eq_some.1 hk
    exact ⟨did, hd⟩
  · rintro ⟨did, hd⟩
    obtain ⟨key, -, hk⟩ := h.document?_of_docs hd
    exact ⟨key, hk⟩

end Collection.WellFormed

namespace Store

variable {s : Store}

theorem collection_of_eq_some {ns : Namespace} {c : Collection} (h : s.collection? ns = some c) :
    s.collection ns = c := by
  rw [collection, Databases.collection]
  exact congrArg (·.getD .empty) h

/-- A store with well-formed collections whose numbers are apart is coherent. -/
theorem coherent_of_wellFormed (hwf : s.WellFormed) (hnum : s.databases.Numbered s.nextDid) :
    s.Coherent where
  collections ns c hc := (collection_of_eq_some hc ▸ hwf ns).coherent
  apart ns ns' did doc doc' h h' := by
    obtain rfl := hnum.apart ns ns' did doc doc' h h'
    obtain ⟨c, hc, hd⟩ := h
    obtain ⟨c', hc', hd'⟩ := h'
    rw [hc, Option.some_inj] at hc'
    rw [hc', hd', Option.some_inj] at hd
    exact ⟨rfl, hd.symm⟩
  given ns did doc h := hnum.below ns did doc h
  inhabited name hname := by
    obtain ⟨db, hdb⟩ := Table.mem_keys.1 hname
    have hne := hnum.inhabited name db hdb
    have hdatabase : s.databases.database name = db := by rw [Databases.database, hdb]; rfl
    rw [collectionNames, hdatabase, Table.keys, ne_eq, List.map_eq_nil_iff]
    intro hnil
    simp [Table.isEmpty, hnil] at hne
  perm ns := by
    rw [contents, scan]
    cases hc : s.collection? ns with
    | none => exact .nil
    | some c => exact (collection_of_eq_some hc ▸ hwf ns).contents_perm
  ascending ns := by
    rw [contents]
    cases hc : s.collection? ns with
    | none => exact .nil
    | some c => exact (collection_of_eq_some hc ▸ hwf ns).contents_ascending

end Store

/-! ## Sessions -/

/-- Issues a write on a transaction. Deleting or inserting nothing is left out, and a collection is
not renamed across databases. -/
def Transaction.issue (t : Transaction) : Write → Except ReplicationError Transaction
  | .delete ns dids => .ok (t.delete ns dids)
  | .insert ns docs => .ok (t.insert ns docs)
  | .rename source target dropTarget => t.rename source target dropTarget
  | w => .ok (t ++ [w])

/-- A store with the transactions that are open on it. -/
structure StoreSession where
  /-- The store. -/
  store : Store
  /-- The open transactions by number. -/
  transactions : Table Nat Transaction := ∅

/-- What can happen in a session. -/
inductive StoreEvent where
  /-- A transaction is opened, in place of the one that had its number. -/
  | open (number : Nat)
  /-- A write is issued on a transaction. -/
  | issue (number : Nat) (w : Write)
  /-- A transaction is committed, with or without success. -/
  | commit (number : Nat)
  /-- A transaction is given up. -/
  | discard (number : Nat)
  /-- Some of the coming commits are to be refused. -/
  | refuse (refusals : Refusals)
  /-- Commits to a collection are to fail. -/
  | failWritesTo (ns : Namespace)
  /-- Commits to all collections are to succeed again. -/
  | clearWriteFailures

namespace StoreSession

/-- The session in which nothing has happened. -/
def start : StoreSession := { store := .empty }

/-- What an event makes of a session. A transaction is used up by its commit, whether it succeeds or
not, and a write that is not accepted leaves its transaction as it was. -/
def step (x : StoreSession) : StoreEvent → StoreSession
  | .open number => { x with transactions := x.transactions.insert number [] }
  | .issue number w =>
    match (x.transactions.get? number).map fun t : Transaction => t.issue w with
    | some (.ok t) => { x with transactions := x.transactions.insert number t }
    | _ => x
  | .commit number =>
    match x.transactions.get? number with
    | some t => ⟨(x.store.commit t).2, x.transactions.erase number⟩
    | none => x
  | .discard number => { x with transactions := x.transactions.erase number }
  | .refuse refusals => { x with store := { x.store with refusals := refusals } }
  | .failWritesTo ns => { x with store := x.store.failWritesTo ns }
  | .clearWriteFailures => { x with store := x.store.clearWriteFailures }

/-- What events in order make of a session. -/
def runAll (events : List StoreEvent) (x : StoreSession) : StoreSession := events.foldl step x

/-- An event keeps the collections well-formed, and what it adds has new numbers. -/
theorem continues_step (x : StoreSession) (event : StoreEvent) :
    (x.store.WellFormed → (x.step event).store.WellFormed) ∧
    x.store.databases.Continues x.store.nextDid (x.step event).store.databases
      (x.step event).store.nextDid := by
  have hsame : x.store.databases.Continues x.store.nextDid x.store.databases x.store.nextDid :=
    .of_le _ le_rfl
  cases event with
  | issue number w => rw [step]; split <;> exact ⟨id, hsame⟩
  | commit number =>
    rw [step]
    split
    · exact ⟨fun h => h.commit _, x.store.continues_commit _⟩
    · exact ⟨id, hsame⟩
  | _ => exact ⟨id, hsame⟩

/-- Events in order keep the collections well-formed, and what they add has new numbers. -/
theorem continues_runAll (x : StoreSession) (events : List StoreEvent) :
    (x.store.WellFormed → (runAll events x).store.WellFormed) ∧
    x.store.databases.Continues x.store.nextDid (runAll events x).store.databases
      (runAll events x).store.nextDid := by
  induction events generalizing x with
  | nil => exact ⟨id, .of_le _ le_rfl⟩
  | cons event events ih =>
    obtain ⟨hwf, hcont⟩ := x.continues_step event
    obtain ⟨hwf', hcont'⟩ := ih (x.step event)
    exact ⟨hwf' ∘ hwf, hcont.trans hcont'⟩

/-- Whatever transactions do side by side, the store is coherent at any time; and whatever they do
from then on, a number that was given out by then stands for the document that it stood for then, or
for none. -/
theorem coherent_runAll (events later : List StoreEvent) :
    let x := runAll events start
    x.store.Coherent ∧ ∀ ns did doc, (runAll later x).store.Has ns did doc →
      did < x.store.nextDid → ∃ former, x.store.Has former did doc := by
  intro x
  obtain ⟨hwf, hcont⟩ := start.continues_runAll events
  have hstart : Databases.Numbered ∅ 0 :=
    ⟨fun _ _ _ ⟨_, hc, _⟩ => by simp [Databases.database] at hc,
      fun _ _ _ _ _ ⟨_, hc, _⟩ => by simp [Databases.database] at hc, fun _ _ h => by simp at h⟩
  refine ⟨Store.coherent_of_wellFormed (hwf Store.Reachable.empty.wellFormed)
    (hcont.numbered hstart), fun ns did doc h hgiven => ?_⟩
  -- The later document is a former one, or its number was still free then, which this one was not.
  exact ((x.continues_runAll later).2.former ns did doc h).resolve_left hgiven.not_ge

/-- Two transactions take numbers in turn, the first one deletes by a number that is gone by then,
and a collection is dropped and filled again: the number of the dropped document is not given out
again. -/
theorem coherent_runAll_refilled :
    let users : Namespace := ⟨"app", "users"⟩
    let doc : Json := .obj [("_id", .str "u")]
    let x := runAll [.open 0, .open 1, .issue 0 (.insert users [doc]), .commit 0,
      .issue 1 (.delete users [0]), .open 2, .issue 2 (.dropCollection users),
      .issue 2 (.insert users [doc]), .commit 2, .commit 1] start
    x.store.contents users = [doc] ∧ x.store.nextDid = 2 ∧
      (x.store.contents users).Perm (x.store.scan users) ∧ ¬ x.store.Has users 0 doc := by
  intro users doc x
  have hcontents : x.store.contents users = [doc] := by decide +kernel
  have hnext : x.store.nextDid = 2 := by decide +kernel
  have hgone : ∀ c, x.store.collection? users = some c → c.docs.get? 0 = none := by
    decide +kernel
  refine ⟨hcontents, hnext, (coherent_runAll _ []).1.perm users, fun ⟨c, hc, hd⟩ => ?_⟩
  rw [hgone c hc] at hd
  cases hd

end StoreSession

end Replica
