import Replica.Proofs.Store.Collection
import Replica.Store.Commit

/-!
# The documents of a store by namespace and key

What a store holds is known from its collections, a missing one counting as empty. Each read of the
store is stated in these terms. `Write.applyAll` applies writes one after another to all databases,
and each of the two writes a job consists of is stated in terms of collections, too: deleting
(`apply_delete`) and inserting (`apply_insert`) change the collection they name and no other one,
and so do both in one transaction (`applyAll_delete_insert`).
What each of the eight writes makes of its database is said once (`Write.Makes`). Every one of them
keeps all collections well-formed and all documents within a set that the inserted ones are taken
from (`Holds.apply`).
-/

namespace Replica

namespace Databases

variable {s s' : Databases} {next next' : Did}

/-- The collection that a namespace names; one that is not there has no documents. -/
def collection (s : Databases) (ns : Namespace) : Collection := (s.collection? ns).getD .empty

theorem database_setDatabase (s : Databases) (name other : String) (db : Database) :
    (s.setDatabase name db).database other = if other = name then db else s.database other := by
  rw [setDatabase]
  split_ifs with hdb hname hname
  · have : db = ∅ := Table.ext_get? fun k => by rw [Table.get?_of_isEmpty hdb, Table.get?_empty]
    simp [database, hname, this]
  · simp [database, hname]
  · simp [database, hname]
  · simp [database, hname]

/-- Putting a database in place leaves the others. -/
theorem get?_setDatabase_of_ne {s : Databases} {name other : String} {db : Database}
    (h : other ≠ name) : (s.setDatabase name db).get? other = s.get? other := by
  rw [setDatabase]
  split_ifs
  · rw [Table.get?_erase, if_neg h]
  · rw [Table.get?_insert, if_neg h]

/-- Puts a collection in place. -/
def setCollection (s : Databases) (ns : Namespace) (c : Collection) : Databases :=
  s.setDatabase ns.database ((s.database ns.database).insert ns.collection c)

theorem collection?_setCollection (s : Databases) (ns other : Namespace) (c : Collection) :
    (s.setCollection ns c).collection? other = if other = ns then some c else s.collection? other := by
  simp only [collection?, setCollection, database_setDatabase]
  obtain ⟨d, n⟩ := ns
  obtain ⟨d', n'⟩ := other
  by_cases hd : d' = d <;> by_cases hn : n' = n <;> simp [hd, hn]

/-- Putting a collection in place changes what its namespace names and nothing else. -/
theorem collection_setCollection (s : Databases) (ns other : Namespace) (c : Collection) :
    (s.setCollection ns c).collection other = if other = ns then c else s.collection other := by
  rw [collection, collection?_setCollection]
  split_ifs <;> rfl

theorem collection?_setDatabase_self (s : Databases) (name : String) (ns : Namespace) :
    (s.setDatabase name (s.database name)).collection? ns = s.collection? ns := by
  rw [collection?, database_setDatabase]
  split_ifs with h
  · rw [h.symm, collection?]
  · rfl

end Databases

namespace Store

variable {s s' : Store}

/-- The collection that a namespace names; one that is not there has no documents. -/
def collection (s : Store) (ns : Namespace) : Collection := s.databases.collection ns

/-- The document with a key in a collection. -/
def document? (s : Store) (ns : Namespace) (key : DocKey) : Option Json :=
  (s.collection ns).document? key

/-- A collection that is named in two stores alike has one value. -/
theorem collection_congr {ns ns' : Namespace} (h : s'.collection? ns' = s.collection? ns) :
    s'.collection ns' = s.collection ns := by
  have hsame : s'.databases.collection? ns' = s.databases.collection? ns := h
  rw [collection, Databases.collection, hsame]
  rfl

theorem contents_eq (s : Store) (ns : Namespace) : s.contents ns = (s.collection ns).contents := by
  rw [contents, collection, Databases.collection, collection?]
  cases s.databases.collection? ns <;> rfl

/-- The secondary indexes of a collection; one that is not there has none. -/
theorem indexes_eq (s : Store) (ns : Namespace) :
    s.indexes ns = (s.collection ns).indexes.values := by
  rw [indexes, collection, Databases.collection, collection?]
  cases s.databases.collection? ns <;> rfl

/-- What holds of the indexes of all collections holds of those of the collection that a namespace
names. -/
theorem forall_mem_indexes {P : IndexSpec → Prop}
    (h : ∀ db ∈ s.databases.values, ∀ c ∈ db.values, ∀ index ∈ c.indexes.values, P index)
    (ns : Namespace) : ∀ index ∈ s.indexes ns, P index := by
  rw [indexes_eq, collection, Databases.collection]
  cases hc : s.databases.collection? ns with
  | none => exact fun _ hindex => nomatch hindex
  | some c =>
    rw [Databases.collection?, Databases.database] at hc
    cases hdb : s.databases.get? ns.database with
    | none =>
      rw [hdb] at hc
      cases hc
    | some db =>
      rw [hdb] at hc
      exact h db (Table.mem_values.2 ⟨_, hdb⟩) c (Table.mem_values.2 ⟨_, hc⟩)

/-- The numbers that are found are those of the keys asked for. -/
theorem get?_findDids (s : Store) (ns : Namespace) (keys : List DocKey) (key : DocKey) :
    (s.findDids ns keys).get? key =
      if key ∈ keys then (s.collection ns).ids.get? key else none := by
  rw [findDids, collection, Databases.collection, collection?]
  cases s.databases.collection? ns with
  | none => simp [Collection.empty]
  | some c => exact Table.get?_ofList_filterMap c.ids.get? keys key

/-- The documents that are fetched are those of the numbers asked for. -/
theorem get?_fetch (s : Store) (ns : Namespace) (dids : List Did) (did : Did) :
    (s.fetch ns dids).get? did =
      if did ∈ dids then (s.collection ns).docs.get? did else none := by
  rw [fetch, collection, Databases.collection, collection?]
  cases s.databases.collection? ns with
  | none => simp [Collection.empty]
  | some c => exact Table.get?_ofList_filterMap c.docs.get? dids did

/-- Stores with the same documents by key have the same contents. -/
theorem contents_congr {ns : Namespace} (h : ∀ key, s.document? ns key = s'.document? ns key) :
    s.contents ns = s'.contents ns := by
  rw [contents_eq, contents_eq]
  exact Collection.contents_congr h

/-- There are contents exactly where there are documents. -/
theorem contents_ne_nil {ns : Namespace} :
    s.contents ns ≠ [] ↔ ∃ key, s.document? ns key ≠ none := by
  rw [contents_eq, Collection.contents_eq_values]
  constructor
  · intro hne
    obtain ⟨doc, hdoc⟩ := List.exists_mem_of_ne_nil _ hne
    obtain ⟨key, hkey⟩ := Table.mem_values.1 hdoc
    rw [Collection.get?_byKey] at hkey
    exact ⟨key, Option.ne_none_iff_exists'.2 ⟨doc, hkey⟩⟩
  · rintro ⟨key, hkey⟩
    obtain ⟨doc, hdoc⟩ := Option.ne_none_iff_exists'.1 hkey
    refine List.ne_nil_of_mem (a := doc) (Table.mem_values.2 ⟨key, ?_⟩)
    rw [Collection.get?_byKey]
    exact hdoc

end Store

/-! ## Writes on one collection -/

namespace Write

/-- What a write makes of all databases. -/
def apply (w : Write) (next : Did) (s : Databases) : Except ReplicationError Databases × Did :=
  match w.onDatabase next (s.database w.database) with
  | (.error e, next) => (.error e, next)
  | (.ok db, next) => (.ok (s.setDatabase w.database db), next)

/-- Applies writes in order, up to the first that fails. -/
def applyAll : List Write → Did → Databases → Except ReplicationError Databases × Did
  | [], next, s => (.ok s, next)
  | w :: ws, next, s =>
    match w.apply next s with
    | (.error e, next) => (.error e, next)
    | (.ok s, next) => applyAll ws next s

variable {s s' : Databases} {next next' : Did} {ns : Namespace}

theorem foldl_delete_empty (dids : List Did) :
    dids.foldl Collection.delete .empty = .empty := by
  induction dids with
  | nil => rfl
  | cons did dids ih => exact ih

/-- Deleting takes place in the collection that is named. -/
theorem apply_delete (s : Databases) (next : Did) (ns : Namespace) (dids : List Did) :
    ∃ s', (delete ns dids).apply next s = (.ok s', next) ∧ ∀ other, s'.collection other =
      if other = ns then dids.foldl Collection.delete (s.collection ns)
      else s.collection other := by
  rw [apply, database, onDatabase]
  cases hc : (s.database ns.database).get? ns.collection with
  | none =>
    refine ⟨_, rfl, fun other => ?_⟩
    rw [Databases.collection, Databases.collection?_setDatabase_self]
    split_ifs with hns
    · have : s.collection? ns = none := hc
      rw [hns, Databases.collection, this]
      exact (foldl_delete_empty dids).symm
    · rfl
  | some c =>
    refine ⟨s.setCollection ns (dids.foldl Collection.delete c), rfl, fun other => ?_⟩
    have : s.collection ns = c := by
      rw [Databases.collection, Databases.collection?, hc]
      rfl
    rw [Databases.collection_setCollection, this]

/-- Inserting takes place in the collection that is named, if it succeeds there. -/
theorem apply_insert (s : Databases) (next : Did) (ns : Namespace) (docs : List Json) :
    match Collection.insertAll ns docs next (s.collection ns) with
    | (.ok c, next') => (insert ns docs).apply next s = (.ok (s.setCollection ns c), next')
    | (.error e, next') => (insert ns docs).apply next s = (.error e, next') := by
  have hc : ((s.database ns.database).get? ns.collection).getD .empty = s.collection ns := rfl
  rw [apply, database, onDatabase, hc]
  rcases Collection.insertAll ns docs next (s.collection ns) with ⟨_ | c, next'⟩ <;> rfl

/-- A write that succeeds puts what it makes of its database in place. -/
theorem apply_eq_ok {w : Write} (h : w.apply next s = (.ok s', next')) :
    ∃ db, w.onDatabase next (s.database w.database) = (.ok db, next') ∧
      s' = s.setDatabase w.database db := by
  rw [apply] at h
  rcases hdb : w.onDatabase next (s.database w.database) with ⟨_ | db, last⟩
  · rw [hdb] at h
    cases congrArg Prod.fst h
  · rw [hdb] at h
    obtain ⟨⟨rfl⟩, rfl⟩ := h
    exact ⟨db, rfl, rfl⟩

/-- Writes that succeed in order do so one by one. -/
theorem applyAll_cons_eq_ok {w : Write} {ws : List Write}
    (h : applyAll (w :: ws) next s = (.ok s', next')) :
    ∃ mid last, w.apply next s = (.ok mid, last) ∧ applyAll ws last mid = (.ok s', next') := by
  rw [applyAll] at h
  rcases hw : w.apply next s with ⟨_ | mid, last⟩
  · rw [hw] at h
    cases congrArg Prod.fst h
  · rw [hw] at h
    exact ⟨mid, last, rfl, h⟩

/-- Writes in two parts are applied part by part. -/
theorem applyAll_append {ws vs : List Write} {next next' : Did} {s s' : Databases}
    (h : applyAll ws next s = (.ok s', next')) :
    applyAll (ws ++ vs) next s = applyAll vs next' s' := by
  induction ws generalizing next s with
  | nil =>
    obtain ⟨⟨rfl⟩, rfl⟩ := Prod.mk.inj h
    rfl
  | cons w ws ih =>
    obtain ⟨mid, last, hw, h⟩ := applyAll_cons_eq_ok h
    rw [List.cons_append, applyAll, hw]
    exact ih h

/-- Deleting takes place in one collection, also where it is left out since nothing is deleted. -/
theorem exists_applyAll_delete (s : Databases) (next : Did) (ns : Namespace) (dids : List Did) :
    ∃ mid, applyAll (Transaction.delete [] ns dids) next s = (.ok mid, next) ∧
      ∀ other, mid.collection other =
        if other = ns then dids.foldl Collection.delete (s.collection ns)
        else s.collection other := by
  unfold Transaction.delete
  split_ifs with hdids
  · rw [List.isEmpty_iff] at hdids
    refine ⟨s, rfl, fun other => ?_⟩
    rw [hdids]
    split_ifs with hother
    · rw [hother]
      rfl
    · rfl
  · obtain ⟨mid, hmid, hcollection⟩ := apply_delete s next ns dids
    exact ⟨mid, by simp only [List.nil_append, applyAll, hmid], hcollection⟩

/-- Deleting and then inserting takes place in one collection, also where a write without effect is
left out of the transaction. -/
theorem applyAll_delete_insert (s : Databases) (next : Did) (ns : Namespace) (dids : List Did)
    (docs : List Json) :
    match Collection.insertAll ns docs next (dids.foldl Collection.delete (s.collection ns)) with
    | (.ok c, next') => ∃ s', applyAll ((Transaction.delete [] ns dids).insert ns docs)
        next s = (.ok s', next') ∧
        ∀ other, s'.collection other = if other = ns then c else s.collection other
    | (.error e, next') => applyAll ((Transaction.delete [] ns dids).insert ns docs)
        next s = (.error e, next') := by
  obtain ⟨mid, hmid, hcollection⟩ := exists_applyAll_delete s next ns dids
  have hns := hcollection ns
  rw [if_pos rfl] at hns
  unfold Transaction.insert
  rw [← hns]
  split_ifs with hdocs
  · rw [List.isEmpty_iff] at hdocs
    rw [hdocs]
    refine ⟨mid, hmid, fun other => ?_⟩
    rw [hcollection]
    split_ifs
    · exact hns.symm
    · rfl
  · rw [applyAll_append hmid]
    have hinsert := apply_insert mid next ns docs
    rcases hins : Collection.insertAll ns docs next (mid.collection ns) with ⟨e | c, next'⟩
    · rw [hins] at hinsert
      simp only [applyAll, hinsert]
    · rw [hins] at hinsert
      refine ⟨mid.setCollection ns c, by simp only [applyAll, hinsert], fun other => ?_⟩
      rw [Databases.collection_setCollection, hcollection]
      split_ifs <;> rfl

/-- Writes to other databases leave a database. -/
theorem get?_applyAll_of_ne {ws : List Write} {name : String} (hws : ∀ w ∈ ws, w.database ≠ name)
    (h : applyAll ws next s = (.ok s', next')) : s'.get? name = s.get? name := by
  induction ws generalizing s next with
  | nil =>
    obtain ⟨⟨rfl⟩, -⟩ := Prod.mk.inj h
    rfl
  | cons w ws ih =>
    obtain ⟨hw, hws'⟩ := List.forall_mem_cons.1 hws
    obtain ⟨mid, last, happ, h⟩ := applyAll_cons_eq_ok h
    obtain ⟨db, -, rfl⟩ := apply_eq_ok happ
    rw [ih hws' h, Databases.get?_setDatabase_of_ne (Ne.symm hw)]

end Write

/-! ## What a write makes of its database -/

/-- A write that succeeds makes one database of another one, `next` and `next'` being the next free
document numbers. -/
inductive Write.Makes (db : Database) (next : Did) : Write → Database → Did → Prop
  /-- There is no collection to remove documents of. -/
  | deleteMissing {ns : Namespace} {dids : List Did} (missing : db.get? ns.collection = none) :
      Makes db next (.delete ns dids) db next
  /-- There is no collection to drop an index of. -/
  | dropIndexMissing {ns : Namespace} {name : String} (missing : db.get? ns.collection = none) :
      Makes db next (.dropIndex ns name) db next
  /-- Documents of a collection are removed. -/
  | delete {ns : Namespace} {dids : List Did} {c : Collection}
      (found : db.get? ns.collection = some c) :
      Makes db next (.delete ns dids)
        (db.insert ns.collection (dids.foldl Collection.delete c)) next
  /-- Documents are inserted into a collection, which is created for them where it is missing. -/
  | insert {ns : Namespace} {docs : List Json} {c : Collection} {next' : Did} (inserted :
      Collection.insertAll ns docs next ((db.get? ns.collection).getD .empty) = (.ok c, next')) :
      Makes db next (.insert ns docs) (db.insert ns.collection c) next'
  /-- A collection is created where it is missing. -/
  | createCollection {ns : Namespace} :
      Makes db next (.createCollection ns)
        (db.insert ns.collection ((db.get? ns.collection).getD .empty)) next
  /-- A collection is dropped. -/
  | dropCollection {ns : Namespace} :
      Makes db next (.dropCollection ns) (db.erase ns.collection) next
  /-- All collections are dropped. -/
  | dropDatabase {name : String} : Makes db next (.dropDatabase name) ∅ next
  /-- A collection is moved to a name that is free or may be taken. -/
  | rename {source target : Namespace} {dropTarget : Bool} {c : Collection}
      (free : db.contains target.collection = true → dropTarget = true)
      (found : (db.erase target.collection).get? source.collection = some c) :
      Makes db next (.rename source target dropTarget)
        (((db.erase target.collection).erase source.collection).insert target.collection c) next
  /-- An index is created, in a collection that is created for it where it is missing. -/
  | createIndex {ns : Namespace} {index : IndexSpec} {c : Collection}
      (created : ((db.get? ns.collection).getD .empty).createIndex ns index = .ok c) :
      Makes db next (.createIndex ns index) (db.insert ns.collection c) next
  /-- An index of a collection is dropped. -/
  | dropIndex {ns : Namespace} {name : String} {c : Collection}
      (found : db.get? ns.collection = some c) :
      Makes db next (.dropIndex ns name)
        (db.insert ns.collection { c with indexes := c.indexes.erase name }) next

/-- What a write that succeeds does is one of these. -/
theorem Write.makes_of_onDatabase {w : Write} {db db' : Database} {next next' : Did}
    (h : w.onDatabase next db = (.ok db', next')) : w.Makes db next db' next' := by
  cases w with
  | delete ns dids =>
    rw [onDatabase] at h
    split at h
    · rename_i missing
      obtain ⟨⟨rfl⟩, rfl⟩ := h
      exact .deleteMissing missing
    · rename_i c found
      obtain ⟨⟨rfl⟩, rfl⟩ := h
      exact .delete found
  | insert ns docs =>
    rw [onDatabase] at h
    rcases hins : Collection.insertAll ns docs next ((db.get? ns.collection).getD .empty) with
      ⟨_ | c, last⟩
    · simp only [hins] at h
      cases congrArg Prod.fst h
    · simp only [hins] at h
      obtain ⟨⟨rfl⟩, rfl⟩ := h
      exact .insert hins
  | createCollection ns =>
    obtain ⟨⟨rfl⟩, rfl⟩ := h
    exact .createCollection
  | dropCollection ns =>
    obtain ⟨⟨rfl⟩, rfl⟩ := h
    exact .dropCollection
  | dropDatabase name =>
    obtain ⟨⟨rfl⟩, rfl⟩ := h
    exact .dropDatabase
  | rename source target dropTarget =>
    obtain ⟨hren, rfl⟩ := Prod.mk.inj h
    rw [renameIn] at hren
    split_ifs at hren with hfree
    dsimp only at hren
    split at hren
    · cases hren
    · rename_i c found
      obtain rfl := Except.ok.inj hren
      exact .rename (fun htaken => by simpa [htaken] using hfree) found
  | createIndex ns index =>
    rw [onDatabase] at h
    obtain ⟨hcreate, rfl⟩ := Prod.mk.inj h
    cases hc : ((db.get? ns.collection).getD .empty).createIndex ns index with
    | error e =>
      rw [hc] at hcreate
      cases hcreate
    | ok c =>
      rw [hc] at hcreate
      obtain rfl := Except.ok.inj hcreate
      exact .createIndex hc
  | dropIndex ns name =>
    rw [onDatabase] at h
    split at h
    · rename_i missing
      obtain ⟨⟨rfl⟩, rfl⟩ := h
      exact .dropIndexMissing missing
    · rename_i c found
      obtain ⟨⟨rfl⟩, rfl⟩ := h
      exact .dropIndex found

/-! ## What every write keeps -/

/-- A collection is well-formed and its documents belong to a set. -/
structure Collection.Holds (Q : Json → Prop) (next : Did) (c : Collection) : Prop where
  /-- The collection is well-formed. -/
  wellFormed : c.WellFormed next
  /-- Its documents belong to the set. -/
  docs : ∀ did doc, c.docs.get? did = some doc → Q doc

/-- Every collection of a database is well-formed and its documents belong to a set. -/
def Database.Holds (Q : Json → Prop) (next : Did) (db : Database) : Prop :=
  ∀ name c, db.get? name = some c → c.Holds Q next

/-- Every collection is well-formed and its documents belong to a set. -/
def Databases.Holds (Q : Json → Prop) (next : Did) (s : Databases) : Prop :=
  ∀ name, (s.database name).Holds Q next

/-- The documents that a write inserts belong to a set. -/
def Write.Inserts (Q : Json → Prop) : Write → Prop
  | insert _ docs => ∀ doc ∈ docs, Q doc
  | _ => True

namespace Collection.Holds

variable {Q : Json → Prop} {next next' : Did} {c c' : Collection}

theorem empty (Q : Json → Prop) (next : Did) : Collection.empty.Holds Q next :=
  ⟨wellFormed_empty next, fun _ _ h => by simp [Collection.empty] at h⟩

theorem mono (h : c.Holds Q next) (hle : next ≤ next') : c.Holds Q next' :=
  ⟨h.wellFormed.mono hle, h.docs⟩

/-- The documents by key belong to the set, too. -/
theorem document? (h : c.Holds Q next) {key : DocKey} {doc : Json}
    (hk : c.document? key = some doc) : Q doc := by
  obtain ⟨did, -, hdoc⟩ := document?_eq_some.1 hk
  exact h.docs did doc hdoc

/-- A well-formed collection whose documents were there before, or belong to the set. -/
theorem of_document? (h : c'.WellFormed next)
    (hdocs : ∀ key doc, c'.document? key = some doc → Q doc) : c'.Holds Q next := by
  refine ⟨h, fun did doc hd => ?_⟩
  obtain ⟨key, -, hk⟩ := h.document?_of_docs hd
  exact hdocs key doc hk

theorem foldl_delete (h : c.Holds Q next) (dids : List Did) :
    (dids.foldl Collection.delete c).Holds Q next := by
  obtain ⟨hwf, -, hdocs⟩ := h.wellFormed.foldl_delete dids
  refine of_document? hwf fun key doc hk => ?_
  rw [hdocs] at hk
  split_ifs at hk
  exact h.document? hk

theorem insertAll {ns : Namespace} {docs : List Json} (h : c.Holds Q next)
    (hQ : ∀ doc ∈ docs, Q doc) (hok : Collection.insertAll ns docs next c = (.ok c', next')) :
    c'.Holds Q next' := by
  obtain ⟨hwf, -, hnew, hold⟩ := h.wellFormed.insertAll_eq_ok hok
  refine of_document? hwf fun key doc hk => ?_
  by_cases hkey : ∃ d ∈ docs, DocKey.ofDocument d = .ok key
  · obtain ⟨d, hd, hkd⟩ := hkey
    obtain ⟨k, hk', -, hsome⟩ := hnew d hd
    rw [hkd, Except.ok.injEq] at hk'
    rw [← hk', hk, Option.some_inj] at hsome
    exact hsome ▸ hQ d hd
  · rw [hold key fun d hd heq => hkey ⟨d, hd, heq⟩] at hk
    exact h.document? hk

end Collection.Holds

namespace Database.Holds

variable {Q : Json → Prop} {next next' : Did} {db db' : Database}

theorem empty (Q : Json → Prop) (next : Did) : Database.Holds Q next ∅ :=
  fun _ _ h => by simp at h

theorem mono (h : db.Holds Q next) (hle : next ≤ next') : db.Holds Q next' :=
  fun name c hc => (h name c hc).mono hle

theorem getD (h : db.Holds Q next) (name : String) :
    ((db.get? name).getD .empty).Holds Q next := by
  cases hc : db.get? name with
  | none => exact Collection.Holds.empty Q next
  | some c => exact h name c hc

theorem insert (h : db.Holds Q next) {name : String} {c : Collection} (hc : c.Holds Q next) :
    Database.Holds Q next (db.insert name c) := Table.forall_insert h hc

theorem erase (h : db.Holds Q next) (name : String) : Database.Holds Q next (db.erase name) :=
  Table.forall_erase h name

/-- A write keeps the collections of its database well-formed and their documents in the set. -/
theorem onDatabase (h : db.Holds Q next) {w : Write} (hw : w.Inserts Q)
    (hok : w.onDatabase next db = (.ok db', next')) : db'.Holds Q next' := by
  cases Write.makes_of_onDatabase hok with
  | deleteMissing missing | dropIndexMissing missing => exact h
  | delete found => exact h.insert ((h _ _ found).foldl_delete _)
  | insert inserted =>
    have hle := Collection.le_insertAll _ _ next _ |>.trans_eq (congrArg Prod.snd inserted)
    exact (h.mono hle).insert ((h.getD _).insertAll hw inserted)
  | createCollection => exact h.insert (h.getD _)
  | dropCollection => exact h.erase _
  | dropDatabase => exact empty Q next
  | rename free found => exact ((h.erase _).erase _).insert (h.erase _ _ _ found)
  | createIndex created =>
    obtain ⟨hwf, hdocs⟩ := (h.getD _).wellFormed.createIndex created
    refine h.insert (Collection.Holds.of_document? hwf fun key doc hk => ?_)
    rw [hdocs] at hk
    exact (h.getD _).document? hk
  | dropIndex found =>
    exact h.insert ⟨(h _ _ found).wellFormed.dropIndex _, (h _ _ found).docs⟩

end Database.Holds

namespace Write

/-- A write never gives a document number back. -/
theorem le_onDatabase (w : Write) (next : Did) (db : Database) :
    next ≤ (w.onDatabase next db).2 := by
  cases w with
  | insert ns docs =>
    have hle := Collection.le_insertAll ns docs next ((db.get? ns.collection).getD .empty)
    rw [onDatabase]
    rcases hins : Collection.insertAll ns docs next ((db.get? ns.collection).getD .empty) with
      ⟨_ | c, last⟩ <;> simpa [hins] using hle
  | delete ns dids => rw [onDatabase]; split <;> exact le_rfl
  | dropIndex ns name => rw [onDatabase]; split <;> exact le_rfl
  | _ => exact le_rfl

theorem le_apply (w : Write) (next : Did) (s : Databases) : next ≤ (w.apply next s).2 := by
  have hle := w.le_onDatabase next (s.database w.database)
  rw [apply]
  rcases hdb : w.onDatabase next (s.database w.database) with ⟨_ | db, last⟩ <;>
    simpa [hdb] using hle

theorem le_applyAll (ws : List Write) (next : Did) (s : Databases) :
    next ≤ (applyAll ws next s).2 := by
  induction ws generalizing next s with
  | nil => exact le_rfl
  | cons w ws ih =>
    have hle := w.le_apply next s
    rw [applyAll]
    rcases hw : w.apply next s with ⟨_ | s', last⟩
    · simpa [hw] using hle
    · rw [hw] at hle
      exact hle.trans (ih last s')

end Write

/-! ## What a store complains about -/

namespace ReplicationError

/-- Whether an error is one that a store answers a commit with. -/
def isOfStore : ReplicationError → Bool
  | rollback _ | user _ | duplicateKey .. | entry _ => true
  | _ => false

/-- Whether an error is one that a write fails with. -/
def isOfWrite : ReplicationError → Bool
  | user _ | duplicateKey .. => true
  | entry e => !e.isUnsupported
  | _ => false

variable {e : ReplicationError}

theorem isOfStore_of_isOfWrite (h : e.isOfWrite = true) : e.isOfStore = true := by
  cases e <;> first | rfl | cases h

/-- A write does not ask for its transaction to be done again. -/
theorem ne_rollback_of_isOfWrite (h : e.isOfWrite = true) (reason : String) :
    e ≠ .rollback reason := by
  rintro rfl
  cases h

end ReplicationError

section Errors

variable {e : ReplicationError} {next next' : Did}

/-- A document without a key is malformed. -/
theorem DocKey.isUnsupported_of_ofDocument {doc : Json} {e : EntryError}
    (h : ofDocument doc = .error e) : e.isUnsupported = false := by
  rw [ofDocument] at h
  cases hid : documentId doc with
  | ok id =>
    rw [hid] at h
    cases h
  | error e' =>
    rw [hid] at h
    obtain rfl := Except.error.inj h
    unfold documentId at hid
    split at hid
    · split at hid
      · obtain rfl := Except.error.inj hid
        rfl
      · obtain rfl := Except.error.inj hid
        rfl
      · cases hid
    · obtain rfl := Except.error.inj hid
      rfl

theorem Collection.isOfWrite_of_insert {c : Collection} {ns : Namespace} {doc : Json}
    (h : c.insert ns next doc = .error e) : e.isOfWrite = true := by
  rw [insert] at h
  split at h
  · rename_i hkey
    obtain rfl := Except.error.inj h
    rw [ReplicationError.isOfWrite, DocKey.isUnsupported_of_ofDocument hkey]
    rfl
  · split_ifs at h
    · obtain rfl := Except.error.inj h
      rfl
    · split at h
      · obtain rfl := Except.error.inj h
        rfl
      · cases h

theorem Collection.isOfWrite_of_insertAll {c : Collection} {ns : Namespace} {docs : List Json}
    (h : insertAll ns docs next c = (.error e, next')) : e.isOfWrite = true := by
  induction docs generalizing c next with
  | nil => cases congrArg Prod.fst h
  | cons doc docs ih =>
    rw [insertAll] at h
    split at h
    · rename_i hins
      obtain ⟨⟨rfl⟩, -⟩ := Prod.mk.inj h
      exact isOfWrite_of_insert hins
    · exact ih h

theorem Write.isOfWrite_of_onDatabase {w : Write} {db : Database}
    (h : w.onDatabase next db = (.error e, next')) : e.isOfWrite = true := by
  cases w with
  | insert ns docs =>
    rw [onDatabase] at h
    split at h
    · rename_i hins
      obtain ⟨⟨rfl⟩, -⟩ := Prod.mk.inj h
      exact Collection.isOfWrite_of_insertAll hins
    · cases congrArg Prod.fst h
  | rename source target dropTarget =>
    obtain ⟨hren, -⟩ := Prod.mk.inj h
    rw [renameIn] at hren
    split_ifs at hren
    · obtain rfl := Except.error.inj hren
      rfl
    · dsimp only at hren
      split at hren
      · obtain rfl := Except.error.inj hren
        rfl
      · cases hren
  | createIndex ns index =>
    obtain ⟨hcreate, -⟩ := Prod.mk.inj h
    rw [Collection.createIndex] at hcreate
    split_ifs at hcreate
    · obtain rfl := Except.error.inj hcreate
      rfl
    · cases hcreate
  | delete ns dids => rw [onDatabase] at h; split at h <;> cases congrArg Prod.fst h
  | dropIndex ns name => rw [onDatabase] at h; split at h <;> cases congrArg Prod.fst h
  | _ => cases congrArg Prod.fst h

/-- Writes fail with errors of writes only. -/
theorem Write.isOfWrite_of_applyAll {ws : List Write} {s : Databases}
    (h : applyAll ws next s = (.error e, next')) : e.isOfWrite = true := by
  induction ws generalizing s next with
  | nil => cases congrArg Prod.fst h
  | cons w ws ih =>
    rw [applyAll, apply] at h
    split at h
    · rename_i happ
      obtain ⟨⟨rfl⟩, -⟩ := Prod.mk.inj h
      split at happ
      · rename_i hdb
        obtain ⟨⟨rfl⟩, -⟩ := Prod.mk.inj happ
        exact isOfWrite_of_onDatabase hdb
      · cases congrArg Prod.fst happ
    · exact ih h

end Errors

namespace Databases.Holds

variable {Q : Json → Prop} {next next' : Did} {s s' : Databases}

theorem mono (h : s.Holds Q next) (hle : next ≤ next') : s.Holds Q next' :=
  fun name => (h name).mono hle

/-- What holds of every database holds of the collection that a namespace names. -/
theorem collection (h : s.Holds Q next) (ns : Namespace) : (s.collection ns).Holds Q next :=
  (h ns.database).getD ns.collection

/-- A write keeps every collection well-formed and its documents in the set. -/
theorem apply (h : s.Holds Q next) {w : Write} (hw : w.Inserts Q)
    (hok : w.apply next s = (.ok s', next')) : s'.Holds Q next' := by
  have hle : next ≤ next' := (w.le_apply next s).trans_eq (congrArg Prod.snd hok)
  obtain ⟨db, hdb, rfl⟩ := Write.apply_eq_ok hok
  intro name
  rw [Databases.database_setDatabase]
  split_ifs
  · exact (h _).onDatabase hw hdb
  · exact (h name).mono hle

/-- Writes in order keep every collection well-formed and its documents in the set. -/
theorem applyAll (h : s.Holds Q next) {ws : List Write} (hw : ∀ w ∈ ws, w.Inserts Q)
    (hok : Write.applyAll ws next s = (.ok s', next')) : s'.Holds Q next' := by
  induction ws generalizing s next with
  | nil =>
    obtain ⟨⟨rfl⟩, rfl⟩ := hok
    exact h
  | cons w ws ih =>
    obtain ⟨hw, hws⟩ := List.forall_mem_cons.1 hw
    obtain ⟨mid, last, happ, hok⟩ := Write.applyAll_cons_eq_ok hok
    exact ih (h.apply hw happ) hws hok

end Databases.Holds

end Replica
