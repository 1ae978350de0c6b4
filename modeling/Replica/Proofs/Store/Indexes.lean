import Replica.Proofs.Store.Reachable

/-!
# Indexes stand under their names

What every write keeps of a database holds of every database of a reachable store
(`Reachable.of_makes`). So in a reachable store every index stands under its own name
(`Reachable.named`), and creating indexes one after another puts each of them under its name and
leaves the documents (`Write.applyAll_createIndexes`).
-/

namespace Replica

namespace Table

variable {κ : Type u} {α : Type v} [LT κ]

/-- The bindings of the values that pass a test. -/
def filterValues (t : Table κ α) (p : α → Bool) : Table κ α :=
  ⟨t.toList.filter fun b => p b.2, t.ascending.filter _⟩

theorem values_filterValues (t : Table κ α) (p : α → Bool) :
    (t.filterValues p).values = t.values.filter p :=
  (List.filter_map ..).symm

variable [LE κ] [DecidableEq κ] [Std.IsLinearOrder κ] [Std.LawfulOrderLT κ]

theorem get?_filterValues {t : Table κ α} {p : α → Bool} {k : κ} {v : α} :
    (t.filterValues p).get? k = some v ↔ t.get? k = some v ∧ p v = true := by
  rw [← mem_toList, ← mem_toList]
  exact List.mem_filter

end Table

/-- Every index of a collection stands under its name. -/
def Collection.Named (c : Collection) : Prop :=
  ∀ name index, c.indexes.get? name = some index → index.name = name

/-- Every index of a database stands under its name. -/
def Database.Named (db : Database) : Prop := ∀ name c, db.get? name = some c → c.Named

namespace Collection

variable {c c' : Collection} {ns : Namespace} {docs : List Json} {next next' : Did}

theorem Named.congr (h : c.Named) (heq : c'.indexes = c.indexes) : c'.Named := by
  intro name index hindex
  rw [heq] at hindex
  exact h name index hindex

theorem named_empty : Collection.empty.Named := fun _ _ h => by simp [Collection.empty] at h

theorem indexes_foldl_delete (dids : List Did) (c : Collection) :
    (dids.foldl delete c).indexes = c.indexes := by
  induction dids generalizing c with
  | nil => rfl
  | cons did dids ih => rw [List.foldl_cons, ih, delete_indexes]

theorem indexes_insert {doc : Json} (h : c.insert ns next doc = .ok c') :
    c'.indexes = c.indexes := by
  rw [insert] at h
  split at h
  · cases h
  · split_ifs at h
    split at h
    · cases h
    · obtain rfl := Except.ok.inj h
      rfl

theorem indexes_insertAll (h : insertAll ns docs next c = (.ok c', next')) :
    c'.indexes = c.indexes := by
  induction docs generalizing c next with
  | nil =>
    obtain ⟨⟨rfl⟩, -⟩ := Prod.mk.inj h
    rfl
  | cons doc docs ih =>
    rw [insertAll] at h
    split at h
    · cases congrArg Prod.fst h
    · rename_i hins
      rw [ih h, indexes_insert hins]

theorem createIndex_eq_ok {index : IndexSpec} (h : c.createIndex ns index = .ok c') :
    c' = { c with indexes := c.indexes.insert index.name index } := by
  rw [createIndex] at h
  split_ifs at h
  exact (Except.ok.inj h).symm

end Collection

namespace Database.Named

variable {w : Write} {db db' : Database} {next next' : Did} {name : String} {c : Collection}

theorem getD (h : Database.Named db) (name : String) : ((db.get? name).getD .empty).Named := by
  cases hc : db.get? name with
  | none => exact Collection.named_empty
  | some c => exact h name c hc

theorem insert (h : Database.Named db) (hc : c.Named) (name : String) :
    Database.Named (db.insert name c) := Table.forall_insert h hc

theorem erase (h : Database.Named db) (name : String) : Database.Named (db.erase name) :=
  Table.forall_erase h name

/-- A write keeps every index under its name. -/
theorem makes (h : Database.Named db) (hw : w.Makes db next db' next') : Database.Named db' := by
  cases hw with
  | deleteMissing | dropIndexMissing => exact h
  | delete found => exact h.insert ((h _ _ found).congr (Collection.indexes_foldl_delete _ _)) _
  | insert inserted => exact h.insert ((h.getD _).congr (Collection.indexes_insertAll inserted)) _
  | createCollection => exact h.insert (h.getD _) _
  | dropCollection => exact h.erase _
  | dropDatabase => exact fun _ _ hc => by simp at hc
  | rename free found => exact ((h.erase _).erase _).insert (h.erase _ _ _ found) _
  | createIndex created =>
    refine h.insert ?_ _
    rw [Collection.createIndex_eq_ok created]
    exact Table.forall_insert (h.getD _) rfl
  | dropIndex found =>
    refine h.insert ?_ _
    exact Table.forall_erase (h _ _ found) _

end Database.Named

/-- What every write keeps of a database is kept of all databases by writes in order. -/
theorem Databases.keeps_applyAll {P : Database → Prop}
    (hmakes : ∀ {w : Write} {db db' : Database} {next next' : Did}, P db →
      w.Makes db next db' next' → P db')
    {ws : List Write} {next next' : Did} {s s' : Databases} (hs : ∀ name, P (s.database name))
    (h : Write.applyAll ws next s = (.ok s', next')) (name : String) : P (s'.database name) := by
  induction ws generalizing s next with
  | nil =>
    obtain ⟨⟨rfl⟩, -⟩ := Prod.mk.inj h
    exact hs name
  | cons w ws ih =>
    obtain ⟨mid, last, happ, hrest⟩ := Write.applyAll_cons_eq_ok h
    obtain ⟨db, hdb, rfl⟩ := Write.apply_eq_ok happ
    refine ih (fun other => ?_) hrest
    rw [Databases.database_setDatabase]
    split_ifs
    · exact hmakes (hs _) (Write.makes_of_onDatabase hdb)
    · exact hs other

namespace Store

variable {s : Store} {P : Database → Prop}

/-- What every write keeps of a database, and what holds where there is none, holds of all databases
of a reachable store. -/
theorem Reachable.of_makes (hempty : P ∅)
    (hmakes : ∀ {w : Write} {db db' : Database} {next next' : Did}, P db →
      w.Makes db next db' next' → P db')
    (h : s.Reachable) (name : String) : P (s.databases.database name) := by
  revert name
  induction h with
  | empty => exact fun _ => hempty
  | commit h t ht ih =>
    rename_i s
    rcases hc : s.commit t with ⟨e | ⟨⟩, s'⟩
    · rw [(commit_eq_error hc).1.databases]
      exact ih
    · exact Databases.keeps_applyAll hmakes ih (commit_eq_ok hc).1
  | refuse h refusals ih => exact ih
  | failWritesTo h ns ih => exact ih
  | clearWriteFailures h ih => exact ih

/-- In a reachable store every index stands under its name. -/
theorem Reachable.named (h : s.Reachable) (ns : Namespace) : (s.collection ns).Named :=
  (h.of_makes (P := Database.Named) (fun _ _ hc => by simp at hc) Database.Named.makes
    ns.database).getD ns.collection

end Store

/-! ## Creating indexes -/

theorem Databases.setCollection_setCollection (s : Databases) (ns : Namespace)
    (c d : Collection) : (s.setCollection ns c).setCollection ns d = s.setCollection ns d := by
  have hinsert : ((s.database ns.database).insert ns.collection c).insert ns.collection d =
      (s.database ns.database).insert ns.collection d := by
    refine Table.ext_get? fun name => ?_
    simp only [Table.get?_insert]
    split_ifs <;> rfl
  refine Table.ext_get? fun name => ?_
  rw [setCollection, setCollection, database_setDatabase, if_pos rfl, hinsert, setCollection,
    get?_setDatabase, get?_setDatabase, get?_setDatabase]
  split_ifs <;> rfl

/-- A collection with more indexes, each of which takes the place of one with its name. -/
def Collection.withAll (c : Collection) (indexes : List IndexSpec) : Collection :=
  { c with indexes := indexes.foldl (fun table index => table.insert index.name index) c.indexes }

/-- Indexes are created one after another, if documents agree in the fields of none that is
unique. -/
theorem Write.applyAll_createIndexes {ns : Namespace} {c : Collection} {indexes : List IndexSpec}
    (h : ∀ index ∈ indexes, index.unique = true →
      Collection.hasRepetition (c.docs.values.map index.tuple) = false)
    (next : Did) (s : Databases) :
    applyAll (indexes.map (.createIndex ns)) next (s.setCollection ns c) =
      (.ok (s.setCollection ns (c.withAll indexes)), next) := by
  induction indexes generalizing c with
  | nil => rfl
  | cons index indexes ih =>
    obtain ⟨hindex, hindexes⟩ := List.forall_mem_cons.1 h
    have hcreate : c.createIndex ns index =
        .ok { c with indexes := c.indexes.insert index.name index } := by
      refine if_neg ?_
      rw [Bool.and_eq_true, not_and, Bool.not_eq_true]
      exact hindex
    have hget : ((s.setCollection ns c).database ns.database).get? ns.collection = some c := by
      have hns := s.collection?_setCollection ns ns c
      rwa [if_pos rfl] at hns
    have happly : (createIndex ns index).apply next (s.setCollection ns c) =
        (.ok (s.setCollection ns { c with indexes := c.indexes.insert index.name index }),
          next) := by
      simp only [apply, database, onDatabase, hget, Option.getD_some, hcreate]
      exact congrArg (fun s => (Except.ok s, next)) (s.setCollection_setCollection ns c _)
    rw [List.map_cons, applyAll, happly]
    exact ih hindexes

end Replica
