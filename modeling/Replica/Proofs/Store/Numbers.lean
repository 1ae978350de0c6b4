import Replica.Proofs.Store.Reachable

/-!
# Document numbers

A number is given out once. A write moves, keeps or removes the documents that are there, and what
it adds has numbers that were free before (`Databases.Continues`). So as writes, transactions and
commits follow one another, no number is ever in two collections, and a number that was given out
never stands for another document (`Store.continues_commit`). The same relation says that a database
without collections is not kept.
-/

namespace Replica

/-! ## One collection -/

namespace Collection

variable {c c' : Collection} {did d next next' : Did} {doc : Json}

/-- Deleting adds no document. -/
theorem docs_delete (h : (c.delete did).docs.get? d = some doc) : c.docs.get? d = some doc := by
  rw [delete] at h
  split at h
  · exact h
  · rw [Table.get?_erase] at h
    split_ifs at h
    exact h

theorem docs_foldl_delete {dids : List Did}
    (h : (dids.foldl Collection.delete c).docs.get? d = some doc) : c.docs.get? d = some doc := by
  induction dids generalizing c with
  | nil => exact h
  | cons did dids ih => exact docs_delete (ih h)

/-- An insert binds a number to the document and a key to the number. -/
theorem insert_eq_ok {ns : Namespace} (hok : c.insert ns next doc = .ok c') :
    ∃ key, DocKey.ofDocument doc = .ok key ∧ c.ids.contains key = false ∧
      c' = { c with docs := c.docs.insert next doc, ids := c.ids.insert key next } := by
  rw [insert] at hok
  split at hok
  · cases hok
  · rename_i key hkey
    split_ifs at hok with hknown
    split at hok
    · cases hok
    · exact ⟨key, hkey, Bool.eq_false_iff.2 hknown, (Except.ok.inj hok).symm⟩

/-- A document after inserts is a former one, or it has a number that the inserts used up. -/
theorem docs_insertAll {ns : Namespace} {docs : List Json}
    (hok : insertAll ns docs next c = (.ok c', next')) (h : c'.docs.get? d = some doc) :
    next ≤ d ∧ d < next' ∨ c.docs.get? d = some doc := by
  induction docs generalizing c next with
  | nil =>
    obtain ⟨⟨rfl⟩, -⟩ := Prod.mk.inj hok
    exact .inr h
  | cons new docs ih =>
    rw [insertAll] at hok
    split at hok
    · cases congrArg Prod.fst hok
    · rename_i mid hins
      have hle := le_insertAll ns docs (next + 1) mid
      rw [hok] at hle
      rcases ih hok with ⟨hd, hd'⟩ | hd
      · exact .inl ⟨(Nat.le_succ next).trans hd, hd'⟩
      · obtain ⟨key, -, -, rfl⟩ := insert_eq_ok hins
        rw [Table.get?_insert] at hd
        split_ifs at hd with hnext
        · exact .inl ⟨hnext.ge, hnext ▸ hle⟩
        · exact .inr hd

/-- Deleting numbers takes their keys away and leaves the numbers of all other keys. -/
theorem WellFormed.ids_foldl_delete (h : c.WellFormed next) (dids : List Did) (key : DocKey) :
    (dids.foldl Collection.delete c).ids.get? key =
      if ∃ did ∈ dids, c.ids.get? key = some did then none else c.ids.get? key := by
  induction dids generalizing c with
  | nil => simp
  | cons did dids ih =>
    rw [List.foldl_cons, ih (h.delete did), (h.get?_delete did).2]
    by_cases hk : c.ids.get? key = some did
    · simp [hk]
    · simp [hk]

/-- Inserting leaves the numbers of all keys but those of the new documents. -/
theorem ids_insertAll {ns : Namespace} {docs : List Json} {key : DocKey}
    (hok : insertAll ns docs next c = (.ok c', next'))
    (hkey : ∀ doc ∈ docs, DocKey.ofDocument doc ≠ .ok key) :
    c'.ids.get? key = c.ids.get? key := by
  induction docs generalizing c next with
  | nil =>
    obtain ⟨⟨rfl⟩, -⟩ := Prod.mk.inj hok
    rfl
  | cons new docs ih =>
    rw [insertAll] at hok
    split at hok
    · cases congrArg Prod.fst hok
    · rename_i mid hins
      rw [ih hok fun doc hdoc => hkey doc (List.mem_cons_of_mem _ hdoc)]
      obtain ⟨k, hk, -, rfl⟩ := insert_eq_ok hins
      have hne : key ≠ k := fun heq => hkey new List.mem_cons_self (heq ▸ hk)
      rw [Table.get?_insert, if_neg hne]

theorem docs_createIndex {ns : Namespace} {index : IndexSpec}
    (hok : c.createIndex ns index = .ok c') : c'.docs = c.docs := by
  rw [createIndex] at hok
  split_ifs at hok
  obtain rfl := Except.ok.inj hok
  rfl

end Collection

/-! ## One database -/

namespace Database

/-- A collection of the database has a document with a number. -/
def Has (db : Database) (name : String) (did : Did) (doc : Json) : Prop :=
  ∃ c, db.get? name = some c ∧ c.docs.get? did = some doc

/-- Numbers from `next` on are free, and none is in two collections. -/
structure Numbered (db : Database) (next : Did) : Prop where
  /-- Numbers from `next` on are free. -/
  below : ∀ name did doc, Has db name did doc → did < next
  /-- No number is in two collections. -/
  apart : ∀ name name' did doc doc', Has db name did doc → Has db name' did doc' → name = name'

/-- The second database has former documents and documents with numbers that were free, and it has
no number twice if the first one does not. -/
structure Continues (db : Database) (next : Did) (db' : Database) (next' : Did) : Prop where
  /-- A document is a former one or has a number that was free. -/
  former : ∀ name did doc, Has db' name did doc → next ≤ did ∨ ∃ name', Has db name' did doc
  /-- No number is in two collections. -/
  numbered : Numbered db next → Numbered db' next'

variable {db db' : Database} {name other : String} {c : Collection} {did : Did} {doc : Json}
  {next next' : Did}

theorem has_insert : Has (db.insert name c) other did doc ↔
    if other = name then c.docs.get? did = some doc else Has db other did doc := by
  simp only [Has, Table.get?_insert]
  split_ifs <;> simp

theorem has_erase : Has (db.erase name) other did doc ↔ other ≠ name ∧ Has db other did doc := by
  simp only [Has, Table.get?_erase]
  split_ifs with h <;> simp [h]

/-- The documents of a collection that may be missing are documents of the database. -/
theorem has_of_getD (h : ((db.get? name).getD .empty).docs.get? did = some doc) :
    Has db name did doc := by
  cases hc : db.get? name with
  | none => simp [hc, Collection.empty] at h
  | some c => exact ⟨c, hc, by simpa [hc] using h⟩

namespace Continues

theorem refl (db : Database) (next : Did) : Continues db next db next :=
  ⟨fun name _ _ h => .inr ⟨name, h⟩, id⟩

/-- A collection is put in place whose documents were in it before or have new numbers. -/
theorem insert (hle : next ≤ next')
    (hc : ∀ did doc, c.docs.get? did = some doc →
      next ≤ did ∧ did < next' ∨ Has db name did doc) :
    Continues db next (db.insert name c) next' where
  former other did doc h := by
    rw [has_insert] at h
    split_ifs at h
    · exact (hc did doc h).imp And.left fun h => ⟨name, h⟩
    · exact .inr ⟨other, h⟩
  numbered hdb := by
    -- A document of the collection put in place that is also elsewhere was in it before: its number
    -- cannot be new, for numbers elsewhere are below `next`.
    refine ⟨fun other did doc h => ?_, fun a b did doc doc' ha hb => ?_⟩
    · rw [has_insert] at h
      split_ifs at h
      · exact (hc did doc h).elim And.right fun h => (hdb.below _ _ _ h).trans_le hle
      · exact (hdb.below _ _ _ h).trans_le hle
    · rw [has_insert] at ha hb
      split_ifs at ha hb with hna hnb hnb
      · rw [hna, hnb]
      · rcases hc did doc ha with ⟨hnew, -⟩ | hold
        · exact absurd (hdb.below _ _ _ hb) hnew.not_gt
        · exact hna.trans (hdb.apart _ _ _ _ _ hold hb)
      · rcases hc did doc' hb with ⟨hnew, -⟩ | hold
        · exact absurd (hdb.below _ _ _ ha) hnew.not_gt
        · exact (hdb.apart _ _ _ _ _ ha hold).trans hnb.symm
      · exact hdb.apart _ _ _ _ _ ha hb

theorem erase (db : Database) (next : Did) (name : String) :
    Continues db next (db.erase name) next where
  former other _ _ h := .inr ⟨other, (has_erase.1 h).2⟩
  numbered hdb :=
    ⟨fun _ _ _ h => hdb.below _ _ _ (has_erase.1 h).2,
      fun _ _ _ _ _ h h' => hdb.apart _ _ _ _ _ (has_erase.1 h).2 (has_erase.1 h').2⟩

theorem empty (db : Database) (next : Did) : Continues db next ∅ next where
  former _ _ _ h := by simp [Has] at h
  numbered _ := ⟨fun _ _ _ h => by simp [Has] at h, fun _ _ _ _ _ h => by simp [Has] at h⟩

/-- A renamed collection takes its documents along. -/
theorem rename {source target : String} (hc : (db.erase target).get? source = some c) :
    Continues db next (((db.erase target).erase source).insert target c) next := by
  -- What is found under the new name was found under the former one.
  have horigin : ∀ other did doc, Has (((db.erase target).erase source).insert target c) other did
      doc → ∃ former, Has db former did doc ∧
        (other = target ∧ former = source ∨ other ≠ source ∧ former = other) := by
    intro other did doc h
    rw [has_insert] at h
    split_ifs at h with hother
    · have hsource : Has (db.erase target) source did doc := ⟨c, hc, h⟩
      exact ⟨_, (has_erase.1 hsource).2, .inl ⟨hother, rfl⟩⟩
    · obtain ⟨hne, h⟩ := has_erase.1 h
      exact ⟨other, (has_erase.1 h).2, .inr ⟨hne, rfl⟩⟩
  refine ⟨fun other did doc h => ?_, fun hdb => ⟨fun other did doc h => ?_, ?_⟩⟩
  · obtain ⟨former, hformer, -⟩ := horigin other did doc h
    exact .inr ⟨former, hformer⟩
  · obtain ⟨former, hformer, -⟩ := horigin other did doc h
    exact hdb.below _ _ _ hformer
  -- One number in two places was in one place before, and `target` is the only new name.
  · intro a b did doc doc' ha hb
    obtain ⟨fa, hfa, hna⟩ := horigin a did doc ha
    obtain ⟨fb, hfb, hnb⟩ := horigin b did doc' hb
    have hf := hdb.apart _ _ _ _ _ hfa hfb
    rcases hna with ⟨hat, hfs⟩ | ⟨hans, hfaa⟩ <;> rcases hnb with ⟨hbt, hfs'⟩ | ⟨hbns, hfbb⟩
    · rw [hat, hbt]
    · exact absurd (hfbb.symm.trans (hf.symm.trans hfs)) hbns
    · exact absurd (hfaa.symm.trans (hf.trans hfs')) hans
    · rw [← hfaa, ← hfbb, hf]

/-- What a write makes of its database. -/
theorem onDatabase {w : Write} (hok : w.onDatabase next db = (.ok db', next')) :
    Continues db next db' next' := by
  cases Write.makes_of_onDatabase hok with
  | deleteMissing missing | dropIndexMissing missing => exact refl db next
  | delete found =>
    exact insert le_rfl fun did doc h => .inr ⟨_, found, Collection.docs_foldl_delete h⟩
  | insert inserted =>
    have hle := Collection.le_insertAll _ _ next _ |>.trans_eq (congrArg Prod.snd inserted)
    exact insert hle fun did doc h =>
      (Collection.docs_insertAll inserted h).imp_right has_of_getD
  | createCollection => exact insert le_rfl fun did doc h => .inr (has_of_getD h)
  | dropCollection => exact erase db next _
  | dropDatabase => exact empty db next
  | rename free found => exact rename found
  | createIndex created =>
    exact insert le_rfl fun did doc h =>
      .inr (has_of_getD (by rwa [Collection.docs_createIndex created] at h))
  | dropIndex found => exact insert le_rfl fun did doc h => .inr ⟨_, found, h⟩

end Continues

end Database

/-! ## All databases -/

namespace Databases

/-- A collection has a document with a number. -/
def Has (s : Databases) (ns : Namespace) (did : Did) (doc : Json) : Prop :=
  (s.database ns.database).Has ns.collection did doc

/-- Numbers from `next` on are free, none is in two collections, and every database has
collections. -/
structure Numbered (s : Databases) (next : Did) : Prop where
  /-- Numbers from `next` on are free. -/
  below : ∀ ns did doc, Has s ns did doc → did < next
  /-- No number is in two collections. -/
  apart : ∀ ns ns' did doc doc', Has s ns did doc → Has s ns' did doc' → ns = ns'
  /-- Every database has collections. -/
  inhabited : ∀ name db, s.get? name = some db → db.isEmpty = false

/-- The second databases have former documents and documents with numbers that were free, and what
is known of numbers and of databases without collections is known of them too. -/
structure Continues (s : Databases) (next : Did) (s' : Databases) (next' : Did) : Prop where
  /-- No number was given back. -/
  le : next ≤ next'
  /-- A document is a former one or has a number that was free. -/
  former : ∀ ns did doc, Has s' ns did doc → next ≤ did ∨ ∃ ns', Has s ns' did doc
  /-- Free numbers stay free and no number is in two collections. -/
  numbered : Numbered s next → Numbered s' next'

variable {s s' s'' : Databases} {next next' next'' : Did}

namespace Continues

/-- Numbers can be used up without giving them to documents. -/
theorem of_le (s : Databases) (hle : next ≤ next') : Continues s next s next' where
  le := hle
  former ns _ _ h := .inr ⟨ns, h⟩
  numbered hs := { hs with below := fun ns did doc h => (hs.below ns did doc h).trans_le hle }

theorem trans (h : Continues s next s' next') (h' : Continues s' next' s'' next'') :
    Continues s next s'' next'' where
  le := h.le.trans h'.le
  former ns did doc hd := by
    rcases h'.former ns did doc hd with hnew | ⟨ns', hd'⟩
    · exact .inl (h.le.trans hnew)
    · exact h.former ns' did doc hd'
  numbered hs := h'.numbered (h.numbered hs)

end Continues

/-- Putting a database in place never leaves one without collections. -/
theorem isEmpty_setDatabase (hs : ∀ name db, s.get? name = some db → db.isEmpty = false)
    {name other : String} {db db' : Database}
    (h : (s.setDatabase name db).get? other = some db') : db'.isEmpty = false := by
  rw [setDatabase] at h
  split_ifs at h with hdb
  · exact Table.forall_erase hs name other db' h
  · exact Table.forall_insert hs (Bool.eq_false_iff.2 hdb) other db' h

/-- What is known of the numbers of all databases is known of one. -/
theorem Numbered.database (hs : Numbered s next) (name : String) :
    (s.database name).Numbered next where
  below collection did doc h := hs.below ⟨name, collection⟩ did doc h
  apart collection collection' _ _ _ h h' :=
    (Namespace.mk.inj (hs.apart ⟨name, collection⟩ ⟨name, collection'⟩ _ _ _ h h')).2

theorem has_setDatabase {name : String} {db : Database} {ns : Namespace} {did : Did} {doc : Json} :
    Has (s.setDatabase name db) ns did doc ↔
      if ns.database = name then db.Has ns.collection did doc else Has s ns did doc := by
  rw [Has, database_setDatabase]
  split_ifs <;> rfl

namespace Continues

variable {name : String} {db : Database} {ns ns' : Namespace} {did : Did} {doc doc' : Json}

/-- A document of a database that is put in place is a former one of it, or its number is new. -/
theorem former_setDatabase (hdb : (s.database name).Continues next db next')
    (h : Has (s.setDatabase name db) ns did doc) :
    next ≤ did ∨ ∃ former, former.database = ns.database ∧ Has s former did doc := by
  rw [has_setDatabase] at h
  split_ifs at h with hns
  · refine (hdb.former _ _ _ h).imp_right ?_
    rintro ⟨former, h⟩
    exact ⟨⟨name, former⟩, hns.symm, h⟩
  · exact .inr ⟨ns, rfl, h⟩

/-- A number of a database that is put in place is not in another database, since a number there was
not free before. -/
theorem database_eq_of_has (hs : Numbered s next)
    (hdb : (s.database name).Continues next db next')
    (h : Has (s.setDatabase name db) ns did doc) (h' : Has (s.setDatabase name db) ns' did doc') :
    ns.database = ns'.database := by
  have hformer := former_setDatabase hdb h
  have hformer' := former_setDatabase hdb h'
  rw [has_setDatabase] at h h'
  split_ifs at h h' with hns hns' hns'
  · rw [hns, hns']
  · rcases hformer with hnew | ⟨a, ha, hformer⟩
    · exact absurd (hs.below _ _ _ h') hnew.not_gt
    · rw [← ha, hs.apart _ _ _ _ _ hformer h']
  · rcases hformer' with hnew | ⟨a, ha, hformer'⟩
    · exact absurd (hs.below _ _ _ h) hnew.not_gt
    · rw [← ha, hs.apart _ _ _ _ _ hformer' h]
  · rw [hs.apart _ _ _ _ _ h h']

/-- A database is put in place of which the documents are former ones or have new numbers. -/
theorem setDatabase (hle : next ≤ next') (hdb : (s.database name).Continues next db next') :
    Continues s next (s.setDatabase name db) next' where
  le := hle
  former ns did doc h := by
    refine (former_setDatabase hdb h).imp_right ?_
    rintro ⟨former, -, h⟩
    exact ⟨former, h⟩
  numbered hs := by
    have hin := hdb.numbered (hs.database name)
    refine ⟨fun ns did doc h => ?_, fun ns ns' did doc doc' h h' => ?_,
      fun _ _ h => isEmpty_setDatabase hs.inhabited h⟩
    · rw [has_setDatabase] at h
      split_ifs at h
      · exact hin.below _ _ _ h
      · exact (hs.below _ _ _ h).trans_le hle
    · -- In the database itself the numbers are apart, and so they are in the others.
      have hdatabase := database_eq_of_has hs hdb h h'
      rw [has_setDatabase] at h h'
      rw [← hdatabase] at h'
      split_ifs at h h'
      · obtain ⟨database, collection⟩ := ns
        obtain ⟨database', collection'⟩ := ns'
        obtain rfl : database = database' := hdatabase
        exact congrArg _ (hin.apart _ _ _ _ _ h h')
      · exact hs.apart _ _ _ _ _ h h'

/-- What a write makes of all databases. -/
theorem apply {w : Write} (hok : w.apply next s = (.ok s', next')) :
    Continues s next s' next' := by
  obtain ⟨db, hdb, rfl⟩ := Write.apply_eq_ok hok
  exact setDatabase ((w.le_apply next s).trans_eq (congrArg Prod.snd hok)) (.onDatabase hdb)

/-- What writes in order make of all databases. -/
theorem applyAll {ws : List Write} (hok : Write.applyAll ws next s = (.ok s', next')) :
    Continues s next s' next' := by
  induction ws generalizing s next with
  | nil =>
    obtain ⟨⟨rfl⟩, rfl⟩ := hok
    exact of_le _ le_rfl
  | cons w ws ih =>
    obtain ⟨mid, last, happ, hok⟩ := Write.applyAll_cons_eq_ok hok
    exact (apply happ).trans (ih hok)

end Continues

end Databases

/-- A commit moves, keeps or removes the documents that are there, and those that it adds have new
numbers. -/
theorem Store.continues_commit (s : Store) (t : Transaction) :
    s.databases.Continues s.nextDid (s.commit t).2.databases (s.commit t).2.nextDid := by
  rcases hc : s.commit t with ⟨_ | _, s'⟩
  · obtain ⟨hsame, -⟩ := commit_eq_error hc
    rw [hsame.databases]
    exact .of_le _ hsame.nextDid
  · exact .applyAll (commit_eq_ok hc).1

end Replica
