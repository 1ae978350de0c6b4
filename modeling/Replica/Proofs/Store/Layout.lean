import Replica.Proofs.Store.Reachable

/-!
# Which collections are there

Writes change the collections that they are about and spare the others (`Write.Spares`), so
transactions do, too, whether they succeed or not (`Store.collection?_commit`). Those writes that
create a collection or change its indexes leave all documents (`Write.document?_applyAll`), those
that drop something leave nothing where they drop, and a renaming puts what was at its source in the
place of what was at its target (`Write.collection?_rename`).
-/

namespace Replica

theorem Databases.collection?_setDatabase (s : Databases) (name : String) (db : Database)
    (ns : Namespace) : (s.setDatabase name db).collection? ns =
      if ns.database = name then db.get? ns.collection else s.collection? ns := by
  rw [collection?, database_setDatabase]
  split_ifs <;> rfl

namespace Write

variable {w : Write} {ws : List Write} {s s' : Databases} {db db' : Database} {next next' : Did}
  {ns other source target : Namespace}

/-! ## Collections that are spared -/

/-- The write is about other collections. -/
def Spares (ns : Namespace) : Write → Prop
  | delete n _ | insert n _ | createCollection n | dropCollection n | createIndex n _
  | dropIndex n _ => ns ≠ n
  | dropDatabase database => ns.database ≠ database
  | rename source target _ => source.database = target.database ∧ ns ≠ source ∧ ns ≠ target

/-- Collections of one database are different if their names are. -/
theorem collection_ne (hne : ns ≠ other) (hdatabase : ns.database = other.database) :
    ns.collection ≠ other.collection := by
  obtain ⟨d, n⟩ := ns
  obtain ⟨d', n'⟩ := other
  rintro rfl
  exact hne (by rw [show d = d' from hdatabase])

/-- A write leaves the collections that it spares. -/
theorem Makes.get?_of_spares (h : w.Makes db next db' next') (hw : w.Spares ns)
    (hdatabase : ns.database = w.database) : db'.get? ns.collection = db.get? ns.collection := by
  cases h with
  | deleteMissing missing | dropIndexMissing missing => rfl
  | delete found => rw [Table.get?_insert, if_neg (collection_ne hw hdatabase)]
  | insert inserted => rw [Table.get?_insert, if_neg (collection_ne hw hdatabase)]
  | createCollection => rw [Table.get?_insert, if_neg (collection_ne hw hdatabase)]
  | dropCollection => rw [Table.get?_erase, if_neg (collection_ne hw hdatabase)]
  | dropDatabase => exact absurd hdatabase hw
  | rename free found =>
    obtain ⟨hsame, hsource, htarget⟩ := hw
    rw [Table.get?_insert, if_neg (collection_ne htarget (hdatabase.trans hsame)),
      Table.get?_erase, if_neg (collection_ne hsource hdatabase),
      Table.get?_erase, if_neg (collection_ne htarget (hdatabase.trans hsame))]
  | createIndex created => rw [Table.get?_insert, if_neg (collection_ne hw hdatabase)]
  | dropIndex found => rw [Table.get?_insert, if_neg (collection_ne hw hdatabase)]

theorem collection?_applyAll (hws : ∀ w ∈ ws, w.Spares ns)
    (h : applyAll ws next s = (.ok s', next')) : s'.collection? ns = s.collection? ns := by
  induction ws generalizing s next with
  | nil =>
    obtain ⟨⟨rfl⟩, -⟩ := Prod.mk.inj h
    rfl
  | cons w ws ih =>
    obtain ⟨hw, hws⟩ := List.forall_mem_cons.1 hws
    obtain ⟨mid, last, happ, h⟩ := applyAll_cons_eq_ok h
    obtain ⟨db, hdb, rfl⟩ := apply_eq_ok happ
    rw [ih hws h, Databases.collection?_setDatabase]
    split_ifs with hdatabase
    · rw [(makes_of_onDatabase hdb).get?_of_spares hw hdatabase, Databases.collection?, hdatabase]
    · rfl

/-! ## Documents that are kept -/

/-- The write creates a collection or changes its indexes. -/
def OnSchema : Write → Prop
  | createCollection _ | createIndex .. | dropIndex .. => True
  | _ => False

/-- Such a write leaves the documents of every collection, one that is missing having none. -/
theorem Makes.document?_of_onSchema (h : w.Makes db next db' next') (hw : w.OnSchema)
    (name : String) (key : DocKey) : ((db'.get? name).getD .empty).document? key =
      ((db.get? name).getD .empty).document? key := by
  -- Where a collection is put in place, it has the documents of the former one.
  have hput : ∀ {n : String} {c : Collection}, c.docs = ((db.get? n).getD .empty).docs →
      c.ids = ((db.get? n).getD .empty).ids →
      (((db.insert n c).get? name).getD .empty).document? key =
        ((db.get? name).getD .empty).document? key := by
    intro n c hdocs hids
    rw [Table.get?_insert]
    split_ifs with hname
    · rw [hname, Option.getD_some, Collection.document?, hdocs, hids, Collection.document?]
    · rfl
  cases h with
  | dropIndexMissing missing => rfl
  | createCollection => exact hput rfl rfl
  | createIndex created =>
    unfold Collection.createIndex at created
    split_ifs at created
    obtain rfl := Except.ok.inj created
    exact hput rfl rfl
  | dropIndex found => exact hput (by rw [found]; rfl) (by rw [found]; rfl)
  | _ => exact hw.elim

theorem document?_applyAll (hws : ∀ w ∈ ws, w.OnSchema)
    (h : applyAll ws next s = (.ok s', next')) (ns : Namespace) (key : DocKey) :
    (s'.collection ns).document? key = (s.collection ns).document? key := by
  induction ws generalizing s next with
  | nil =>
    obtain ⟨⟨rfl⟩, -⟩ := Prod.mk.inj h
    rfl
  | cons w ws ih =>
    obtain ⟨hw, hws⟩ := List.forall_mem_cons.1 hws
    obtain ⟨mid, last, happ, h⟩ := applyAll_cons_eq_ok h
    obtain ⟨db, hdb, rfl⟩ := apply_eq_ok happ
    rw [ih hws h, Databases.collection, Databases.collection?_setDatabase]
    split_ifs with hdatabase
    · rw [(makes_of_onDatabase hdb).document?_of_onSchema hw, ← hdatabase, Databases.collection,
        Databases.collection?]
    · rfl

/-! ## Collections that go by and come to be -/

theorem collection?_dropCollection (h : (dropCollection ns).apply next s = (.ok s', next'))
    (other : Namespace) :
    s'.collection? other = if other = ns then none else s.collection? other := by
  obtain ⟨db, hdb, rfl⟩ := apply_eq_ok h
  obtain ⟨⟨rfl⟩, -⟩ := Prod.mk.inj hdb
  rw [Databases.collection?_setDatabase, Table.get?_erase]
  obtain ⟨d, n⟩ := ns
  obtain ⟨d', n'⟩ := other
  by_cases hd : d' = d <;> by_cases hn : n' = n <;> simp [hd, hn, database, Databases.collection?]

theorem collection?_dropDatabase {name : String}
    (h : (dropDatabase name).apply next s = (.ok s', next')) (other : Namespace) :
    s'.collection? other = if other.database = name then none else s.collection? other := by
  obtain ⟨db, hdb, rfl⟩ := apply_eq_ok h
  obtain ⟨⟨rfl⟩, -⟩ := Prod.mk.inj hdb
  rw [Databases.collection?_setDatabase, Table.get?_empty]
  rfl

/-- A renaming moves one collection of a database to another name. -/
theorem collection?_rename {dropTarget : Bool} (hsame : source.database = target.database)
    (h : (rename source target dropTarget).apply next s = (.ok s', next')) :
    source ≠ target ∧ ∀ other, s'.collection? other = if other = target then s.collection? source
      else if other = source then none else s.collection? other := by
  obtain ⟨db, hdb, rfl⟩ := apply_eq_ok h
  cases makes_of_onDatabase hdb with
  | rename free found =>
    rename_i c
    rw [Table.get?_erase] at found
    split_ifs at found with hname
    have hsource : s.collection? source = some c := found
    refine ⟨fun heq => hname (by rw [heq]), fun other => ?_⟩
    rw [Databases.collection?_setDatabase, Table.get?_insert, Table.get?_erase, Table.get?_erase,
      hsource]
    obtain ⟨d, n⟩ := source
    obtain ⟨d', n'⟩ := target
    obtain rfl : d = d' := hsame
    obtain ⟨d'', n''⟩ := other
    by_cases hd : d'' = d <;> by_cases hn : n'' = n' <;> by_cases hn' : n'' = n <;>
      simp [hd, hn, hn', database, Databases.collection?]

end Write

namespace Store

variable {s s' : Store} {ns ns' : Namespace}

/-- A transaction leaves the collections that its writes spare, whether it succeeds or not. -/
theorem collection?_commit {t : Transaction} (ht : ∀ w ∈ t, w.Spares ns) :
    (s.commit t).2.collection? ns = s.collection? ns := by
  rcases hc : s.commit t with ⟨e | ⟨⟩, s'⟩
  · rw [collection?, (commit_eq_error hc).1.databases, collection?]
  · exact Write.collection?_applyAll ht (commit_eq_ok hc).1

/-- One collection has one document with a key. -/
theorem document?_congr (h : s'.collection? ns' = s.collection? ns) (key : DocKey) :
    s'.document? ns' key = s.document? ns key := by
  rw [document?, collection_congr h, document?]

/-- A collection that is not there has no documents. -/
theorem document?_of_missing (h : s.collection? ns = none) (key : DocKey) :
    s.document? ns key = none := by
  have hnone : s.databases.collection? ns = none := h
  rw [document?, collection, Databases.collection, hnone]
  rfl

end Store

end Replica
