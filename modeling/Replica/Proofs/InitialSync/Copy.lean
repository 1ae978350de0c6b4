import Replica.Clone
import Replica.Proofs.Store.Indexes

/-!
# Copies of collections

A copy of a collection has its documents by key, and those of its indexes that are replicated
(`Collection.CopyOf`). All documents of a well-formed collection can be inserted into a new one
(`WellFormed.exists_insertAll_values`), and its indexes can be created then. So the writes that
clone a database of a reachable store can all be made where the database has no collections, and
they leave copies of the collections that are replicated and no others
(`Clone.exists_applyAll_plan`).
-/

namespace Replica

namespace Collection

variable {source c : Collection} {next : Did} {ns : Namespace}

/-- A collection is a copy of another one with the indexes that pass a test. -/
structure CopyOf (keep : IndexSpec → Bool) (source c : Collection) : Prop where
  /-- The documents by key are the same. -/
  documents : ∀ key, c.document? key = source.document? key
  /-- The indexes are those that pass. -/
  indexes : c.indexes = source.indexes.filterValues keep

/-! ## The documents -/

/-- No two documents of a well-formed collection have the same key. -/
theorem WellFormed.pairwise_values (h : source.WellFormed next) :
    source.docs.values.Pairwise fun a b => DocKey.ofDocument a ≠ DocKey.ofDocument b := by
  refine List.pairwise_map.2 (source.docs.nodup_toList.pairwise_of_forall_ne ?_)
  rintro ⟨did, doc⟩ hdoc ⟨did', doc'⟩ hdoc' hne heq
  rw [Table.mem_toList] at hdoc hdoc'
  obtain ⟨key, hkey, hid⟩ := h.found did doc hdoc
  obtain ⟨key', hkey', hid'⟩ := h.found did' doc' hdoc'
  obtain rfl := Except.ok.inj (hkey.symm.trans (heq.trans hkey'))
  obtain rfl := Option.some.inj (hid.symm.trans hid')
  exact hne (Prod.ext rfl (Option.some.inj (hdoc.symm.trans hdoc')))

/-- All documents of a well-formed collection can be inserted into a new one, which then has them by
the same keys. -/
theorem WellFormed.exists_insertAll_values (h : source.WellFormed next) (ns : Namespace)
    (first : Did) : ∃ c last, insertAll ns source.docs.values first .empty = (.ok c, last) ∧
      c.WellFormed last ∧ c.indexes = ∅ ∧ ∀ key, c.document? key = source.document? key := by
  have hkeyed : ∀ doc ∈ source.docs.values, ∃ key, DocKey.ofDocument doc = .ok key ∧
      empty.document? key = none ∧ source.document? key = some doc := by
    intro doc hdoc
    obtain ⟨did, hdid⟩ := Table.mem_values.1 hdoc
    obtain ⟨key, hkey, hfound⟩ := h.document?_of_docs hdid
    exact ⟨key, hkey, rfl, hfound⟩
  have hunique : UniqueIn empty.indexes.values source.document? := fun _ hindex => nomatch hindex
  obtain ⟨c, last, hinsert⟩ : ∃ c last,
      insertAll ns source.docs.values first .empty = (.ok c, last) :=
    (wellFormed_empty first).exists_insertAll (fun _ _ hnone => nomatch hnone) hkeyed
      h.pairwise_values hunique
  obtain ⟨hwf, hindexes, hnew, hold⟩ := (wellFormed_empty first).insertAll_eq_ok hinsert
  refine ⟨c, last, hinsert, hwf, hindexes, fun key => ?_⟩
  by_cases hkey : ∃ doc ∈ source.docs.values, DocKey.ofDocument doc = .ok key
  · obtain ⟨doc, hdoc, hkey⟩ := hkey
    obtain ⟨k, hk, -, hfound⟩ := hnew doc hdoc
    obtain ⟨k', hk', -, hfound'⟩ := hkeyed doc hdoc
    obtain rfl := Except.ok.inj (hkey.symm.trans hk)
    obtain rfl := Except.ok.inj (hkey.symm.trans hk')
    rw [hfound, hfound']
  · have hnone : source.document? key = none := by
      rw [← Option.not_isSome_iff_eq_none, Option.isSome_iff_exists]
      rintro ⟨doc, hdoc⟩
      obtain ⟨did, -, hdid⟩ := document?_eq_some.1 hdoc
      exact hkey ⟨doc, Table.mem_values.2 ⟨did, hdid⟩, h.ofDocument hdoc⟩
    rw [hold key fun doc hdoc heq => hkey ⟨doc, hdoc, heq⟩, hnone]
    rfl

/-! ## The indexes -/

/-- Indexes that were added are found where some map has them by their names. -/
theorem get?_withAll {indexes : List IndexSpec} {f : String → Option IndexSpec}
    (h : ∀ index ∈ indexes, f index.name = some index) (c : Collection) (name : String) :
    (c.withAll indexes).indexes.get? name =
      if name ∈ indexes.map IndexSpec.name then f name else c.indexes.get? name := by
  let bindings := indexes.map fun index => (index.name, index)
  have hput : (c.withAll indexes).indexes.toList =
      bindings.foldl (fun m b => Assoc.put b.1 b.2 m) c.indexes.toList := by
    rw [List.foldl_map]
    exact (List.foldl_hom Table.toList (fun _ _ => rfl)).symm
  have hbindings : ∀ b ∈ bindings, f b.1 = some b.2 := by
    intro b hb
    obtain ⟨index, hindex, rfl⟩ := List.mem_map.1 hb
    exact h index hindex
  rw [Table.get?, hput, Assoc.get?_foldl_put bindings _ _ f hbindings, List.map_map]
  rfl

/-- The indexes of a collection that pass a test, added to one without indexes. -/
theorem Named.indexes_withAll (h : source.Named) (hc : c.indexes = ∅) (keep : IndexSpec → Bool) :
    (c.withAll (source.indexes.values.filter keep)).indexes = source.indexes.filterValues keep := by
  have hfound : ∀ index ∈ source.indexes.values.filter keep,
      source.indexes.get? index.name = some index := by
    intro index hindex
    obtain ⟨name, hname⟩ := Table.mem_values.1 (List.mem_filter.1 hindex).1
    rw [h name index hname, hname]
  refine Table.ext_get? fun name => Option.ext fun index => ?_
  rw [get?_withAll hfound, hc, Table.get?_filterValues]
  split_ifs with hname
  · obtain ⟨other, hother, rfl⟩ := List.mem_map.1 hname
    rw [hfound other hother, Option.some_inj]
    refine ⟨?_, And.left⟩
    rintro rfl
    exact ⟨rfl, (List.mem_filter.1 hother).2⟩
  · refine iff_of_false (by simp) ?_
    rintro ⟨hindex, hkeep⟩
    exact hname (List.mem_map.2
      ⟨index, List.mem_filter.2 ⟨Table.mem_values.2 ⟨name, hindex⟩, hkeep⟩, h name index hindex⟩)

end Collection

/-! ## Cloning -/

namespace Clone

variable {filters : Filters} {data : Store} {database : String} {ns : Namespace}
  {source : Collection} {s : Databases} {l : List Namespace}

/-- Whether an index of a collection is copied. -/
def keeps (filters : Filters) (ns : Namespace) (index : IndexSpec) : Bool :=
  index.name ≠ IndexSpec.idIndex && filters.acceptsIndex ns index.name

/-- A collection is created where it is missing, and then it is filled if there are documents. -/
theorem applyAll_create_insert {c : Collection} {docs : List Json} {next last : Did}
    (hmissing : s.collection? ns = none)
    (hinsert : Collection.insertAll ns docs next .empty = (.ok c, last)) :
    Write.applyAll (Transaction.insert [.createCollection ns] ns docs) next s =
      (.ok (s.setCollection ns c), last) := by
  have hcreate : (Write.createCollection ns).apply next s =
      (.ok (s.setCollection ns .empty), next) := by
    have hget : (s.database ns.database).get? ns.collection = none := hmissing
    simp only [Write.apply, Write.database, Write.onDatabase, hget, Option.getD_none]
    rfl
  unfold Transaction.insert
  split_ifs with hdocs
  · rw [List.isEmpty_iff] at hdocs
    rw [hdocs] at hinsert
    obtain ⟨⟨rfl⟩, rfl⟩ := Prod.mk.inj hinsert
    rw [Write.applyAll, hcreate]
    rfl
  · have happly := Write.apply_insert (s.setCollection ns .empty) next ns docs
    rw [Databases.collection_setCollection, if_pos rfl, hinsert] at happly
    dsimp only at happly
    rw [Databases.setCollection_setCollection] at happly
    rw [List.singleton_append, Write.applyAll, hcreate]
    simp only [Write.applyAll, happly]

/-- A collection is copied with its indexes to where it is missing. -/
theorem exists_applyAll_writes (hdata : data.Reachable)
    (hsource : data.collection? ns = some source) (hmissing : s.collection? ns = none) (next : Did) :
    ∃ c last, Write.applyAll (writes filters true data ns) next s =
        (.ok (s.setCollection ns c), last) ∧
      Collection.CopyOf (keeps filters ns) source c := by
  have hcollection : data.collection ns = source :=
    congrArg (fun collection? => collection?.getD .empty) hsource
  have hscan : data.scan ns = source.docs.values := by
    rw [Store.scan, hsource]
    rfl
  have hindexes : indexes filters data ns = source.indexes.values.filter (keeps filters ns) := by
    rw [indexes, Store.indexes_eq, hcollection]
    rfl
  have hwf : source.WellFormed data.nextDid := hcollection ▸ hdata.wellFormed ns
  have hnamed : source.Named := hcollection ▸ hdata.named ns
  obtain ⟨c, last, hinsert, hc, hempty, hdocuments⟩ := hwf.exists_insertAll_values ns next
  -- The documents are those of the source, so they collide in no unique index of it.
  have hunique : ∀ index ∈ source.indexes.values.filter (keeps filters ns), index.unique = true →
      Collection.hasRepetition (c.docs.values.map index.tuple) = false := by
    intro index hindex hunique
    rw [hc.hasRepetition_eq_false]
    intro k k' doc doc' hk hk' ht
    rw [hdocuments] at hk hk'
    exact hwf.unique index (List.mem_filter.1 hindex).1 hunique k k' doc doc' hk hk' ht
  refine ⟨c.withAll (source.indexes.values.filter (keeps filters ns)), last, ?_, hdocuments,
    hnamed.indexes_withAll hempty _⟩
  rw [writes, hscan, hindexes, if_pos rfl,
    Write.applyAll_append (applyAll_create_insert hmissing hinsert)]
  exact Write.applyAll_createIndexes hunique last s

/-- Collections are copied one after another to where they are missing, and all others are left. -/
theorem exists_applyAll_flatMap (filters : Filters) (hdata : data.Reachable) (hl : l.Nodup)
    (hsource : ∀ ns ∈ l, data.hasCollection ns = true)
    (hmissing : ∀ ns ∈ l, s.collection? ns = none) (next : Did) :
    ∃ s' last, Write.applyAll (l.flatMap (writes filters true data)) next s = (.ok s', last) ∧
      (∀ ns ∈ l, Option.Rel (Collection.CopyOf (keeps filters ns)) (data.collection? ns)
        (s'.collection? ns)) ∧
      ∀ ns ∉ l, s'.collection? ns = s.collection? ns := by
  induction l generalizing s next with
  | nil => exact ⟨s, next, rfl, by simp, fun _ _ => rfl⟩
  | cons ns l ih =>
    obtain ⟨hns, hl⟩ := List.nodup_cons.1 hl
    obtain ⟨hfirst, hsource⟩ := List.forall_mem_cons.1 hsource
    obtain ⟨hmissing, hrest⟩ := List.forall_mem_cons.1 hmissing
    obtain ⟨source, hsome⟩ := Option.isSome_iff_exists.1 hfirst
    obtain ⟨c, mid, happly, hcopy⟩ := exists_applyAll_writes hdata hsome hmissing next
    have hother : ∀ other ≠ ns, (s.setCollection ns c).collection? other = s.collection? other :=
      fun other hne => by rw [Databases.collection?_setCollection, if_neg hne]
    have hne : ∀ other ∈ l, other ≠ ns := fun _ hmem heq => hns (heq ▸ hmem)
    obtain ⟨s', last, hlater, hcopies, hleft⟩ := ih hl hsource
      (fun other hmem => (hother other (hne other hmem)).trans (hrest other hmem)) mid
    refine ⟨s', last, ?_, List.forall_mem_cons.2 ⟨?_, hcopies⟩, fun other hmem => ?_⟩
    · rw [List.flatMap_cons, Write.applyAll_append happly, hlater]
    · rw [hleft ns hns, Databases.collection?_setCollection, if_pos rfl, hsome]
      exact .some hcopy
    · obtain ⟨hne, hmem⟩ := not_or.1 (List.mem_cons.not.1 hmem)
      rw [hleft other hmem, hother other hne]

/-- The collections of a database that are copied. -/
theorem mem_collections : ns ∈ collections filters data database ↔ ns.database = database ∧
    data.hasCollection ns = true ∧ filters.acceptsNamespace ns = true := by
  have hnames : ∀ name, name ∈ data.collectionNames database ↔
      data.hasCollection ⟨database, name⟩ = true := fun name => by
    rw [Store.collectionNames, Table.mem_keys, Store.hasCollection, Option.isSome_iff_exists]
    rfl
  simp only [collections, List.mem_filter, List.mem_map, hnames]
  constructor
  · rintro ⟨⟨name, hname, rfl⟩, haccepts⟩
    exact ⟨rfl, hname, haccepts⟩
  · rintro ⟨rfl, hname, haccepts⟩
    exact ⟨⟨ns.collection, hname, rfl⟩, haccepts⟩

theorem nodup_collections (filters : Filters) (data : Store) (database : String) :
    (collections filters data database).Nodup :=
  ((data.databases.database database).nodup_keys.map fun _ _ heq =>
    (Namespace.mk.inj heq).2).filter _

/-- What is copied of a namespace: a collection, if there is one and it is replicated. -/
def source? (filters : Filters) (data : Store) (ns : Namespace) : Option Collection :=
  if filters.acceptsNamespace ns then data.collection? ns else none

/-- A namespace holds a copy of what is replicated of it, and nothing else. -/
def Exact (filters : Filters) (data : Store) (s : Databases) (ns : Namespace) : Prop :=
  Option.Rel (Collection.CopyOf (keeps filters ns)) (source? filters data ns) (s.collection? ns)

/-- A database is copied to where it has no collections: afterwards it is exact, and all others are
left. -/
theorem exists_applyAll_plan (filters : Filters) (hdata : data.Reachable)
    (hmissing : ∀ ns : Namespace, ns.database = database → s.collection? ns = none) (next : Did) :
    ∃ s' last, Write.applyAll (plan filters true data database) next s = (.ok s', last) ∧
      ∀ ns, if ns.database = database then Exact filters data s' ns
        else s'.collection? ns = s.collection? ns := by
  obtain ⟨s', last, happly, hcopies, hleft⟩ := exists_applyAll_flatMap filters hdata
    (nodup_collections filters data database)
    (fun _ hns => (mem_collections.1 hns).2.1)
    (fun ns hns => hmissing ns (mem_collections.1 hns).1) next
  refine ⟨s', last, happly, fun ns => ?_⟩
  split_ifs with hdatabase
  · unfold Exact
    by_cases hns : ns ∈ collections filters data database
    · rw [source?, if_pos (mem_collections.1 hns).2.2]
      exact hcopies ns hns
    · have hnone : source? filters data ns = none := by
        rw [source?]
        split_ifs with haccepts
        · rw [← Option.not_isSome_iff_eq_none]
          exact fun hsome => hns (mem_collections.2 ⟨hdatabase, hsome, haccepts⟩)
        · rfl
      rw [hnone, hleft ns hns, hmissing ns hdatabase]
      exact .none
  · exact hleft ns fun hns => hdatabase (mem_collections.1 hns).1

/-! ## Dropping -/

/-- Databases are dropped one after another. -/
theorem applyAll_dropDatabases (names : List String) (next : Did) (s : Databases) :
    ∃ s', Write.applyAll (names.map .dropDatabase) next s = (.ok s', next) ∧
      ∀ name, s'.get? name = if name ∈ names then none else s.get? name := by
  induction names generalizing s with
  | nil => exact ⟨s, rfl, fun _ => rfl⟩
  | cons dropped names ih =>
    obtain ⟨s', happly, hget⟩ := ih (s.setDatabase dropped ∅)
    refine ⟨s', happly, fun name => ?_⟩
    rw [hget, Databases.get?_setDatabase]
    by_cases hname : name = dropped
    · simp [hname, Databases.kept?, show (∅ : Database).isEmpty = true from rfl]
    · simp [hname]

/-- The databases that are dropped. -/
theorem mem_dropped {s : Store} {name : String} :
    name ∈ (s.databaseNames.filter fun name => name ≠ reservedDatabase && name ≠ localDatabase) ↔
      (∃ db, s.databases.get? name = some db) ∧ name ≠ reservedDatabase ∧ name ≠ localDatabase := by
  rw [List.mem_filter, Store.databaseNames, Table.mem_keys, Bool.and_eq_true, decide_eq_true_eq,
    decide_eq_true_eq]

/-- The databases of users are dropped, and those that belong to the member alone are left. -/
theorem exists_applyAll_drop (s : Store) (next : Did) :
    ∃ s', Write.applyAll (dropUserDatabases s) next s.databases = (.ok s', next) ∧
      ∀ name, s'.get? name =
        if name = localDatabase ∨ name = reservedDatabase then s.databases.get? name else none := by
  obtain ⟨s', happly, hget⟩ := applyAll_dropDatabases
    (s.databaseNames.filter fun name => name ≠ reservedDatabase && name ≠ localDatabase) next
    s.databases
  refine ⟨s', happly, fun name => ?_⟩
  rw [hget]
  split_ifs with hdropped hown hown
  · rcases hown with rfl | rfl
    · exact absurd rfl (mem_dropped.1 hdropped).2.2
    · exact absurd rfl (mem_dropped.1 hdropped).2.1
  · rfl
  · rfl
  · -- what is not dropped is not there
    obtain ⟨hlocal, hreserved⟩ := not_or.1 hown
    rw [← Option.not_isSome_iff_eq_none, Option.isSome_iff_exists]
    exact fun hsome => hdropped (mem_dropped.2 ⟨hsome, hreserved, hlocal⟩)

end Clone

end Replica
