import Replica.Proofs.Execution.Schema
import Replica.Proofs.Namespace
import Replica.Proofs.Scenario.Comparison
import Replica.Scenario.Replay

/-!
# Seeded stores and normal forms

The initial state of a scenario is written into a store and dumped again from there, or it is
brought into its normal form by sorting alone. Both come to the same: a collection that is seeded
holds its documents in the order in which sorting leaves them (`Store.seed_eq_ok`), and collections
that are seeded one after another leave one another alone (`Scenario.seedAll_eq_ok`). So the dump of
a seeded store is the normal form of what it was seeded with (`Scenario.normal_forms`).
-/

namespace Replica

namespace Table

variable {κ : Type u} {α : Type v} [LT κ] [LE κ] [DecidableEq κ] [DecidableLT κ]
  [Std.IsLinearOrder κ] [Std.LawfulOrderLT κ]

/-- Lists of bindings to the values of one function give the same table if they have the same
bindings. -/
theorem ofList_congr {l m : List (κ × α)} (f : κ → Option α) (hl : ∀ b ∈ l, f b.1 = some b.2)
    (h : ∀ b, b ∈ l ↔ b ∈ m) : ofList l = ofList m := by
  have hm : ∀ b ∈ m, f b.1 = some b.2 := fun b hb => hl b ((h b).2 hb)
  have hkeys : ∀ k, k ∈ l.map Prod.fst ↔ k ∈ m.map Prod.fst := fun k => by
    simp only [List.mem_map, h]
  refine ext_get? fun k => ?_
  show Assoc.get? k (l.foldl _ []) = Assoc.get? k (m.foldl _ [])
  rw [Assoc.get?_foldl_put l [] k f hl, Assoc.get?_foldl_put m [] k f hm]
  by_cases hk : k ∈ l.map Prod.fst
  · rw [if_pos hk, if_pos ((hkeys k).1 hk)]
  · rw [if_neg hk, if_neg fun hk' => hk ((hkeys k).2 hk')]

end Table

/-! ## Seeding a collection -/

namespace Collection.WellFormed

variable {c c' : Collection} {next next' : Did} {ns : Namespace} {docs : List Json}

/-- No two documents that are inserted together have the same key. -/
theorem pairwise_of_insertAll (h : c.WellFormed next)
    (hok : insertAll ns docs next c = (.ok c', next')) :
    docs.Pairwise fun a b => DocKey.ofDocument a ≠ DocKey.ofDocument b := by
  induction docs generalizing c next with
  | nil => exact .nil
  | cons doc docs ih =>
    rw [insertAll] at hok
    cases hins : c.insert ns next doc with
    | error e =>
      rw [hins] at hok
      cases congrArg Prod.fst hok
    | ok mid =>
      rw [hins] at hok
      obtain ⟨key, hkey, -, -, rfl⟩ := h.insert_eq_ok.1 hins
      obtain ⟨-, -, hnew, -⟩ := (h.insert hins).insertAll_eq_ok hok
      refine List.pairwise_cons.2 ⟨fun other hother heq => ?_, ih (h.insert hins) hok⟩
      -- The key of the first document leads to it by the time the other one is inserted.
      obtain ⟨key', hkey', habsent, -⟩ := hnew other hother
      obtain rfl := Except.ok.inj (hkey.symm.trans (heq.trans hkey'))
      rw [h.document?_insert, if_pos rfl] at habsent
      cases habsent

/-- Documents that are inserted into a new collection are its contents once they are sorted. -/
theorem sorted_of_insertAll (hok : insertAll ns docs next .empty = (.ok c, next')) :
    CollectionState.sorted docs = .ok c.contents := by
  have hempty := wellFormed_empty next
  obtain ⟨hwf, -, hnew, hold⟩ := hempty.insertAll_eq_ok hok
  rw [contents_eq_values]
  refine CollectionState.sorted_eq_values (hempty.pairwise_of_insertAll hok) ?_ ?_
  · intro doc hdoc
    obtain ⟨key, hkey, -, hfound⟩ := hnew doc hdoc
    exact ⟨key, hkey, by rw [get?_byKey, hfound]⟩
  · intro key doc hfound
    rw [get?_byKey] at hfound
    refine ⟨hwf.ofDocument hfound, ?_⟩
    by_cases hinserted : ∃ other ∈ docs, DocKey.ofDocument other = .ok key
    · obtain ⟨other, hother, hkey⟩ := hinserted
      obtain ⟨key', hkey', -, hfound'⟩ := hnew other hother
      obtain rfl := Except.ok.inj (hkey.symm.trans hkey')
      obtain rfl := Option.some.inj (hfound.symm.trans hfound')
      exact hother
    · rw [hold key fun other hother hkey => hinserted ⟨other, hother, hkey⟩] at hfound
      cases hfound

end Collection.WellFormed

namespace Store

variable {s s' : Store} {ns other : Namespace} {docs : List Json}

/-- A collection holds exactly the documents with which it was seeded, and it is there if there are
any. -/
structure Seeded (s : Store) (ns : Namespace) (docs : List Json) : Prop where
  /-- Without documents there is no collection. -/
  missing : docs = [] → s.collection? ns = none
  /-- The documents are the contents once they are sorted. -/
  present : docs ≠ [] → s.hasCollection ns = true ∧
    CollectionState.sorted docs = .ok (s.contents ns)

/-- What a collection was seeded with is known from the collection. -/
theorem Seeded.congr (h : s.Seeded ns docs) (hsame : s'.collection? ns = s.collection? ns) :
    s'.Seeded ns docs := by
  constructor
  · intro hdocs
    rw [hsame]
    exact h.missing hdocs
  · intro hdocs
    rw [hasCollection, contents, hsame]
    exact h.present hdocs

/-- Some documents are inserted into the collection that is seeded, and no other one changes. -/
theorem exists_insertAll_of_seed (hdocs : docs ≠ []) (h : s.seed ns docs = (.ok (), s')) :
    ∃ c, Collection.insertAll ns docs s.nextDid (s.collection ns) = (.ok c, s'.nextDid) ∧
      ∀ other, s'.collection? other = if other = ns then some c else s.collection? other := by
  -- The transaction is this one insert, so its commit does what the insert does.
  have htransaction : Transaction.insert [] ns docs = [.insert ns docs] :=
    if_neg (by rwa [List.isEmpty_iff])
  rw [seed, htransaction] at h
  obtain ⟨mid, last, happly, hrest⟩ := Write.applyAll_cons_eq_ok (commit_eq_ok h).1
  obtain ⟨hmid, rfl⟩ := Prod.mk.inj hrest
  obtain rfl := Except.ok.inj hmid
  have hinsert := Write.apply_insert s.databases s.nextDid ns docs
  rcases hresult : Collection.insertAll ns docs s.nextDid (s.databases.collection ns) with
    ⟨e | c, next⟩
  · rw [hresult] at hinsert
    rw [show (Write.insert ns docs).apply _ _ = _ from hinsert] at happly
    cases congrArg Prod.fst happly
  · rw [hresult] at hinsert
    rw [show (Write.insert ns docs).apply _ _ = _ from hinsert] at happly
    obtain ⟨hdatabases, rfl⟩ := Prod.mk.inj happly
    refine ⟨c, hresult, fun other => ?_⟩
    rw [collection?, ← Except.ok.inj hdatabases, Databases.collection?_setCollection, collection?]

/-- A collection that was not there holds what it was seeded with, and no other one changes. -/
theorem seed_eq_ok (hnew : s.collection? ns = none) (h : s.seed ns docs = (.ok (), s')) :
    s'.Seeded ns docs ∧ ∀ other, other ≠ ns → s'.collection? other = s.collection? other := by
  by_cases hdocs : docs = []
  · rw [seed, Transaction.insert, if_pos (List.isEmpty_iff.2 hdocs)] at h
    obtain ⟨-, rfl⟩ := Prod.mk.inj h
    exact ⟨⟨fun _ => hnew, fun hne => absurd hdocs hne⟩, fun _ _ => rfl⟩
  · obtain ⟨c, hinsert, hcollections⟩ := exists_insertAll_of_seed hdocs h
    have hempty : s.collection ns = .empty := by
      have hnone : s.databases.collection? ns = none := hnew
      rw [collection, Databases.collection, hnone]
      rfl
    rw [hempty] at hinsert
    have hc : s'.collection? ns = some c := by rw [hcollections, if_pos rfl]
    refine ⟨⟨fun hnone => absurd hnone hdocs, fun _ => ?_⟩, fun other hother => ?_⟩
    · rw [hasCollection, contents, hc]
      exact ⟨rfl, Collection.WellFormed.sorted_of_insertAll hinsert⟩
    · rw [hcollections, if_neg hother]

end Store

/-! ## Seeding a state -/

/-- The collections of a state by their namespaces. -/
def DatabaseState.named (state : DatabaseState) : List (Namespace × List Json) :=
  state.toList.flatMap fun (database, collections) =>
    collections.toList.map fun (collection, docs) => (⟨database, collection⟩, docs)

namespace DatabaseState

variable {state : DatabaseState} {ns : Namespace} {docs : List Json}

theorem collections_eq (state : DatabaseState) :
    state.collections = state.named.map fun b => (b.1.text, b.2) := by
  rw [named, List.map_flatMap]
  simp only [List.map_map]
  rfl

/-- The database of a collection is one of the databases of the state. -/
theorem database_mem_of_mem_named (h : (ns, docs) ∈ state.named) : ns.database ∈ state.keys := by
  obtain ⟨⟨database, collections⟩, hmem, h⟩ := List.mem_flatMap.1 h
  obtain ⟨⟨collection, docs⟩, -, h⟩ := List.mem_map.1 h
  obtain ⟨rfl, -⟩ := Prod.mk.inj h
  exact List.mem_map.2 ⟨_, hmem, rfl⟩

/-- A state names no collection twice. -/
theorem nodup_named (state : DatabaseState) : (state.named.map Prod.fst).Nodup := by
  rw [named, List.map_flatMap, List.nodup_flatMap]
  constructor
  · rintro ⟨database, collections⟩ -
    rw [List.map_map]
    refine List.Nodup.of_map Namespace.collection ?_
    rw [List.map_map]
    exact collections.nodup_keys
  · refine (List.pairwise_map.1 state.nodup_keys).imp fun {a b} hne ns ha hb => ?_
    -- A namespace that both databases name names both of them.
    simp only [List.map_map, List.mem_map, Function.comp_apply] at ha hb
    obtain ⟨x, -, rfl⟩ := ha
    obtain ⟨y, -, hy⟩ := hb
    exact hne (congrArg Namespace.database hy).symm

/-- Where no database has a dot in its name, a namespace is found again in its text. -/
theorem ofText_text_of_mem (hdots : ∀ database ∈ state.keys, '.' ∉ database.toList)
    (h : (ns, docs) ∈ state.named) : Namespace.ofText ns.text = ns :=
  Namespace.ofText_text (hdots _ (database_mem_of_mem_named h))

end DatabaseState

namespace Scenario

open CollectionState (ofDatabases)

variable {s : Scenario} {collections : List (Namespace × List Json)} {store store' : Store}
  {state : DatabaseState}

/-- Reading the namespaces of the initial state finds the collections that it names. -/
theorem initialCollections_eq_ok (hdots : ∀ database ∈ s.initial.keys, '.' ∉ database.toList)
    (h : s.initialCollections = .ok collections) : collections = s.initial.named := by
  have hread : (∀ b ∈ s.initial.collections, (Namespace.parse? b.1).isSome = true) ∧
      collections = s.initial.collections.map fun b => (Namespace.ofText b.1, b.2) := by
    refine (mapM_eq_ok_iff ?_).1 h
    rintro ⟨text, docs⟩ - r
    unfold Namespace.parse?
    dsimp only
    split_ifs
    · exact iff_of_false (nomatch ·) fun h => nomatch h.1
    · exact ⟨fun h => ⟨rfl, (Except.ok.inj h).symm⟩, fun h => congrArg _ h.2.symm⟩
  rw [hread.2, DatabaseState.collections_eq, List.map_map]
  have hself : ∀ b ∈ s.initial.named, (Namespace.ofText b.1.text, b.2) = b := fun b hb => by
    rw [DatabaseState.ofText_text_of_mem hdots hb]
  exact (List.map_congr_left hself).trans (List.map_id _)

/-- Seeding new collections one after another leaves in each of them what it was seeded with, and
changes no other one. -/
theorem seedAll_eq_ok (h : seedAll collections store = .ok store')
    (hnodup : (collections.map Prod.fst).Nodup)
    (hnew : ∀ b ∈ collections, store.collection? b.1 = none) :
    (∀ b ∈ collections, store'.Seeded b.1 b.2) ∧
      ∀ ns, ns ∉ collections.map Prod.fst → store'.collection? ns = store.collection? ns := by
  induction collections generalizing store with
  | nil =>
    obtain rfl := Except.ok.inj h
    exact ⟨fun _ hb => (nomatch hb), fun _ _ => rfl⟩
  | cons b rest ih =>
    obtain ⟨ns, docs⟩ := b
    obtain ⟨hns, hrest⟩ := List.nodup_cons.1 hnodup
    obtain ⟨hmissing, hothers⟩ := List.forall_mem_cons.1 hnew
    rw [seedAll] at h
    rcases hseed : store.seed ns docs with ⟨e | ⟨⟩, mid⟩
    · rw [hseed] at h
      cases h
    · rw [hseed] at h
      obtain ⟨hseeded, hkept⟩ := Store.seed_eq_ok hmissing hseed
      -- None of the others is there yet, since the first one has another name.
      have hlater : ∀ b ∈ rest, mid.collection? b.1 = none := fun b hb => by
        have hne : b.1 ≠ ns := fun heq => hns (heq ▸ List.mem_map.2 ⟨b, hb, rfl⟩)
        rw [hkept b.1 hne]
        exact hothers b hb
      obtain ⟨hall, hsame⟩ := ih h hrest hlater
      refine ⟨List.forall_mem_cons.2 ⟨hseeded.congr (hsame ns hns), hall⟩, fun other hother => ?_⟩
      rw [List.map_cons, List.mem_cons, not_or] at hother
      obtain ⟨hne, hother⟩ := hother
      rw [hsame other hother, hkept other hne]

/-! ## Dumping -/

/-- The collections that are dumped are those that were seeded with documents. -/
theorem mem_dumped_iff (hreserved : ∀ database ∈ state.keys, database ≠ reservedDatabase)
    (hseeded : ∀ b ∈ state.named, store.Seeded b.1 b.2)
    (hnone : ∀ ns, ns ∉ state.named.map Prod.fst → store.collection? ns = none) (ns : Namespace) :
    ns ∈ store.namespaces.filter (fun ns => ns.database ≠ reservedDatabase) ↔
      ∃ docs, (ns, docs) ∈ state.named ∧ docs ≠ [] := by
  rw [List.mem_filter, Store.mem_namespaces, decide_eq_true_eq]
  constructor
  · rintro ⟨hthere, -⟩
    rw [Store.hasCollection] at hthere
    by_cases hnamed : ns ∈ state.named.map Prod.fst
    · obtain ⟨⟨_, docs⟩, hmem, rfl⟩ := List.mem_map.1 hnamed
      refine ⟨docs, hmem, fun hdocs => ?_⟩
      rw [(hseeded _ hmem).missing hdocs] at hthere
      cases hthere
    · rw [hnone ns hnamed] at hthere
      cases hthere
  · rintro ⟨docs, hmem, hdocs⟩
    exact ⟨((hseeded _ hmem).present hdocs).1,
      hreserved _ (DatabaseState.database_mem_of_mem_named hmem)⟩

/-- Bringing a state into its normal form finds the contents of a store that was seeded with it. -/
theorem mapM_sorted_eq_ok (hseeded : ∀ b ∈ state.named, store.Seeded b.1 b.2) :
    ((state.collections.filter fun b => !b.2.isEmpty).mapM fun (text, docs) => do
      return (text, ← CollectionState.sorted docs)) =
    .ok ((state.named.filter fun b => !b.2.isEmpty).map fun b =>
      (b.1.text, store.contents b.1)) := by
  rw [mapM_eq_ok, DatabaseState.collections_eq, List.filter_map, List.map_map, List.map_map]
  refine List.map_congr_left fun b hb => ?_
  obtain ⟨hmem, hfilled⟩ := List.mem_filter.1 hb
  have hdocs : b.2 ≠ [] := by
    rwa [Function.comp_apply, Bool.not_eq_true', List.isEmpty_eq_false_iff] at hfilled
  have hsorted := ((hseeded b hmem).present hdocs).2
  show (do return (b.1.text, ← CollectionState.sorted b.2)) = _
  rw [hsorted]
  rfl

/-- A store that holds a state and nothing else is dumped into the normal form of the state. -/
theorem ofDatabases_eq_dump (hdots : ∀ database ∈ state.keys, '.' ∉ database.toList)
    (hreserved : ∀ database ∈ state.keys, database ≠ reservedDatabase)
    (hseeded : ∀ b ∈ state.named, store.Seeded b.1 b.2)
    (hnone : ∀ ns, ns ∉ state.named.map Prod.fst → store.collection? ns = none) :
    ofDatabases state = .ok store.dump := by
  have hdumped := mem_dumped_iff hreserved hseeded hnone
  rw [ofDatabases, mapM_sorted_eq_ok hseeded]
  show Except.ok (Table.ofList _) = _
  rw [Store.dump]
  refine congrArg _ (Table.ofList_congr
    (fun text => some (store.contents (Namespace.ofText text))) ?_ ?_)
  · intro b hb
    obtain ⟨⟨ns, docs⟩, hmem, rfl⟩ := List.mem_map.1 hb
    rw [DatabaseState.ofText_text_of_mem hdots (List.mem_filter.1 hmem).1]
  · intro b
    rw [List.mem_map, List.mem_map]
    constructor
    · rintro ⟨⟨ns, docs⟩, hmem, rfl⟩
      obtain ⟨hmem, hfilled⟩ := List.mem_filter.1 hmem
      rw [Bool.not_eq_true', List.isEmpty_eq_false_iff] at hfilled
      exact ⟨ns, (hdumped ns).2 ⟨docs, hmem, hfilled⟩, rfl⟩
    · rintro ⟨ns, hmem, rfl⟩
      obtain ⟨docs, hmem, hdocs⟩ := (hdumped ns).1 hmem
      refine ⟨(ns, docs), List.mem_filter.2 ⟨hmem, ?_⟩, rfl⟩
      rw [Bool.not_eq_true', List.isEmpty_eq_false_iff]
      exact hdocs

/-- The normal form of a state agrees with a store. If the databases have no dots in their names and
none is that of replication, and a new store can be seeded with the collections that a scenario
reads from the state, then the state has a normal form, which is the dump of the store without its
empty collections, and there are no differences. And of any normal form and any dump there are no
differences exactly if both are equal without the empty collections, the signs of zeros left out:
zeros are compared as numbers. -/
theorem normal_forms :
    (∀ (s : Scenario) (collections : List (Namespace × List Json)) (store : Store),
      (∀ database ∈ s.initial.keys, '.' ∉ database.toList ∧ database ≠ reservedDatabase) →
      s.initialCollections = .ok collections → seedAll collections {} = .ok store →
      ∃ normal, ofDatabases s.initial = .ok normal ∧
        normal = CollectionState.filled store.dump ∧
        CollectionState.differences normal store.dump = []) ∧
    ∀ (state : DatabaseState) (expected : CollectionState), ofDatabases state = .ok expected →
      ∀ actual : CollectionState, expected.differences actual = [] ↔
        expected.filled.unsigned = actual.filled.unsigned := by
  constructor
  · intro s collections store hnames hread hseed
    have hdots : ∀ database ∈ s.initial.keys, '.' ∉ database.toList := fun database h =>
      (hnames database h).1
    -- What is seeded and what is normalized are both read from the databases of the state.
    have hcollections := initialCollections_eq_ok hdots hread
    rw [hcollections] at hseed
    obtain ⟨hseeded, hnone⟩ := seedAll_eq_ok hseed s.initial.nodup_named fun _ _ => rfl
    have hdump := ofDatabases_eq_dump hdots (fun database h => (hnames database h).2) hseeded hnone
    have hfilled := CollectionState.filled_of_ofDatabases hdump
    exact ⟨store.dump, hdump, hfilled.symm,
      (CollectionState.differences_eq_nil_iff hfilled).2 rfl⟩
  · intro state expected hexpected actual
    exact CollectionState.differences_eq_nil_iff (CollectionState.filled_of_ofDatabases hexpected)

/-- A scenario whose replica holds two documents, and a collection without any. -/
def twoItems : Scenario where
  name := "two items"
  initial := Table.ofList [("shop", Table.ofList [("archive", []),
    ("items", [.obj [("_id", .int 2)], .obj [("_id", .int 1)]])])]
  log := []
  expected := none
  expectedError := none

theorem normal_forms_twoItems : ∃ store normal,
    seedAll twoItems.initial.named {} = .ok store ∧ ofDatabases twoItems.initial = .ok normal ∧
    normal = CollectionState.filled store.dump ∧
    CollectionState.differences normal store.dump = [] := by
  have hread : twoItems.initialCollections = .ok twoItems.initial.named := by
    decide +kernel
  have hseeds : (seedAll twoItems.initial.named {}).isOk = true := by
    decide +kernel
  cases hseed : seedAll twoItems.initial.named {} with
  | error e =>
    rw [hseed] at hseeds
    cases hseeds
  | ok store =>
    obtain ⟨normal, hnormal, hdump, hdifferences⟩ :=
      normal_forms.1 twoItems _ store (by decide +kernel) hread hseed
    exact ⟨store, normal, rfl, hnormal, hdump, hdifferences⟩

end Scenario

end Replica
