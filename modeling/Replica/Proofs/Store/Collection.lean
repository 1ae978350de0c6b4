import Replica.Proofs.Store.Table
import Replica.Store.Write

/-!
# Well-formed collections

In a well-formed collection the keys and the documents correspond one to one, documents have numbers
below the next free one, and no two of them agree in the fields of a unique index. Deleting,
inserting and creating an index keep this, and each has one statement of what it does to the
documents by key (`document?_delete`, `insertAll_eq_ok`, `exists_insertAll`). What an observer is
shown depends on the documents by key only (`contents_congr`).
-/

namespace Replica.Collection

/-- No two documents of a map from keys agree in the fields of a unique index. -/
def UniqueIn (indexes : List IndexSpec) (docs : DocKey → Option Json) : Prop :=
  ∀ index ∈ indexes, index.unique = true → ∀ k k' doc doc', docs k = some doc →
    docs k' = some doc' → index.tuple doc = index.tuple doc' → k = k'

/-- Keys and documents correspond, and `next` is a number that no document has. -/
structure WellFormed (c : Collection) (next : Did) : Prop where
  /-- A key leads to a document that has it. -/
  keyed : ∀ key did, c.ids.get? key = some did →
    ∃ doc, c.docs.get? did = some doc ∧ DocKey.ofDocument doc = .ok key
  /-- Every document is found by its key. -/
  found : ∀ did doc, c.docs.get? did = some doc →
    ∃ key, DocKey.ofDocument doc = .ok key ∧ c.ids.get? key = some did
  /-- Numbers from `next` on are free. -/
  fresh : ∀ did doc, c.docs.get? did = some doc → did < next
  /-- Unique indexes are respected. -/
  unique : UniqueIn c.indexes.values c.document?

variable {c c' : Collection} {next : Did}

/-- A document by key is one by number. -/
theorem document?_eq_some {key : DocKey} {doc : Json} : c.document? key = some doc ↔
    ∃ did, c.ids.get? key = some did ∧ c.docs.get? did = some doc :=
  Option.bind_eq_some_iff

@[simp] theorem document?_empty (key : DocKey) : empty.document? key = none := rfl

/-! ## What an observer is shown -/

/-- The documents by key, as a table. -/
def byKey (c : Collection) : Table DocKey Json where
  toList := c.ids.toList.filterMap fun b => (c.docs.get? b.2).map fun doc => (b.1, doc)
  ascending := by
    refine List.Pairwise.filterMap _ (fun a b hab x hx y hy => ?_) c.ids.ascending
    obtain ⟨_, -, rfl⟩ := Option.map_eq_some_iff.1 hx
    obtain ⟨_, -, rfl⟩ := Option.map_eq_some_iff.1 hy
    exact hab

theorem get?_byKey (c : Collection) (key : DocKey) : c.byKey.get? key = c.document? key := by
  ext doc
  rw [← Table.mem_toList, document?_eq_some]
  simp only [byKey, List.mem_filterMap, Option.map_eq_some_iff, Prod.exists, Prod.mk.injEq,
    Table.mem_toList]
  constructor
  · rintro ⟨k, did, hk, d, hd, rfl, rfl⟩
    exact ⟨did, hk, hd⟩
  · rintro ⟨did, hk, hd⟩
    exact ⟨key, did, hk, doc, hd, rfl, rfl⟩

/-- The contents of a collection are its documents in the order of their keys. -/
theorem contents_eq_values (c : Collection) : c.contents = c.byKey.values := by
  simp only [contents, Table.values, byKey, List.filterMap_map, List.map_filterMap,
    Option.map_map]
  congr 1
  funext b
  simp [Function.comp_def]

/-- Collections with the same documents by key have the same contents. -/
theorem contents_congr (h : ∀ key, c.document? key = c'.document? key) :
    c.contents = c'.contents := by
  have : c.byKey = c'.byKey := Table.ext_get? fun key => by rw [get?_byKey, get?_byKey, h]
  rw [contents_eq_values, contents_eq_values, this]

/-! ## Well-formed collections -/

theorem wellFormed_empty (next : Did) : empty.WellFormed next where
  keyed := fun _ _ h => by simp [empty] at h
  found := fun _ _ h => by simp [empty] at h
  fresh := fun _ _ h => by simp [empty] at h
  unique := fun _ h => by simp [empty, Table.values, EmptyCollection.emptyCollection,
    Table.empty] at h

namespace WellFormed

/-- A number that no document has stays one when more numbers were given out. -/
theorem mono (h : c.WellFormed next) {later : Did} (hle : next ≤ later) : c.WellFormed later :=
  { h with fresh := fun did doc hd => lt_of_lt_of_le (h.fresh did doc hd) hle }

/-- A document that is found by a key has that key. -/
theorem ofDocument (h : c.WellFormed next) {key : DocKey} {doc : Json}
    (hk : c.document? key = some doc) : DocKey.ofDocument doc = .ok key := by
  obtain ⟨did, hid, hdoc⟩ := document?_eq_some.1 hk
  obtain ⟨doc', hdoc', hkey⟩ := h.keyed key did hid
  rw [hdoc, Option.some_inj] at hdoc'
  rwa [hdoc']

/-- A key is known exactly when it leads to a document. -/
theorem document?_isSome (h : c.WellFormed next) (key : DocKey) :
    (c.document? key).isSome = (c.ids.get? key).isSome := by
  cases hid : c.ids.get? key with
  | none => simp [document?, hid]
  | some did =>
    obtain ⟨doc, hdoc, -⟩ := h.keyed key did hid
    simp [document?, hid, hdoc]

/-- A key is unknown exactly when it leads to no document. -/
theorem document?_eq_none (h : c.WellFormed next) {key : DocKey} :
    c.document? key = none ↔ c.ids.get? key = none := by
  have := h.document?_isSome key
  cases hid : c.ids.get? key <;> cases hd : c.document? key <;> simp_all

/-- Every document by number is one by key. -/
theorem document?_of_docs (h : c.WellFormed next) {did : Did} {doc : Json}
    (hd : c.docs.get? did = some doc) :
    ∃ key, DocKey.ofDocument doc = .ok key ∧ c.document? key = some doc := by
  obtain ⟨key, hkey, hid⟩ := h.found did doc hd
  exact ⟨key, hkey, document?_eq_some.2 ⟨did, hid, hd⟩⟩

/-- Two keys lead to different documents. -/
theorem ids_inj (h : c.WellFormed next) {k k' : DocKey} {did : Did}
    (hk : c.ids.get? k = some did) (hk' : c.ids.get? k' = some did) : k = k' := by
  obtain ⟨doc, hdoc, hkey⟩ := h.keyed k did hk
  obtain ⟨doc', hdoc', hkey'⟩ := h.keyed k' did hk'
  rw [hdoc, Option.some_inj] at hdoc'
  rw [← hdoc', hkey, Except.ok.injEq] at hkey'
  exact hkey'

end WellFormed

/-! ## Deleting -/

@[simp] theorem delete_indexes (c : Collection) (did : Did) :
    (c.delete did).indexes = c.indexes := by
  rw [delete]
  split <;> rfl

/-- Deleting a number removes the document with it, by number and by key. -/
theorem WellFormed.get?_delete (h : c.WellFormed next) (did : Did) :
    (∀ d, (c.delete did).docs.get? d = if d = did then none else c.docs.get? d) ∧
    ∀ key, (c.delete did).ids.get? key =
      if c.ids.get? key = some did then none else c.ids.get? key := by
  cases hdoc : c.docs.get? did with
  | none =>
    have hc : c.delete did = c := by simp [delete, hdoc]
    rw [hc]
    refine ⟨fun d => ?_, fun key => ?_⟩
    · split_ifs with hd
      · rw [hd, hdoc]
      · rfl
    · split_ifs with hk
      · obtain ⟨doc, hd, -⟩ := h.keyed key did hk
        rw [hdoc] at hd
        cases hd
      · rfl
  | some doc =>
    obtain ⟨key, hkey, hid⟩ := h.found did doc hdoc
    have hc : c.delete did = { c with docs := c.docs.erase did, ids := c.ids.erase key } := by
      simp [delete, hdoc, hkey]
    rw [hc]
    refine ⟨fun d => Table.get?_erase _ _ _, fun k => ?_⟩
    rw [Table.get?_erase]
    by_cases hk : k = key
    · rw [if_pos hk, if_pos (hk ▸ hid)]
    · rw [if_neg hk, if_neg fun h' => hk (h.ids_inj h' hid)]

/-- Deleting a number hides the document with it and no other one. -/
theorem WellFormed.document?_delete (h : c.WellFormed next) (did : Did) (key : DocKey) :
    (c.delete did).document? key =
      if c.ids.get? key = some did then none else c.document? key := by
  obtain ⟨hdocs, hids⟩ := h.get?_delete did
  rw [document?, hids]
  split_ifs with hk
  · rfl
  · rw [document?]
    cases hid : c.ids.get? key with
    | none => rfl
    | some d =>
      have : d ≠ did := fun hd => hk (by rw [hid, hd])
      simp [hdocs, this]

/-- Deleting keeps a collection well-formed. -/
theorem WellFormed.delete (h : c.WellFormed next) (did : Did) :
    (c.delete did).WellFormed next := by
  obtain ⟨hdocs, hids⟩ := h.get?_delete did
  refine ⟨fun key d hd => ?_, fun d doc hd => ?_, fun d doc hd => ?_, ?_⟩
  · rw [hids] at hd
    split_ifs at hd with hk
    obtain ⟨doc, hdoc, hkey⟩ := h.keyed key d hd
    have : d ≠ did := fun h' => hk (by rw [hd, h'])
    exact ⟨doc, by rw [hdocs, if_neg this, hdoc], hkey⟩
  · rw [hdocs] at hd
    split_ifs at hd with hne
    obtain ⟨key, hkey, hid⟩ := h.found d doc hd
    refine ⟨key, hkey, ?_⟩
    rw [hids, if_neg (by rw [hid, Option.some_inj]; exact hne), hid]
  · rw [hdocs] at hd
    split_ifs at hd
    exact h.fresh d doc hd
  · intro index hi hu k k' doc doc' hk hk' ht
    rw [delete_indexes] at hi
    rw [h.document?_delete] at hk hk'
    split_ifs at hk hk'
    exact h.unique index hi hu k k' doc doc' hk hk' ht

/-- Deleting numbers one after another hides the documents with them. -/
theorem WellFormed.foldl_delete (h : c.WellFormed next) (dids : List Did) :
    (dids.foldl Collection.delete c).WellFormed next ∧
    (dids.foldl Collection.delete c).indexes = c.indexes ∧
    ∀ key, (dids.foldl Collection.delete c).document? key =
      if ∃ did ∈ dids, c.ids.get? key = some did then none else c.document? key := by
  induction dids generalizing c with
  | nil => exact ⟨h, rfl, fun key => by simp⟩
  | cons did dids ih =>
    obtain ⟨hwf, hindexes, hdocs⟩ := ih (h.delete did)
    refine ⟨hwf, by rw [List.foldl_cons, hindexes, delete_indexes], fun key => ?_⟩
    rw [List.foldl_cons, hdocs, h.document?_delete, (h.get?_delete did).2]
    by_cases hk : c.ids.get? key = some did
    · simp [hk]
    · simp [hk]

/-! ## Inserting -/

/-- Nothing collides with a document exactly when no document agrees with it in a unique index. -/
theorem WellFormed.collision?_eq_none (h : c.WellFormed next) {doc : Json} :
    c.collision? doc = none ↔ ∀ index ∈ c.indexes.values, index.unique = true →
      ∀ key other, c.document? key = some other → index.tuple other ≠ index.tuple doc := by
  simp only [collision?, List.find?_eq_none, Bool.and_eq_true, List.any_eq_true, beq_iff_eq,
    not_and, not_exists]
  constructor
  · intro hnone index hi hu key other hk
    obtain ⟨did, -, hdoc⟩ := document?_eq_some.1 hk
    exact hnone index hi hu other (Table.mem_values.2 ⟨did, hdoc⟩)
  · intro hall index hi hu other hother
    obtain ⟨did, hdoc⟩ := Table.mem_values.1 hother
    obtain ⟨key, -, hk⟩ := h.document?_of_docs hdoc
    exact hall index hi hu key other hk

/-- A document is inserted exactly when it has a key that leads nowhere yet and nothing collides
with it. -/
theorem WellFormed.insert_eq_ok (h : c.WellFormed next) {ns : Namespace} {doc : Json} :
    c.insert ns next doc = .ok c' ↔ ∃ key, DocKey.ofDocument doc = .ok key ∧
      c.document? key = none ∧ c.collision? doc = none ∧
      c' = { c with docs := c.docs.insert next doc, ids := c.ids.insert key next } := by
  rw [insert]
  cases hkey : DocKey.ofDocument doc with
  | error e => simp
  | ok key =>
    have hknown : c.ids.contains key = true ↔ c.document? key ≠ none := by
      rw [Table.contains_eq, ← h.document?_isSome, Option.isSome_iff_ne_none]
    by_cases hk : c.document? key = none
    · cases hcol : c.collision? doc with
      | none => simp [hknown, hk, eq_comm]
      | some index => simp [hknown, hk]
    · simp [hknown, hk]

variable {ns : Namespace} {doc : Json} {docs : List Json} {next' : Did}

/-- A document that was inserted is found by its key, and the others as before. -/
theorem WellFormed.document?_insert (h : c.WellFormed next) (key : DocKey) (k : DocKey) :
    ({ c with docs := c.docs.insert next doc, ids := c.ids.insert key next } :
      Collection).document? k = if k = key then some doc else c.document? k := by
  simp only [document?, Table.get?_insert]
  split_ifs with hk
  · simp
  · cases hid : c.ids.get? k with
    | none => rfl
    | some did =>
      obtain ⟨other, hdoc, -⟩ := h.keyed k did hid
      have : did ≠ next := (h.fresh did other hdoc).ne
      simp [this]

/-- Inserting keeps a collection well-formed. -/
theorem WellFormed.insert (h : c.WellFormed next) (hok : c.insert ns next doc = .ok c') :
    c'.WellFormed (next + 1) := by
  obtain ⟨key, hkey, habsent, hcol, rfl⟩ := h.insert_eq_ok.1 hok
  have hfree : ∀ did other, c.docs.get? did = some other → did ≠ next :=
    fun did other hd => (h.fresh did other hd).ne
  refine ⟨fun k did hk => ?_, fun did other hd => ?_, fun did other hd => ?_, ?_⟩
  · rw [Table.get?_insert] at hk
    split_ifs at hk with hkk
    · obtain rfl := Option.some_inj.1 hk
      exact ⟨doc, by simp, by rw [hkk, hkey]⟩
    · obtain ⟨other, hdoc, hother⟩ := h.keyed k did hk
      exact ⟨other, by rw [Table.get?_insert, if_neg (hfree did other hdoc), hdoc], hother⟩
  · rw [Table.get?_insert] at hd
    split_ifs at hd with hdid
    · obtain rfl := Option.some_inj.1 hd
      exact ⟨key, hkey, by rw [hdid]; simp⟩
    · obtain ⟨k, hother, hid⟩ := h.found did other hd
      have hkk : k ≠ key := by
        rintro rfl
        rw [h.document?_eq_none.1 habsent] at hid
        cases hid
      exact ⟨k, hother, by rw [Table.get?_insert, if_neg hkk, hid]⟩
  · rw [Table.get?_insert] at hd
    split_ifs at hd with hdid
    · exact hdid ▸ Nat.lt_succ_self next
    · exact Nat.lt_succ_of_lt (h.fresh did other hd)
  · -- Two documents that agree are both former ones, or both the new one.
    intro index hi hu k k' d d' hk hk' ht
    rw [h.document?_insert] at hk hk'
    have hnew := h.collision?_eq_none.1 hcol index hi hu
    split_ifs at hk hk' with h1 h2 h2
    · rw [h1, h2]
    · obtain rfl := Option.some_inj.1 hk
      exact absurd ht.symm (hnew k' d' hk')
    · obtain rfl := Option.some_inj.1 hk'
      exact absurd ht (hnew k d hk)
    · exact h.unique index hi hu k k' d d' hk hk' ht

/-- Inserting never gives a number back. -/
theorem le_insertAll (ns : Namespace) (docs : List Json) (next : Did) (c : Collection) :
    next ≤ (insertAll ns docs next c).2 := by
  induction docs generalizing next c with
  | nil => exact le_rfl
  | cons doc docs ih =>
    rw [insertAll]
    split
    · exact le_rfl
    · exact (Nat.le_succ next).trans (ih _ _)

/-- Documents that were inserted are found by their keys, which led nowhere before, and all others
as before. -/
theorem WellFormed.insertAll_eq_ok (h : c.WellFormed next)
    (hok : insertAll ns docs next c = (.ok c', next')) :
    c'.WellFormed next' ∧ c'.indexes = c.indexes ∧
    (∀ doc ∈ docs, ∃ key, DocKey.ofDocument doc = .ok key ∧ c.document? key = none ∧
      c'.document? key = some doc) ∧
    ∀ key, (∀ doc ∈ docs, DocKey.ofDocument doc ≠ .ok key) →
      c'.document? key = c.document? key := by
  induction docs generalizing c next with
  | nil =>
    simp only [insertAll, Prod.mk.injEq, Except.ok.injEq] at hok
    obtain ⟨rfl, rfl⟩ := hok
    exact ⟨h, rfl, by simp, fun _ _ => rfl⟩
  | cons doc docs ih =>
    rw [insertAll] at hok
    cases hins : c.insert ns next doc with
    | error e =>
      rw [hins] at hok
      cases congrArg Prod.fst hok
    | ok mid =>
      rw [hins] at hok
      obtain ⟨hwf, hindexes, hnew, hold⟩ := ih (h.insert hins) hok
      obtain ⟨key, hkey, habsent, -, rfl⟩ := h.insert_eq_ok.1 hins
      simp only [h.document?_insert] at hnew hold
      refine ⟨hwf, hindexes, ?_, fun k hk => ?_⟩
      · intro d hd
        rcases List.mem_cons.1 hd with rfl | hd
        -- No later document has the key, since its key led nowhere behind this insertion.
        · refine ⟨key, hkey, habsent, ?_⟩
          rw [hold key, if_pos rfl]
          intro other hother heq
          obtain ⟨k, hk, hnone, -⟩ := hnew other hother
          rw [heq, Except.ok.injEq] at hk
          rw [if_pos hk.symm] at hnone
          cases hnone
        · obtain ⟨k, hk, hnone, hsome⟩ := hnew d hd
          split_ifs at hnone
          exact ⟨k, hk, hnone, hsome⟩
      · have hne : k ≠ key := fun heq => hk doc List.mem_cons_self (heq ▸ hkey)
        rw [hold k fun d hd => hk d (List.mem_cons_of_mem _ hd), if_neg hne]

/-- Documents are inserted if they and those that are there fit together: they are what some map
holds at their keys, no two of them have the same key, and the map respects the unique indexes. -/
theorem WellFormed.exists_insertAll (h : c.WellFormed next) {v : DocKey → Option Json}
    (hc : ∀ key doc, c.document? key = some doc → v key = some doc)
    (hdocs : ∀ doc ∈ docs, ∃ key, DocKey.ofDocument doc = .ok key ∧ c.document? key = none ∧
      v key = some doc)
    (hnodup : docs.Pairwise fun a b => DocKey.ofDocument a ≠ DocKey.ofDocument b)
    (hu : UniqueIn c.indexes.values v) :
    ∃ c' next', insertAll ns docs next c = (.ok c', next') := by
  induction docs generalizing c next with
  | nil => exact ⟨c, next, rfl⟩
  | cons doc docs ih =>
    obtain ⟨hne, hnodup⟩ := List.pairwise_cons.1 hnodup
    obtain ⟨key, hkey, habsent, hv⟩ := hdocs doc List.mem_cons_self
    have hcol : c.collision? doc = none := by
      rw [h.collision?_eq_none]
      intro index hi hunique k other hk ht
      have := hu index hi hunique k key other doc (hc k other hk) hv ht
      rw [this, habsent] at hk
      cases hk
    have hins : c.insert ns next doc = .ok _ :=
      h.insert_eq_ok.2 ⟨key, hkey, habsent, hcol, rfl⟩
    obtain ⟨c', next', hok⟩ := ih (h.insert hins)
      (fun k other hk => by
        rw [h.document?_insert] at hk
        split_ifs at hk with hkk
        · rw [hkk, hv, hk]
        · exact hc k other hk)
      (fun other hother => by
        obtain ⟨k, hk, hnone, hvk⟩ := hdocs other (List.mem_cons_of_mem _ hother)
        have hkk : k ≠ key := by
          rintro rfl
          exact hne other hother (hkey.trans hk.symm)
        exact ⟨k, hk, by rw [h.document?_insert, if_neg hkk, hnone], hvk⟩)
      hnodup hu
    exact ⟨c', next', by rw [insertAll, hins]; exact hok⟩

/-! ## Indexes -/

/-- Nothing is repeated in a list without duplicates. -/
theorem hasRepetition_eq_false {l : List (List String)} :
    hasRepetition l = false ↔ l.Nodup := by
  induction l with
  | nil => simp [hasRepetition]
  | cons t ts ih => simp [hasRepetition, ih]

/-- Replacing the indexes keeps a collection well-formed if the unique ones are respected. -/
theorem WellFormed.withIndexes (h : c.WellFormed next) {indexes : Table String IndexSpec}
    (hu : UniqueIn indexes.values c.document?) :
    ({ c with indexes := indexes } : Collection).WellFormed next :=
  ⟨h.keyed, h.found, h.fresh, hu⟩

/-- The texts of documents are repeated exactly when two documents agree in the fields. -/
theorem WellFormed.hasRepetition_eq_false (h : c.WellFormed next) (index : IndexSpec) :
    hasRepetition (c.docs.values.map index.tuple) = false ↔ ∀ k k' doc doc',
      c.document? k = some doc → c.document? k' = some doc' →
      index.tuple doc = index.tuple doc' → k = k' := by
  rw [Collection.hasRepetition_eq_false, Table.values, List.map_map]
  constructor
  · -- The texts are those of the documents by number, so equal texts are of one number.
    intro hnodup k k' doc doc' hk hk' ht
    obtain ⟨did, hid, hdoc⟩ := document?_eq_some.1 hk
    obtain ⟨did', hid', hdoc'⟩ := document?_eq_some.1 hk'
    have hinj := List.inj_on_of_nodup_map hnodup (Table.mem_toList.2 hdoc)
      (Table.mem_toList.2 hdoc') ht
    obtain ⟨rfl, rfl⟩ := Prod.mk.inj hinj
    exact h.ids_inj hid hid'
  · intro hinj
    refine List.Nodup.map_on ?_ c.docs.nodup_toList
    rintro ⟨did, doc⟩ hdoc ⟨did', doc'⟩ hdoc' ht
    rw [Table.mem_toList] at hdoc hdoc'
    obtain ⟨key, hkey, hid⟩ := h.found did doc hdoc
    obtain ⟨key', hkey', hid'⟩ := h.found did' doc' hdoc'
    obtain rfl := hinj key key' doc doc' (document?_eq_some.2 ⟨did, hid, hdoc⟩)
      (document?_eq_some.2 ⟨did', hid', hdoc'⟩) ht
    obtain rfl := Option.some.inj (hid.symm.trans hid')
    rw [Option.some.inj (hdoc.symm.trans hdoc')]

/-- Creating an index keeps a collection well-formed and its documents. -/
theorem WellFormed.createIndex (h : c.WellFormed next) {index : IndexSpec}
    (hok : c.createIndex ns index = .ok c') :
    c'.WellFormed next ∧ c'.document? = c.document? := by
  rw [Collection.createIndex] at hok
  split_ifs at hok with hrep
  obtain rfl := Except.ok.inj hok
  refine ⟨h.withIndexes fun i hi hu k k' doc doc' hk hk' ht => ?_, rfl⟩
  obtain ⟨name, hname⟩ := Table.mem_values.1 hi
  rw [Table.get?_insert] at hname
  split_ifs at hname with hn
  · obtain rfl := Option.some_inj.1 hname
    rw [hu, Bool.true_and, Bool.not_eq_true] at hrep
    exact (h.hasRepetition_eq_false index).1 hrep k k' doc doc' hk hk' ht
  · exact h.unique i (Table.mem_values.2 ⟨name, hname⟩) hu k k' doc doc' hk hk' ht

/-- Dropping an index keeps a collection well-formed. -/
theorem WellFormed.dropIndex (h : c.WellFormed next) (name : String) :
    ({ c with indexes := c.indexes.erase name } : Collection).WellFormed next := by
  refine h.withIndexes fun i hi => ?_
  obtain ⟨n, hn⟩ := Table.mem_values.1 hi
  rw [Table.get?_erase] at hn
  split_ifs at hn
  exact h.unique i (Table.mem_values.2 ⟨n, hn⟩)

end Replica.Collection
