import Replica.Proofs.Consistency
import Replica.Proofs.Store.Schema

/-!
# Two stores of one history

Two stores are compared that went through the same history, one of them with a commit that was or
will be refused once. They match if the databases of users are alike in them, and all else but the
values of the checkpoint and the flag is (`Store.Matches`). What can be written to the first one can
then be written to the second one (`Databases.Paired.exists_applyAll`), and the number of the commit
to be refused says whether the next commit is the one (`Refusals.Owes`). So a commit to the first
store is mirrored by the second one, or refused there (`Store.Twin.commit`, `Store.Twin.refused`).
-/

namespace Replica

variable {next next' last last' : Did} {ns : Namespace}

/-! ## Collections -/

namespace Collection.Alike

variable {c c' d : Collection} {doc : Json} {docs : List Json}

theorem later (h : Alike next next' c c') (hle : next ≤ last) (hle' : next' ≤ last') :
    Alike last last' c c' :=
  { h with left := h.left.mono hle, right := h.right.mono hle' }

/-- The same document can be inserted. -/
theorem exists_insert (h : Alike next next' c c') (hok : c.insert ns next doc = .ok d) :
    ∃ d', c'.insert ns next' doc = .ok d' ∧ Alike (next + 1) (next' + 1) d d' := by
  have hleft := h.left.insert hok
  obtain ⟨key, hkey, habsent, hcollision, rfl⟩ := h.left.insert_eq_ok.1 hok
  have hcollision' : c'.collision? doc = none := by
    rw [h.left.collision?_eq_none, h.indexes] at hcollision
    simp only [h.documents] at hcollision
    exact h.right.collision?_eq_none.2 hcollision
  have hok' : c'.insert ns next' doc = .ok _ := h.right.insert_eq_ok.2
    ⟨key, hkey, (h.documents key).symm.trans habsent, hcollision', rfl⟩
  refine ⟨_, hok', hleft, h.right.insert hok', fun k => ?_, h.indexes⟩
  rw [h.left.document?_insert, h.right.document?_insert, h.documents]

/-- The same documents can be inserted. -/
theorem exists_insertAll (h : Alike next next' c c')
    (hok : insertAll ns docs next c = (.ok d, last)) :
    ∃ d' last', insertAll ns docs next' c' = (.ok d', last') ∧ Alike last last' d d' := by
  induction docs generalizing c c' next next' with
  | nil =>
    obtain ⟨⟨rfl⟩, rfl⟩ := Prod.mk.inj hok
    exact ⟨c', next', rfl, h⟩
  | cons doc docs ih =>
    rw [insertAll] at hok
    split at hok
    · cases congrArg Prod.fst hok
    · rename_i hfirst
      obtain ⟨mid', hfirst', hmid⟩ := h.exists_insert hfirst
      obtain ⟨d', last', hrest, hlast⟩ := ih hmid hok
      exact ⟨d', last', by rw [insertAll, hfirst']; exact hrest, hlast⟩

end Collection.Alike

/-! ## Databases -/

/-- A table is empty where nothing is found in it. -/
theorem Table.isEmpty_iff {κ : Type u} {α : Type v} [LT κ] [DecidableEq κ] {t : Table κ α} :
    t.isEmpty = true ↔ ∀ k, t.get? k = none := by
  refine ⟨Table.get?_of_isEmpty, fun h => ?_⟩
  rw [Table.isEmpty, List.isEmpty_iff]
  rcases hlist : t.toList with _ | ⟨b, l⟩
  · rfl
  · have hfirst := h b.1
    rw [Table.get?, hlist, Assoc.get?, if_pos rfl] at hfirst
    cases hfirst

namespace Database.Alike

variable {db db' db₁ : Database} {dids dids' : List Did} {docs : List Json}

theorem later (h : Alike next next' db db') (hle : next ≤ last) (hle' : next' ≤ last') :
    Alike last last' db db' := fun name => by
  have hname := h name
  generalize db.get? name = x at hname ⊢
  generalize db'.get? name = y at hname ⊢
  cases hname with
  | none => exact .none
  | some hcc => exact .some (hcc.later hle hle')

theorem isEmpty (h : Alike next next' db db') : db'.isEmpty = db.isEmpty := by
  rw [Bool.eq_iff_iff, Table.isEmpty_iff, Table.isEmpty_iff]
  refine forall_congr' fun name => ?_
  have hname := h name
  generalize db.get? name = x at hname ⊢
  generalize db'.get? name = y at hname ⊢
  cases hname <;> simp

/-- Documents can be removed that leave alike what they are removed from. -/
theorem exists_delete (h : Alike next next' db db')
    (hleft : Collection.Alike next next'
      (dids.foldl Collection.delete ((db.get? ns.collection).getD .empty))
      (dids'.foldl Collection.delete ((db'.get? ns.collection).getD .empty)))
    (hok : (Write.delete ns dids).onDatabase next db = (.ok db₁, last)) :
    last = next ∧ ∃ db₁', (Write.delete ns dids').onDatabase next' db' = (.ok db₁', next') ∧
      Alike next next' db₁ db₁' := by
  cases Write.makes_of_onDatabase hok with
  | deleteMissing missing =>
    exact ⟨rfl, db', by simp only [Write.onDatabase, h.get?_eq_none missing], h⟩
  | delete found =>
    obtain ⟨c', hc', -⟩ := h.exists_of_get? found
    rw [found, hc', Option.getD_some, Option.getD_some] at hleft
    exact ⟨rfl, _, by simp only [Write.onDatabase, hc'], h.insert hleft _⟩

/-- Documents can be inserted alike. -/
theorem exists_insert (h : Alike next next' db db')
    (hok : (Write.insert ns docs).onDatabase next db = (.ok db₁, last)) :
    ∃ db₁' last', (Write.insert ns docs).onDatabase next' db' = (.ok db₁', last') ∧
      Alike last last' db₁ db₁' := by
  have hle := (Write.insert ns docs).le_onDatabase next db
  have hle' := (Write.insert ns docs).le_onDatabase next' db'
  cases Write.makes_of_onDatabase hok with
  | insert inserted =>
    obtain ⟨c', last', hinsert, halike⟩ := (h.getD ns.collection).exists_insertAll inserted
    have hok' : (Write.insert ns docs).onDatabase next' db' =
        (.ok (db'.insert ns.collection c'), last') := by
      simp only [Write.onDatabase, hinsert]
    rw [hok] at hle
    rw [hok'] at hle'
    exact ⟨_, last', hok', (h.later hle hle').insert halike _⟩

end Database.Alike

/-- The database belongs to the member alone. -/
def IsOwn (name : String) : Prop := name = localDatabase ∨ name = reservedDatabase

/-- The write removes documents by number. -/
def Write.IsDelete : Write → Prop
  | delete .. => True
  | _ => False

namespace Databases

variable {s s' s₁ : Databases} {w w' : Write} {ws : List Write} {name : String}
  {dids dids' : List Did} {docs : List Json}

/-- The same databases of users are there, and they are alike. -/
def Paired (next next' : Did) (s s' : Databases) : Prop :=
  ∀ name, ¬ IsOwn name → Option.Rel (Database.Alike next next') (s.get? name) (s'.get? name)

namespace Paired

theorem later (h : Paired next next' s s') (hle : next ≤ last) (hle' : next' ≤ last') :
    Paired last last' s s' := fun name hname => by
  have hpair := h name hname
  generalize s.get? name = x at hpair ⊢
  generalize s'.get? name = y at hpair ⊢
  cases hpair with
  | none => exact .none
  | some hdb => exact .some (hdb.later hle hle')

theorem database (h : Paired next next' s s') (hname : ¬ IsOwn name) :
    Database.Alike next next' (s.database name) (s'.database name) := by
  have hpair := h name hname
  unfold Databases.database
  generalize s.get? name = x at hpair ⊢
  generalize s'.get? name = y at hpair ⊢
  cases hpair with
  | none => exact .empty next next'
  | some hdb => exact hdb

theorem collection (h : Paired next next' s s') (hns : ¬ IsOwn ns.database) :
    Collection.Alike next next' (s.collection ns) (s'.collection ns) :=
  (h.database hns).getD ns.collection

theorem setDatabase (h : Paired next next' s s') {db db' : Database}
    (hdb : Database.Alike next next' db db') (name : String) :
    Paired next next' (s.setDatabase name db) (s'.setDatabase name db') := by
  intro other hother
  rw [get?_setDatabase, get?_setDatabase]
  split_ifs
  · rw [kept?, kept?, hdb.isEmpty]
    split_ifs
    · exact .none
    · exact .some hdb
  · exact h other hother

/-- A write can be made that is made alike in its database. -/
theorem exists_apply (h : Paired next next' s s') (hdatabase : w'.database = w.database)
    (hmade : ∀ db, w.onDatabase next (s.database w.database) = (.ok db, last) →
      ∃ db' last', w'.onDatabase next' (s'.database w.database) = (.ok db', last') ∧
        Database.Alike last last' db db')
    (hok : w.apply next s = (.ok s₁, last)) :
    ∃ s₁' last', w'.apply next' s' = (.ok s₁', last') ∧ Paired last last' s₁ s₁' := by
  have hle := w.le_apply next s
  have hle' := w'.le_apply next' s'
  obtain ⟨db, hdb, rfl⟩ := Write.apply_eq_ok hok
  obtain ⟨db', last', hdb', halike⟩ := hmade db hdb
  have hok' : w'.apply next' s' = (.ok (s'.setDatabase w.database db'), last') := by
    rw [Write.apply, hdatabase, hdb']
  rw [hok] at hle
  rw [hok'] at hle'
  exact ⟨_, last', hok', (h.later hle hle').setDatabase halike _⟩

/-- The same writes can be made, if they do not remove documents by number. -/
theorem exists_applyAll (h : Paired next next' s s')
    (hws : ∀ w ∈ ws, ¬ IsOwn w.database ∧ ¬ w.IsDelete)
    (hok : Write.applyAll ws next s = (.ok s₁, last)) :
    ∃ s₁' last', Write.applyAll ws next' s' = (.ok s₁', last') ∧ Paired last last' s₁ s₁' := by
  induction ws generalizing s s' next next' with
  | nil =>
    obtain ⟨⟨rfl⟩, rfl⟩ := Prod.mk.inj hok
    exact ⟨s', next', rfl, h⟩
  | cons w ws ih =>
    obtain ⟨⟨hown, hdelete⟩, hws⟩ := List.forall_mem_cons.1 hws
    obtain ⟨mid, between, happly, hrest⟩ := Write.applyAll_cons_eq_ok hok
    have hmade : ∀ db, w.onDatabase next (s.database w.database) = (.ok db, between) →
        ∃ db' last', w.onDatabase next' (s'.database w.database) = (.ok db', last') ∧
          Database.Alike between last' db db' := by
      intro db hdb
      have halike := h.database hown
      by_cases hw : w.OnCollections
      · obtain ⟨rfl, db', hdb', hlast⟩ := halike.exists_onDatabase hw hdb
        exact ⟨db', next', hdb', hlast⟩
      · cases w with
        | delete => exact absurd trivial hdelete
        | insert => exact halike.exists_insert hdb
        | _ => exact absurd trivial hw
    obtain ⟨mid', between', happly', hmid⟩ := h.exists_apply rfl hmade happly
    obtain ⟨s₁', last', hrest', hlast⟩ := ih hmid hws hrest
    exact ⟨s₁', last', by rw [Write.applyAll, happly']; exact hrest', hlast⟩

/-- The same documents can be put in the place of documents that leave alike what they are removed
from. -/
theorem exists_applyAll_replace (h : Paired next next' s s') (hns : ¬ IsOwn ns.database)
    (hleft : Collection.Alike next next' (dids.foldl Collection.delete (s.collection ns))
      (dids'.foldl Collection.delete (s'.collection ns)))
    (hempty : dids = [] ↔ dids' = [])
    (hok : Write.applyAll ((Transaction.delete [] ns dids).insert ns docs) next s =
      (.ok s₁, last)) :
    ∃ s₁' last', Write.applyAll ((Transaction.delete [] ns dids').insert ns docs) next' s' =
      (.ok s₁', last') ∧ Paired last last' s₁ s₁' := by
  have hinsert : ∀ w ∈ Transaction.insert [] ns docs, ¬ IsOwn w.database ∧ ¬ w.IsDelete := by
    intro w hw
    unfold Transaction.insert at hw
    split_ifs at hw
    · cases hw
    · obtain rfl := List.mem_singleton.1 hw
      exact ⟨hns, id⟩
  by_cases hdids : dids = []
  · rw [hempty.1 hdids]
    rw [hdids] at hok
    exact h.exists_applyAll hinsert hok
  · -- The removal comes first, and then what is inserted.
    have hsplit : ∀ {dids : List Did}, dids ≠ [] → (Transaction.delete [] ns dids).insert ns docs =
        .delete ns dids :: Transaction.insert [] ns docs := by
      intro dids hdids
      rw [Transaction.delete, if_neg (by rwa [List.isEmpty_iff])]
      unfold Transaction.insert
      split_ifs <;> rfl
    rw [hsplit hdids] at hok
    rw [hsplit fun h' => hdids (hempty.2 h')]
    obtain ⟨mid, between, happly, hrest⟩ := Write.applyAll_cons_eq_ok hok
    have hdatabase : (Write.delete ns dids').database = (Write.delete ns dids).database := rfl
    obtain ⟨mid', between', happly', hmid⟩ := h.exists_apply hdatabase (fun db hdb => by
        obtain ⟨rfl, db', hdb', halike⟩ := (h.database hns).exists_delete hleft hdb
        exact ⟨db', next', hdb', halike⟩) happly
    obtain ⟨s₁', last', hrest', hlast⟩ := hmid.exists_applyAll hinsert hrest
    exact ⟨s₁', last', by rw [Write.applyAll, happly']; exact hrest', hlast⟩

/-- Where the databases of users are what they were, they are paired as before. -/
theorem of_get? {s₁' : Databases} (h : Paired next next' s s') (hle : next ≤ last)
    (hle' : next' ≤ last') (hleft : ∀ name, ¬ IsOwn name → s₁.get? name = s.get? name)
    (hright : ∀ name, ¬ IsOwn name → s₁'.get? name = s'.get? name) :
    Paired last last' s₁ s₁' := by
  intro name hname
  rw [hleft name hname, hright name hname]
  exact h.later hle hle' name hname

end Paired

end Databases

/-! ## Rows -/

namespace StateRow

variable {row other : StateRow} {content : Json.Members} {s s' s'' : Store} {databases : Databases}

/-- Two stores hold the same in the collection of a row, beside the document of the row. -/
structure Beside (row : StateRow) (s s' : Store) : Prop where
  /-- The other documents are the same. -/
  documents : ∀ key ≠ row.key, s.document? row.ns key = s'.document? row.ns key
  /-- The indexes are the same. -/
  indexes : (s.collection row.ns).indexes = (s'.collection row.ns).indexes

theorem Beside.refl (row : StateRow) (s : Store) : row.Beside s s := ⟨fun _ _ => rfl, rfl⟩

theorem Beside.symm (h : row.Beside s s') : row.Beside s' s :=
  ⟨fun key hkey => (h.documents key hkey).symm, h.indexes.symm⟩

theorem Beside.trans (h : row.Beside s s') (h' : row.Beside s' s'') : row.Beside s s'' :=
  ⟨fun key hkey => (h.documents key hkey).trans (h'.documents key hkey),
    h.indexes.trans h'.indexes⟩

/-- Where the collection of a row is left, all beside the row is. -/
theorem beside_of_collection (h : s'.collection row.ns = s.collection row.ns) :
    row.Beside s s' :=
  ⟨fun key _ => by rw [Store.document?, Store.document?, h], by rw [h]⟩

/-- The collection of a row without the document of the row. -/
def rest (row : StateRow) (s : Store) : Collection :=
  (s.findDids row.ns [row.key]).values.foldl Collection.delete (s.collection row.ns)

/-- The writes that put a document in the place of that of a row. -/
def writes (row : StateRow) (content : Json.Members) (s : Store) : Transaction :=
  (Transaction.delete [] row.ns (s.findDids row.ns [row.key]).values).insert row.ns
    [row.document content]

theorem writes_ne_nil (row : StateRow) (content : Json.Members) (s : Store) :
    row.writes content s ≠ [] := by
  unfold writes Transaction.insert
  simp

/-- All documents but that of the row are left. -/
theorem document?_rest (hs : s.WellFormed) (row : StateRow) (key : DocKey) :
    (row.rest s).document? key = if key = row.key then none else s.document? row.ns key := by
  have hwf := hs row.ns
  have hdids : ∀ did, did ∈ (s.findDids row.ns [row.key]).values ↔
      (s.collection row.ns).ids.get? row.key = some did := by
    intro did
    rw [Table.mem_values]
    simp only [Store.get?_findDids, List.mem_singleton]
    constructor
    · rintro ⟨k, hk⟩
      split_ifs at hk with hkey
      rwa [← hkey]
    · intro h
      exact ⟨row.key, by rw [if_pos rfl, h]⟩
  rw [rest, (hwf.foldl_delete _).2.2]
  simp only [hdids]
  by_cases hkey : key = row.key
  · rw [if_pos hkey, hkey]
    split_ifs with hfound
    · rfl
    · rw [hwf.document?_eq_none, ← Option.not_isSome_iff_eq_none, Option.isSome_iff_exists]
      rintro ⟨did, hdid⟩
      exact hfound ⟨did, hdid, hdid⟩
  · rw [if_neg hkey, if_neg]
    · rfl
    · rintro ⟨did, hdid, hdid'⟩
      exact hkey (hwf.ids_inj hdid' hdid)

/-- What is left is alike where all beside the row is the same. -/
theorem Beside.rest (h : row.Beside s s') (hs : s.WellFormed) (hs' : s'.WellFormed) :
    Collection.Alike s.nextDid s'.nextDid (row.rest s) (row.rest s') where
  left := ((hs row.ns).foldl_delete _).1
  right := ((hs' row.ns).foldl_delete _).1
  documents key := by
    rw [document?_rest hs, document?_rest hs']
    split_ifs with hkey
    · rfl
    · exact h.documents key hkey
  indexes := by
    rw [StateRow.rest, StateRow.rest, ((hs row.ns).foldl_delete _).2.1,
      ((hs' row.ns).foldl_delete _).2.1, h.indexes]

/-- What the writes of a row make of its collection. -/
theorem writes_eq_ok (happly : Write.applyAll (row.writes content s) s.nextDid s.databases =
    (.ok databases, next)) : ∃ c, Collection.insertAll row.ns [row.document content] s.nextDid
      (row.rest s) = (.ok c, next) ∧ databases.collection row.ns = c := by
  have hwrites := Write.applyAll_delete_insert s.databases s.nextDid row.ns
    (s.findDids row.ns [row.key]).values [row.document content]
  rw [← Store.collection, ← rest] at hwrites
  rcases hinsert : Collection.insertAll row.ns [row.document content] s.nextDid (row.rest s)
    with ⟨e | c, last⟩
  · rw [hinsert] at hwrites
    change Write.applyAll (row.writes content s) s.nextDid s.databases = _ at hwrites
    rw [happly] at hwrites
    cases congrArg Prod.fst hwrites
  · rw [hinsert] at hwrites
    obtain ⟨databases', happly', hcollection⟩ := hwrites
    change Write.applyAll (row.writes content s) s.nextDid s.databases = _ at happly'
    rw [happly] at happly'
    obtain ⟨⟨rfl⟩, rfl⟩ := Prod.mk.inj happly'
    exact ⟨c, rfl, by rw [hcollection, if_pos rfl]⟩

/-- A row can be saved where another store has the same beside it and it could be saved there. -/
theorem Beside.exists_applyAll (h : row.Beside s s') (hs : s.WellFormed) (hs' : s'.WellFormed)
    (happly : Write.applyAll (row.writes content s) s.nextDid s.databases =
      (.ok databases, next)) :
    ∃ databases' next', Write.applyAll (row.writes content s') s'.nextDid s'.databases =
      (.ok databases', next') := by
  obtain ⟨c, hinsert, -⟩ := writes_eq_ok happly
  obtain ⟨c', next', hinsert', -⟩ := (h.rest hs hs').exists_insertAll hinsert
  have hwrites := Write.applyAll_delete_insert s'.databases s'.nextDid row.ns
    (s'.findDids row.ns [row.key]).values [row.document content]
  rw [← Store.collection, ← StateRow.rest, hinsert'] at hwrites
  obtain ⟨databases', happly', -⟩ := hwrites
  exact ⟨databases', next', happly'⟩

/-- Saving a row leaves what is beside it, whether it succeeds or not. -/
theorem beside_save (hcontent : (idField :: content.map Prod.fst).Nodup) (hs : s.WellFormed) :
    row.Beside s (row.save content s).2 := by
  rcases hsave : row.save content s with ⟨e | ⟨⟩, s'⟩
  · have hsame := sameData_of_save hsave
    exact beside_of_collection (hsame.collection row.ns)
  · obtain ⟨c, hinsert, hcollection⟩ := writes_eq_ok (Store.commit_eq_ok hsave).1
    obtain ⟨hleft, hindexes, -⟩ :=
      (hs row.ns).foldl_delete (s.findDids row.ns [row.key]).values
    obtain ⟨-, hindexes', -, hold⟩ := hleft.insertAll_eq_ok hinsert
    change s'.collection row.ns = c at hcollection
    refine ⟨fun key hkey => ?_, by rw [hcollection, hindexes', hindexes]⟩
    have hother : ∀ doc ∈ [row.document content], DocKey.ofDocument doc ≠ .ok key := by
      intro doc hdoc heq
      obtain rfl := List.mem_singleton.1 hdoc
      rw [ofDocument_document hcontent] at heq
      exact hkey (Except.ok.inj heq).symm
    have hrest := document?_rest hs row key
    rw [if_neg hkey] at hrest
    rw [Store.document?, Store.document?, hcollection, hold key hother]
    exact hrest.symm

end StateRow

/-- The values of the state of replication that an initial sync sets. -/
def stateRows : List StateRow := [Checkpoint.row, Consistency.row]

/-- Saving one of these values leaves what is beside each of them. -/
theorem StateRow.beside_save_of_mem {row other : StateRow} {content : Json.Members} {s : Store}
    (hrow : row ∈ stateRows) (hother : other ∈ stateRows)
    (hcontent : (idField :: content.map Prod.fst).Nodup) (hs : s.WellFormed) :
    other.Beside s (row.save content s).2 := by
  by_cases heq : other = row
  · rw [heq]
    exact beside_save hcontent hs
  · have hns : other.ns ≠ row.ns := by
      simp only [stateRows, List.mem_cons, List.not_mem_nil, or_false] at hrow hother
      rcases hrow with rfl | rfl <;> rcases hother with rfl | rfl <;>
        first | exact absurd rfl heq | decide
    exact beside_of_collection (Store.collection_congr (collection?_save hns))

/-! ## Matching stores -/

namespace Store

variable {copied copied' : Prop} {s s' s₁ s₁' : Store} {t t' : Transaction} {row : StateRow}
  {content : Json.Members}

/-- The databases of a well-formed store are alike to themselves. -/
theorem paired_self (h : s.WellFormed) : s.databases.Paired s.nextDid s.nextDid s.databases := by
  intro name _
  cases hdb : s.databases.get? name with
  | none => exact .none
  | some db =>
    refine .some fun collection => ?_
    cases hc : db.get? collection with
    | none => exact .none
    | some c =>
      have hcollection : s.collection ⟨name, collection⟩ = c := by
        rw [Store.collection, Databases.collection, Databases.collection?, Databases.database, hdb]
        simp [hc]
      have hwf := hcollection ▸ h ⟨name, collection⟩
      exact .some ⟨hwf, hwf, fun _ => rfl, rfl⟩

/-- Two stores hold the same, but for the values of the checkpoint and the flag, and for the
databases of users as long as these were not copied. -/
structure Matches (copied : Prop) (s s' : Store) : Prop where
  /-- The first one is well-formed. -/
  left : s.WellFormed
  /-- The second one is well-formed. -/
  right : s'.WellFormed
  /-- They hold the same beside the values. -/
  rows : ∀ row ∈ stateRows, row.Beside s s'
  /-- The databases of users are paired once they were copied. -/
  users : copied → s.databases.Paired s.nextDid s'.nextDid s'.databases

/-- A commit never gives a document number back. -/
theorem nextDid_commit (h : s.commit t = (.ok (), s₁)) : s.nextDid ≤ s₁.nextDid := by
  have hle := Write.le_applyAll t s.nextDid s.databases
  rwa [(commit_eq_ok h).1] at hle

/-- A commit of some writes that succeeds is counted. -/
theorem commits_commit (ht : t ≠ []) (h : s.commit t = (.ok (), s₁)) :
    s₁.commits = s.commits + 1 := by
  rw [commit_eq, if_neg (by rwa [List.isEmpty_iff])] at h
  split_ifs at h
  · cases congrArg Prod.fst h
  · split at h
    · cases congrArg Prod.fst h
    · split at h
      · cases congrArg Prod.fst h
      · obtain ⟨-, rfl⟩ := Prod.mk.inj h
        rfl

/-- The count of commits never goes down. -/
theorem le_commits_commit (h : s.commit t = (.ok (), s₁)) : s.commits ≤ s₁.commits := by
  by_cases ht : t = []
  · subst ht
    obtain ⟨-, rfl⟩ := Prod.mk.inj h
    exact le_rfl
  · exact commits_commit ht h ▸ Nat.le_succ _

/-- A commit to databases of users leaves the rows and what is beside them. -/
theorem kept_commit (hs : s.WellFormed) (ht : ∀ w ∈ t, ¬ IsOwn w.database)
    (hok : s.commit t = (.ok (), s₁)) : s₁.WellFormed ∧ ∀ row ∈ stateRows, row.Beside s s₁ := by
  have hget : (s.commit t).2.databases.get? reservedDatabase =
      s.databases.get? reservedDatabase := get?_commit fun w hw heq => ht w hw (.inr heq)
  have hwf := hs.commit t
  rw [hok] at hget hwf
  exact ⟨hwf, fun row _ =>
    StateRow.beside_of_collection (collection_congr (collection?_of_get? hget))⟩

/-- Stores that were committed to in databases of users match if these are paired. -/
theorem Matches.commit (h : s.Matches copied s') (ht : ∀ w ∈ t, ¬ IsOwn w.database)
    (ht' : ∀ w ∈ t', ¬ IsOwn w.database) (hok : s.commit t = (.ok (), s₁))
    (hok' : s'.commit t' = (.ok (), s₁'))
    (husers : copied' → s₁.databases.Paired s₁.nextDid s₁'.nextDid s₁'.databases) :
    s₁.Matches copied' s₁' := by
  obtain ⟨hleft, hrows⟩ := kept_commit h.left ht hok
  obtain ⟨hright, hrows'⟩ := kept_commit h.right ht' hok'
  exact ⟨hleft, hright, fun row hrow =>
    ((hrows row hrow).symm.trans (h.rows row hrow)).trans (hrows' row hrow), husers⟩

/-- Saving a row leaves what is beside the rows, and the databases of users. -/
theorem kept_save (hs : s.WellFormed) (hrow : row ∈ stateRows)
    (hcontent : (idField :: content.map Prod.fst).Nodup) (hok : row.save content s = (.ok (), s₁)) :
    s₁.WellFormed ∧ (∀ other ∈ stateRows, other.Beside s s₁) ∧
      ∀ name, ¬ IsOwn name → s₁.databases.get? name = s.databases.get? name := by
  have hwf : (row.save content s).2.WellFormed := StateRow.wellFormed_save hs
  have hget : ∀ name, ¬ IsOwn name → (row.save content s).2.databases.get? name =
      s.databases.get? name := fun name hname => StateRow.get?_save fun heq => hname (.inr heq)
  have hrows : ∀ other ∈ stateRows, other.Beside s (row.save content s).2 :=
    fun other hother => StateRow.beside_save_of_mem hrow hother hcontent hs
  rw [hok] at hwf hget hrows
  exact ⟨hwf, hrows, hget⟩

/-- Stores match where a row was saved in both of them. -/
theorem Matches.save (h : s.Matches copied s') (hrow : row ∈ stateRows)
    (hcontent : (idField :: content.map Prod.fst).Nodup)
    (hok : row.save content s = (.ok (), s₁)) (hok' : row.save content s' = (.ok (), s₁')) :
    s₁.Matches copied s₁' := by
  obtain ⟨hleft, hrows, hget⟩ := kept_save h.left hrow hcontent hok
  obtain ⟨hright, hrows', hget'⟩ := kept_save h.right hrow hcontent hok'
  exact ⟨hleft, hright,
    fun other hother => ((hrows other hother).symm.trans (h.rows other hother)).trans
      (hrows' other hother),
    fun hcopied => (h.users hcopied).of_get? (nextDid_commit hok) (nextDid_commit hok') hget hget'⟩

end Store

/-! ## The commit to be refused -/

/-- What is to be refused in a store, next to one that has made some commits: the commit with a
number, if one is given and is still to come. -/
def Refusals.Owes (k : Option Nat) (commits : Nat) (r : Refusals) : Prop :=
  match k with
  | some k => if commits ≤ k then r = ⟨k - commits, 1⟩ else r.refused = 0
  | none => r.refused = 0

namespace Refusals.Owes

variable {k : Option Nat} {n : Nat} {r : Refusals}

theorem of_refused (hr : r.refused = 0) (hk : ∀ m, k = some m → m < n) : r.Owes k n := by
  cases k with
  | none => exact hr
  | some m =>
    rw [Owes, if_neg (Nat.not_le.2 (hk m rfl))]
    exact hr

/-- The commit with the number is refused. -/
theorem refused (h : r.Owes (some n) n) : r = ⟨0, 1⟩ := by
  rw [Owes, if_pos le_rfl, Nat.sub_self] at h
  exact h

/-- A commit with another number is not refused. -/
theorem step (h : r.Owes k n) (hk : k ≠ some n) : r.next.1 = false ∧ r.next.2.Owes k (n + 1) := by
  have hnone : r.refused = 0 → (∀ m, k = some m → m < n + 1) →
      r.next.1 = false ∧ r.next.2.Owes k (n + 1) := fun hr hpast =>
    have ⟨hfalse, hlater⟩ := next_of_refused hr
    ⟨hfalse, of_refused hlater hpast⟩
  cases k with
  | none => exact hnone h fun _ heq => nomatch heq
  | some m =>
    rw [Owes] at h
    split_ifs at h with hle
    · have hlt : n < m := lt_of_le_of_ne hle fun heq => hk (congrArg some heq.symm)
      obtain ⟨d, hd⟩ : ∃ d, m - n = d + 1 := ⟨m - n - 1, by omega⟩
      rw [hd] at h
      subst h
      refine ⟨rfl, ?_⟩
      have hlater : m - (n + 1) = d := by omega
      rw [Owes, if_pos (Nat.succ_le_of_lt hlt), hlater]
      rfl
    · exact hnone h fun j heq => by
        obtain rfl := Option.some.inj heq
        omega

end Refusals.Owes

namespace Store

variable {copied copied' : Prop} {k : Option Nat} {made : Nat} {s s' s₁ s₁' : Store}
  {t t' : Transaction} {databases : Databases} {row : StateRow} {content : Json.Members}

/-- Two stores match, no commit fails in the first one, which has made so many at least, and in the
second one none but the one with a number, which is refused once. -/
structure Twin (k : Option Nat) (made : Nat) (copied : Prop) (s s' : Store) : Prop
    extends s.Matches copied s' where
  /-- No commit fails in the first one. -/
  healthy : s.Healthy
  /-- All collections of the second one can be written to. -/
  failing : s'.failing = []
  /-- What is to be refused in the second one. -/
  owes : s'.refusals.Owes k s.commits
  /-- So many commits were made in the first one. -/
  counted : made ≤ s.commits

namespace Twin

/-- The refused commit leaves the second store as it was, and nothing else to be refused. -/
theorem refused (h : s.Twin (some s.commits) made copied s') (ht' : t' ≠ []) :
    s'.commit t' = (.error (.rollback "injected rollback"), { s' with refusals := {} }) ∧
      s.Twin none made copied { s' with refusals := {} } := by
  have howes := h.owes.refused
  refine ⟨?_, { h with
    owes := rfl, left := h.left, right := h.right, rows := ?_, users := h.users }⟩
  · rw [commit_of_refused ht' (by rw [howes]; rfl), howes]
    rfl
  · exact fun row hrow => ⟨(h.rows row hrow).documents, (h.rows row hrow).indexes⟩

/-- Once the commit with the number was made it does not matter which one it was. -/
theorem past {m : Nat} (h : s.Twin none made copied s') (hm : m < s.commits) :
    s.Twin (some m) made copied s' :=
  { h with owes := .of_refused h.owes fun _ heq => Option.some.inj heq ▸ hm }

theorem imp (h : s.Twin k made copied s') (himp : copied' → copied) : s.Twin k made copied' s' :=
  { h with users := fun hcopied => h.users (himp hcopied) }

/-- A store without faults is its own twin. -/
theorem self (h : s.Twin k made copied s') {m : Nat} (hm : m ≤ s.commits) :
    s.Twin none m True s where
  left := h.left
  right := h.left
  rows row _ := .refl row s
  users _ := paired_self h.left
  healthy := h.healthy
  failing := h.healthy.failing
  owes := h.healthy.refused
  counted := hm

/-- What matches a store without faults matches what that one matches, up to the databases of
users. -/
theorem trans {copied' : Prop} {made' : Nat} {s'' : Store} (h : s.Twin none made copied s')
    (h' : s'.Twin none made' copied' s'') : s.Twin none made False s'' where
  left := h.left
  right := h'.right
  rows row hrow := (h.rows row hrow).trans (h'.rows row hrow)
  users := False.elim
  healthy := h.healthy
  failing := h'.failing
  owes := h'.owes
  counted := h.counted

/-- What can be written to the second store is committed there unless it is refused, and what is to
be refused behind it is as next to the first store. -/
theorem exists_commit_owes (h : s.Twin k made copied s') (hok : s.commit t = (.ok (), s₁))
    (happly : Write.applyAll t' s'.nextDid s'.databases = (.ok databases, last))
    (hnil : k ≠ none → (t = [] ↔ t' = [])) (hmissed : t' = [] ∨ k ≠ some s.commits) :
    ∃ s₁', s'.commit t' = (.ok (), s₁') ∧ s₁'.refusals.Owes k s₁.commits := by
  by_cases ht' : t' = []
  · subst ht'
    refine ⟨s', rfl, ?_⟩
    by_cases hk : k = none
    · subst hk
      exact h.owes
    · obtain rfl := (hnil hk).2 rfl
      obtain ⟨-, rfl⟩ := Prod.mk.inj hok
      exact h.owes
  · obtain ⟨hrefused, hnext⟩ := h.owes.step (hmissed.resolve_left ht')
    have hfailing : s'.failingTarget? t' = none :=
      List.find?_eq_none.2 fun ns hns => by simp [h.failing] at hns
    obtain ⟨s₁', hok'⟩ := exists_commit hrefused hfailing happly
    have hrefusals := refusals_commit (s := s') ht'
    rw [hok'] at hrefusals
    refine ⟨s₁', hok', ?_⟩
    rw [show s₁'.refusals = s'.refusals.next.2 from hrefusals]
    by_cases hk : k = none
    · subst hk
      exact hnext
    · rw [commits_commit (fun ht => ht' ((hnil hk).1 ht)) hok]
      exact hnext

/-- What could be committed to the first store and can be written to the second one is committed
there, unless it is refused. -/
theorem commit (h : s.Twin k made copied s') (hok : s.commit t = (.ok (), s₁))
    (happly : Write.applyAll t' s'.nextDid s'.databases = (.ok databases, last))
    (hnil : k ≠ none → (t = [] ↔ t' = [])) (hmissed : t' = [] ∨ k ≠ some s.commits)
    (hmatches : ∀ s₁', s'.commit t' = (.ok (), s₁') → s₁.Matches copied' s₁') :
    ∃ s₁', s'.commit t' = (.ok (), s₁') ∧ s₁.Twin k made copied' s₁' := by
  have hhealthy := h.healthy.commit t
  rw [hok] at hhealthy
  obtain ⟨s₁', hok', howes⟩ := h.exists_commit_owes hok happly hnil hmissed
  exact ⟨s₁', hok', { hmatches s₁' hok' with
    healthy := hhealthy
    failing := (commit_eq_ok hok').2.trans h.failing
    owes := howes
    counted := h.counted.trans (le_commits_commit hok) }⟩

/-- What could be committed to the databases of users in the first store and can be written to those
of the second one is committed there, or it is refused, and then it can be tried again. -/
theorem commit_or_refused (h : s.Twin k made copied s') (ht : ∀ w ∈ t, ¬ IsOwn w.database)
    (ht' : ∀ w ∈ t', ¬ IsOwn w.database) (hok : s.commit t = (.ok (), s₁))
    (happly : Write.applyAll t' s'.nextDid s'.databases = (.ok databases, last))
    (hnil : k ≠ none → (t = [] ↔ t' = []))
    (husers : s₁.databases.Paired s₁.nextDid last databases) :
    (∃ s₁', s'.commit t' = (.ok (), s₁') ∧ s₁.Twin k made True s₁') ∨
      (k = some s.commits ∧
        s'.commit t' = (.error (.rollback "injected rollback"), { s' with refusals := {} }) ∧
        s.Twin none made copied { s' with refusals := {} } ∧
        s₁.Twin none (s.commits + 1) True s₁) := by
  have hmatches : ∀ {s'' s₁' : Store}, s.Matches copied s'' → s''.databases = s'.databases →
      s''.nextDid = s'.nextDid → s''.commit t' = (.ok (), s₁') → s₁.Matches True s₁' := by
    intro s'' s₁' h hdatabases hnext hok'
    have happly' := (commit_eq_ok hok').1
    rw [hdatabases, hnext, happly] at happly'
    obtain ⟨⟨rfl⟩, rfl⟩ := Prod.mk.inj happly'
    exact h.commit ht ht' hok hok' fun _ => husers
  by_cases hhit : t' ≠ [] ∧ k = some s.commits
  · obtain ⟨hsome, rfl⟩ := hhit
    obtain ⟨hrefused, htwin⟩ := h.refused hsome
    obtain ⟨s₁', -, hlast⟩ := htwin.commit hok happly (fun hnone => absurd rfl hnone) (.inr nofun)
      fun _ => hmatches htwin.toMatches rfl rfl
    have ht : t ≠ [] := fun ht => hsome ((hnil nofun).1 ht)
    exact .inr ⟨rfl, hrefused, htwin, hlast.self (commits_commit ht hok).ge⟩
  · have hmissed : t' = [] ∨ k ≠ some s.commits := by
      rwa [not_and_or, not_not] at hhit
    exact .inl (h.commit hok happly hnil hmissed fun _ => hmatches h.toMatches rfl rfl)

/-- A row that could be saved in the first store is saved in the second one, unless that is
refused. -/
theorem save (h : s.Twin k made copied s') (hrow : row ∈ stateRows)
    (hcontent : (idField :: content.map Prod.fst).Nodup)
    (hok : row.save content s = (.ok (), s₁)) (hmissed : k ≠ some s.commits) :
    ∃ s₁', row.save content s' = (.ok (), s₁') ∧ s₁.Twin k made copied s₁' := by
  obtain ⟨databases, last, happly⟩ := (h.rows row hrow).exists_applyAll h.left h.right
    (Store.commit_eq_ok hok).1
  have hnil : k ≠ none → (row.writes content s = [] ↔ row.writes content s' = []) := fun _ =>
    iff_of_false (row.writes_ne_nil content s) (row.writes_ne_nil content s')
  exact h.commit hok happly hnil (.inr hmissed)
    fun _ hok' => h.toMatches.save hrow hcontent hok hok'

end Twin

end Store

end Replica
