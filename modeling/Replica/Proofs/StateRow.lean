import Replica.Proofs.Store.Reachable
import Replica.StateRow

/-!
# Stored state is what was stored last

Saving a row either succeeds, and then its document is loaded (`load?_of_save`), or changes nothing
that can be read (`sameData_of_save`). Writes to other databases leave every row (`load?_commit`).
-/

namespace Replica.StateRow

variable {row : StateRow} {content : Json.Members} {s s' : Store}

/-- What is loaded is the document with the key of the row. -/
theorem load?_eq (row : StateRow) (s : Store) : row.load? s = s.document? row.ns row.key := by
  rw [load?, Store.document?, Store.collection, Databases.collection, Store.collection?]
  cases s.databases.collection? row.ns with
  | none => rfl
  | some c => rfl

/-- The member of a row's document with a key. -/
theorem member?_document (hcontent : (idField :: content.map Prod.fst).Nodup) (key : String) :
    (row.document content).member? key = Assoc.get? key ((idField, .str row.id) :: content) :=
  Assoc.get?_ofList (by simpa using hcontent) key

/-- A row's document has the key of the row. -/
theorem ofDocument_document (hcontent : (idField :: content.map Prod.fst).Nodup) :
    DocKey.ofDocument (row.document content) = .ok row.key := by
  have hid : documentId (row.document content) = .ok (.str row.id) := by
    have hget : Assoc.get? idField (Assoc.ofList ((idField, .str row.id) :: content)) =
        some (.str row.id) := by
      rw [Assoc.get?_ofList (by simpa using hcontent), Assoc.get?, if_pos rfl]
    rw [document, Json.object, documentId, hget]
  rw [DocKey.ofDocument, hid]
  rfl

/-- Saving keeps a store well-formed, also where it fails. -/
theorem wellFormed_save (hs : s.WellFormed) : (row.save content s).2.WellFormed := hs.commit _

/-- A row that was saved is loaded. -/
theorem load?_of_save (hcontent : (idField :: content.map Prod.fst).Nodup) (hs : s.WellFormed)
    (h : row.save content s = (.ok (), s')) : row.load? s' = some (row.document content) := by
  obtain ⟨happly, -⟩ := Store.commit_eq_ok h
  have hwrites := Write.applyAll_delete_insert s.databases s.nextDid row.ns
    (s.findDids row.ns [row.key]).values [row.document content]
  rcases hins : Collection.insertAll row.ns [row.document content] s.nextDid
    ((s.findDids row.ns [row.key]).values.foldl Collection.delete (s.databases.collection row.ns))
    with ⟨e | c, next⟩
  · rw [hins] at hwrites
    rw [hwrites] at happly
    cases congrArg Prod.fst happly
  · rw [hins] at hwrites
    obtain ⟨databases, hdatabases, hcollection⟩ := hwrites
    rw [happly] at hdatabases
    obtain ⟨⟨rfl⟩, rfl⟩ := Prod.mk.inj hdatabases
    obtain ⟨-, -, hnew, -⟩ := ((hs row.ns).foldl_delete _).1.insertAll_eq_ok hins
    obtain ⟨key, hkey, -, hdoc⟩ := hnew _ List.mem_cons_self
    rw [ofDocument_document hcontent, Except.ok.injEq] at hkey
    rw [load?_eq, Store.document?, Store.collection, hcollection, if_pos rfl, hkey, hdoc]

/-- Saving a row commits writes that remove documents of its collection and insert some there. -/
theorem save_eq_commit (row : StateRow) (content : Json.Members) (s : Store) :
    ∃ t : Transaction, row.save content s = s.commit t ∧
      ∀ w ∈ t, (∃ dids, w = .delete row.ns dids) ∨ ∃ docs, w = .insert row.ns docs := by
  refine ⟨_, rfl, fun w hw => ?_⟩
  unfold Transaction.insert Transaction.delete at hw
  split_ifs at hw with hdocs
  · cases hdocs
  · cases hdocs
  · exact .inr ⟨_, List.mem_singleton.1 hw⟩
  · rcases List.mem_append.1 hw with hw | hw
    · exact .inl ⟨_, List.mem_singleton.1 hw⟩
    · exact .inr ⟨_, List.mem_singleton.1 hw⟩

/-- A row that cannot be saved changes nothing that can be read. -/
theorem sameData_of_save {e : ReplicationError} (h : row.save content s = (.error e, s')) :
    s.SameData s' := (Store.commit_eq_error h).1

/-- What is loaded depends on the data of the store. -/
theorem load?_congr (h : s.SameData s') : row.load? s' = row.load? s := by
  rw [load?_eq, h.document?, load?_eq]

/-- A transaction on other databases leaves every row, whether it is committed or fails. -/
theorem load?_commit {t : Transaction} (ht : ∀ w ∈ t, w.database ≠ reservedDatabase) :
    row.load? (s.commit t).2 = row.load? s := by
  rw [load?, Store.collection?_of_get? (Store.get?_commit ht), load?]

end Replica.StateRow
