import Replica.Consistency
import Replica.Proofs.Checkpoint.Agreement
import Replica.Proofs.Store.Layout

/-!
# The stored flag

The flag in memory is the stored one: storing it either succeeds, and then both have the new value
(`set_eq_ok`), or leaves both (`set_eq_error`). The stored flag is left by all that is written to
other databases (`load_commit`) and by every move of the checkpoint (`load_checkpoint`), whose
document lies beside it.
-/

namespace Replica

/-! ## Rows beside one another -/

namespace StateRow

variable {row : StateRow} {content : Json.Members} {s s' : Store} {ns : Namespace}

/-- Saving a row leaves all other collections, whether it succeeds or not. -/
theorem collection?_save (h : ns ≠ row.ns) :
    (row.save content s).2.collection? ns = s.collection? ns := by
  obtain ⟨t, hsave, ht⟩ := row.save_eq_commit content s
  rw [hsave]
  refine Store.collection?_commit fun w hw => ?_
  rcases ht w hw with ⟨dids, rfl⟩ | ⟨docs, rfl⟩ <;> exact h

/-- Saving a row leaves all other databases, whether it succeeds or not. -/
theorem get?_save {name : String} (h : name ≠ reservedDatabase) :
    (row.save content s).2.databases.get? name = s.databases.get? name := by
  obtain ⟨t, hsave, ht⟩ := row.save_eq_commit content s
  rw [hsave]
  refine Store.get?_commit fun w hw => ?_
  rcases ht w hw with ⟨dids, rfl⟩ | ⟨docs, rfl⟩ <;> exact Ne.symm h

/-- What is loaded is in the collection of the row. -/
theorem load?_of_collection? (h : s'.collection? row.ns = s.collection? row.ns) :
    row.load? s' = row.load? s := by
  rw [load?, h, load?]

end StateRow

namespace CheckpointCall

variable {request : CheckpointCall} {c : Checkpoint} {s : Store}

/-- No call on the checkpoint changes another collection than its own. -/
theorem collection?_run {ns : Namespace} (h : ns ≠ Checkpoint.row.ns) :
    (request.run c s).2.2.collection? ns = s.collection? ns :=
  keeps_run (P := fun s' => s'.collection? ns = s.collection? ns)
    (fun _ _ => (StateRow.collection?_save h).trans) rfl

/-- No call on the checkpoint changes another database than the reserved one. -/
theorem get?_run {name : String} (h : name ≠ reservedDatabase) :
    (request.run c s).2.2.databases.get? name = s.databases.get? name :=
  keeps_run (P := fun s' => s'.databases.get? name = s.databases.get? name)
    (fun _ _ => (StateRow.get?_save h).trans) rfl

end CheckpointCall

/-! ## The flag -/

namespace Consistency

variable {value cached cached' : Bool} {s s' : Store} {e : ReplicationError}

theorem load_of_row (h : row.load? s' = row.load? s) : load s' = load s := by
  rw [load, h, load]

/-- The flag depends on the data of the store. -/
theorem load_congr (h : s.SameData s') : load s' = load s := load_of_row (StateRow.load?_congr h)

/-- A transaction on other databases leaves the flag, whether it is committed or fails. -/
theorem load_commit {t : Transaction} (ht : ∀ w ∈ t, w.database ≠ reservedDatabase) :
    load (s.commit t).2 = load s := load_of_row (StateRow.load?_commit ht)

/-- No call on the checkpoint changes the flag. -/
theorem load_checkpoint (request : CheckpointCall) (c : Checkpoint) :
    load (request.run c s).2.2 = load s :=
  load_of_row (StateRow.load?_of_collection? (CheckpointCall.collection?_run (by decide)))

/-- A flag that was set has its value in memory and in the store. -/
theorem set_eq_ok (hs : s.WellFormed) (h : set value cached s = (.ok (), cached', s')) :
    cached' = value ∧ load s' = value := by
  unfold set save at h
  rcases hsave : row.save [("value", .bool value)] s with ⟨cause | ⟨⟩, stored⟩
  · rw [hsave] at h
    cases congrArg Prod.fst h
  · rw [hsave] at h
    obtain ⟨-, hrest⟩ := Prod.mk.inj h
    obtain ⟨rfl, rfl⟩ := Prod.mk.inj hrest
    have hnodup : (idField :: [("value", Json.bool value)].map Prod.fst).Nodup :=
      show [idField, "value"].Nodup by decide
    refine ⟨rfl, ?_⟩
    rw [load, StateRow.load?_of_save hnodup hs hsave, Option.bind_some,
      StateRow.member?_document hnodup]
    rfl

/-- A flag that could not be set is left in memory and in the store. -/
theorem set_eq_error (h : set value cached s = (.error e, cached', s')) :
    cached' = cached ∧ s.SameData s' := by
  unfold set save at h
  rcases hsave : row.save [("value", .bool value)] s with ⟨cause | ⟨⟩, stored⟩
  · rw [hsave] at h
    obtain ⟨-, hrest⟩ := Prod.mk.inj h
    obtain ⟨rfl, rfl⟩ := Prod.mk.inj hrest
    exact ⟨rfl, StateRow.sameData_of_save hsave⟩
  · rw [hsave] at h
    cases congrArg Prod.fst h

/-- Setting the flag saves its row. -/
theorem set_store : (set value cached s).2.2 = (row.save [("value", .bool value)] s).2 := by
  unfold set save
  rcases row.save [("value", .bool value)] s with ⟨cause | ⟨⟩, stored⟩ <;> rfl

/-- Setting the flag changes no collection but its own, whether it succeeds or not. -/
theorem collection?_set {ns : Namespace} (h : ns ≠ row.ns) :
    (set value cached s).2.2.collection? ns = s.collection? ns := by
  rw [set_store, StateRow.collection?_save h]

/-- Setting the flag changes no database but the reserved one, whether it succeeds or not. -/
theorem get?_set {name : String} (h : name ≠ reservedDatabase) :
    (set value cached s).2.2.databases.get? name = s.databases.get? name := by
  rw [set_store, StateRow.get?_save h]

/-- Setting the flag keeps a store well-formed, also where it fails. -/
theorem wellFormed_set (hs : s.WellFormed) : (set value cached s).2.2.WellFormed := by
  rw [set_store]
  exact StateRow.wellFormed_save hs

end Consistency

end Replica
