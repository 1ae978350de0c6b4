import Replica.Proofs.Json.Canonical

/-!
# Records are read as they were written

`Json.object` writes members of different keys in the order of their keys. The fields of a record
are then what was written under their names (`record?_object`), a tag is what was written under its
key, and what is left beside it is the object of the other members (`tagged?_object`).
-/

namespace Replica.Json

variable {members : Members} {α : Type u}

/-- Where keys are different, what an object says about a key is what is bound to it. -/
theorem field?_eq (h : (members.map Prod.fst).Nodup) (key : String) :
    field? key members = some (Assoc.get? key members) := by
  have hvalues : valuesOf key members = (Assoc.get? key members).toList := by
    induction members with
    | nil => rfl
    | cons m ms ih =>
      obtain ⟨hm, hms⟩ := List.nodup_cons.1 h
      have ih := ih hms
      rw [valuesOf] at ih ⊢
      by_cases hkey : m.1 = key
      · have hnone : Assoc.get? key ms = none := by
          rw [← Option.not_isSome_iff_eq_none, Assoc.get?_isSome, ← hkey]
          exact hm
        simp [Assoc.get?, hkey, ih, hnone]
      · simp [Assoc.get?, hkey, Ne.symm hkey, ih]
  rw [field?, hvalues]
  cases Assoc.get? key members <;> rfl

/-- A written object says about a key what was written. -/
theorem field?_object (h : (members.map Prod.fst).Nodup) (key : String) :
    field? key (Assoc.ofList members) = some (Assoc.get? key members) := by
  rw [field?_eq (Assoc.ascending_ofList members).nodup, Assoc.get?_ofList h]

/-- The fields of a written record are what was written under their names. -/
theorem record?_object (h : (members.map Prod.fst).Nodup) (names : List String) :
    (object members).record? names = some (names.map fun name => Assoc.get? name members) := by
  rw [object, record?]
  simp only [field?_object h]
  exact List.mapM_pure

/-- A written object without some of its keys is the object of the other members. -/
theorem filter_object (h : (members.map Prod.fst).Nodup) (p : String → Bool) :
    obj ((Assoc.ofList members).filter fun m => p m.1) =
      object (members.filter fun m => p m.1) := by
  have hfilter : ((members.filter fun m => p m.1).map Prod.fst).Nodup :=
    h.sublist (List.filter_sublist.map Prod.fst)
  rw [object]
  congr 1
  refine Assoc.ext (List.Pairwise.filter _ (Assoc.ascending_ofList members))
    (Assoc.ascending_ofList _) fun key => ?_
  rw [Assoc.get?_filter, Assoc.get?_ofList h, Assoc.get?_ofList hfilter, Assoc.get?_filter]

/-- The tag of a written value, and the value of its other members. -/
theorem tagged?_object (h : (members.map Prod.fst).Nodup) {tag : String} {value : Json}
    (htag : Assoc.get? tag members = some value) :
    (object members).tagged? tag = some (value, object (members.filter fun m => m.1 ≠ tag)) := by
  rw [object, tagged?, field?_object h, htag]
  exact congrArg (fun rest => some (value, rest)) (filter_object h fun key => key ≠ tag)

/-- A list is read as it was written if its items are. -/
theorem list?_map {decode : Json → Option α} {encode : α → Json} {l : List α}
    (h : ∀ a ∈ l, decode (encode a) = some a) : (arr (l.map encode)).list? decode = some l := by
  rw [list?]
  induction l with
  | nil => rfl
  | cons a l ih =>
    rw [List.map_cons, List.mapM_cons, h a List.mem_cons_self,
      ih fun b hb => h b (List.mem_cons_of_mem _ hb)]
    rfl

/-- Every 64-bit integer is read back as it was written. -/
theorem int64?_ofInt64 (n : Int64) : (ofInt64 n).int64? = some n := by
  have hlow := n.le_toInt
  have hhigh := n.toInt_lt
  rw [ofInt64, int64?, if_pos, Int64.ofInt_toInt]
  constructor
  · simpa using hlow
  · simpa using hhigh

end Replica.Json
