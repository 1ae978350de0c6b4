import Mathlib
import Replica.Table

/-!
# Look-ups in tables

The bindings, keys and values of a table in terms of its look-ups, and the look-ups of a table that
is built from a list of bindings (`get?_ofList`) or of keys and a function
(`get?_ofList_filterMap`).
-/

namespace Replica.Assoc

variable {κ : Type u} {α : Type v} [DecidableEq κ] [LT κ] [DecidableLT κ]

/-- Binding one key after another keeps what is found, or finds what was bound. -/
theorem get?_foldl_put (l m : List (κ × α)) (k : κ) (f : κ → Option α)
    (h : ∀ b ∈ l, f b.1 = some b.2) :
    get? k (l.foldl (fun m b => put b.1 b.2 m) m) =
      if k ∈ l.map Prod.fst then f k else get? k m := by
  induction l generalizing m with
  | nil => simp
  | cons b r ih =>
    rw [List.foldl_cons, ih _ fun c hc => h c (List.mem_cons_of_mem _ hc), get?_put]
    by_cases hr : k ∈ r.map Prod.fst
    · simp [hr]
    · by_cases hb : k = b.1
      · simp [hb, h b List.mem_cons_self]
      · simp [hr, hb]

/-- A list of bindings of different keys finds what is bound in it. -/
theorem get?_ofList {l : List (κ × α)} (h : (l.map Prod.fst).Nodup) (k : κ) :
    get? k (ofList l) = get? k l := by
  have hbound : ∀ b ∈ l, get? b.1 l = some b.2 := by
    induction l with
    | nil => simp
    | cons b r ih =>
      obtain ⟨hb, hr⟩ := List.nodup_cons.1 h
      refine List.forall_mem_cons.2 ⟨if_pos rfl, fun c hc => ?_⟩
      have hne : c.1 ≠ b.1 := fun heq => hb (List.mem_map.2 ⟨c, hc, heq⟩)
      rw [get?, if_neg hne]
      exact ih hr c hc
  rw [ofList, get?_foldl_put l [] k (fun k => get? k l) hbound]
  split_ifs with hk
  · rfl
  · rw [← get?_isSome, Bool.not_eq_true, Option.isSome_eq_false_iff, Option.isNone_iff_eq_none] at hk
    exact hk.symm

omit [DecidableEq κ] [DecidableLT κ] in
/-- Ascending keys are different. -/
theorem Ascending.nodup [LE κ] [Std.LawfulOrderLT κ] {l : List (κ × α)} (h : Ascending l) :
    (l.map Prod.fst).Nodup :=
  List.pairwise_map.2 (h.imp fun {a b} hlt heq => by
    rw [heq] at hlt
    exact Std.lt_irrefl hlt)

end Replica.Assoc

namespace Replica.Table

variable {κ : Type u} {α : Type v} [LT κ] [DecidableEq κ]

/-- A table without bindings finds nothing. -/
theorem get?_of_isEmpty {t : Table κ α} (h : t.isEmpty = true) (k : κ) : t.get? k = none := by
  rw [Table.isEmpty, List.isEmpty_iff] at h
  rw [Table.get?, h]
  rfl

/-- What holds of all that is found still does when a key was removed. -/
theorem forall_erase {P : κ → α → Prop} {t : Table κ α} (h : ∀ k v, t.get? k = some v → P k v)
    (key : κ) : ∀ k v, (t.erase key).get? k = some v → P k v := by
  intro k v hv
  rw [get?_erase] at hv
  split_ifs at hv
  exact h k v hv

/-- A key is bound exactly when something is found at it. -/
theorem contains_eq (t : Table κ α) (k : κ) : t.contains k = (t.get? k).isSome := rfl

section Order

variable [LE κ] [DecidableLT κ] [Std.IsLinearOrder κ] [Std.LawfulOrderLT κ]

/-- What holds of all that is found and of what is bound holds of all that is found then. -/
theorem forall_insert {P : κ → α → Prop} {t : Table κ α} (h : ∀ k v, t.get? k = some v → P k v)
    {key : κ} {value : α} (hnew : P key value) :
    ∀ k v, (t.insert key value).get? k = some v → P k v := by
  intro k v hv
  rw [get?_insert] at hv
  split_ifs at hv with hk
  · obtain rfl := Option.some.inj hv
    exact hk ▸ hnew
  · exact h k v hv

omit [DecidableLT κ] in
/-- The bindings of a table are its look-ups. -/
theorem mem_toList {t : Table κ α} {k : κ} {v : α} : (k, v) ∈ t.toList ↔ t.get? k = some v :=
  ⟨t.ascending.get?_eq_some, Assoc.mem_of_get?⟩

omit [DecidableEq κ] [DecidableLT κ] [Std.IsLinearOrder κ] in
/-- No key is there twice. -/
theorem nodup_keys (t : Table κ α) : t.keys.Nodup := t.ascending.nodup

omit [DecidableEq κ] [DecidableLT κ] [Std.IsLinearOrder κ] in
/-- No binding is there twice. -/
theorem nodup_toList (t : Table κ α) : t.toList.Nodup := List.Nodup.of_map _ t.nodup_keys

omit [DecidableLT κ] in
/-- The values of a table are what is found in it. -/
theorem mem_values {t : Table κ α} {v : α} : v ∈ t.values ↔ ∃ k, t.get? k = some v := by
  simp only [values, List.mem_map, Prod.exists, exists_eq_right, mem_toList]

omit [DecidableLT κ] in
/-- The keys of a table are where something is found. -/
theorem mem_keys {t : Table κ α} {k : κ} : k ∈ t.keys ↔ ∃ v, t.get? k = some v := by
  simp only [keys, List.mem_map, Prod.exists, exists_and_right, exists_eq_right, mem_toList]

/-- The table that binds each of some keys to the value of a function, if it has one there. -/
theorem get?_ofList_filterMap (f : κ → Option α) (keys : List κ) (k : κ) :
    (ofList (keys.filterMap fun key => (f key).map fun v => (key, v))).get? k =
      if k ∈ keys then f k else none := by
  have hbound : ∀ b ∈ keys.filterMap fun key => (f key).map fun v => (key, v),
      f b.1 = some b.2 := by
    intro b hb
    obtain ⟨key, -, hkey⟩ := List.mem_filterMap.1 hb
    obtain ⟨v, hv, rfl⟩ := Option.map_eq_some_iff.1 hkey
    exact hv
  show Assoc.get? k (List.foldl _ [] _) = _
  rw [Assoc.get?_foldl_put _ _ _ f hbound]
  by_cases hk : k ∈ keys
  · cases hf : f k with
    | none => simp
    | some v =>
      have : k ∈ (keys.filterMap fun key => (f key).map fun v => (key, v)).map Prod.fst :=
        List.mem_map.2 ⟨(k, v), List.mem_filterMap.2 ⟨k, hk, by rw [hf]; rfl⟩, rfl⟩
      rw [if_pos this, if_pos hk]
  · have : k ∉ (keys.filterMap fun key => (f key).map fun v => (key, v)).map Prod.fst := by
      intro hmem
      obtain ⟨b, hb, rfl⟩ := List.mem_map.1 hmem
      obtain ⟨key, hkey, hb⟩ := List.mem_filterMap.1 hb
      obtain ⟨v, -, rfl⟩ := Option.map_eq_some_iff.1 hb
      exact hk hkey
    rw [if_neg this, if_neg hk]
    rfl

end Order

end Replica.Table
