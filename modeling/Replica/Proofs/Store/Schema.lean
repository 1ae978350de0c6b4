import Replica.Proofs.Store.Layout

/-!
# Writes on collections and indexes

Databases are alike if they have the same collections, these have the same indexes, and they have
the same documents at the same keys; the numbers of the documents may differ. Writes other than
those of single documents cannot tell such databases apart: if one is made in the first of them, it
is made in the second one, and both are alike afterwards (`Databases.Alike.exists_applyAll`).
-/

namespace Replica

variable {next next' last : Did} {ns : Namespace}

/-! ## Collections -/

namespace Collection

variable {c c' d : Collection} {index : IndexSpec}

/-- Two collections have the same documents by key and the same indexes. -/
structure Alike (next next' : Did) (c c' : Collection) : Prop where
  /-- The first one is well-formed. -/
  left : c.WellFormed next
  /-- The second one is well-formed. -/
  right : c'.WellFormed next'
  /-- The documents by key are the same. -/
  documents : ∀ key, c.document? key = c'.document? key
  /-- The indexes are the same. -/
  indexes : c.indexes = c'.indexes

namespace Alike

theorem empty (next next' : Did) : Alike next next' .empty .empty :=
  ⟨wellFormed_empty next, wellFormed_empty next', fun _ => rfl, rfl⟩

theorem mono (h : Alike next next' c c') (hle : next ≤ last) : Alike last next' c c' :=
  { h with left := h.left.mono hle }

/-- The same index can be created. -/
theorem exists_createIndex (h : Alike next next' c c') (hok : c.createIndex ns index = .ok d) :
    ∃ d', c'.createIndex ns index = .ok d' ∧ Alike next next' d d' := by
  have hleft := h.left.createIndex hok
  unfold createIndex at hok
  split_ifs at hok with hrep
  obtain rfl := Except.ok.inj hok
  -- Whether documents agree in the fields is seen at their keys.
  have hrep' : ¬(index.unique && hasRepetition (c'.docs.values.map index.tuple)) = true := by
    rw [Bool.and_eq_true, not_and, Bool.not_eq_true] at hrep ⊢
    intro hunique
    have hnone := (h.left.hasRepetition_eq_false index).1 (hrep hunique)
    simp only [h.documents] at hnone
    exact (h.right.hasRepetition_eq_false index).2 hnone
  have hok' : c'.createIndex ns index =
      .ok { c' with indexes := c'.indexes.insert index.name index } := if_neg hrep'
  refine ⟨_, hok', hleft.1, (h.right.createIndex hok').1, h.documents, ?_⟩
  show c.indexes.insert index.name index = c'.indexes.insert index.name index
  rw [h.indexes]

theorem dropIndex (h : Alike next next' c c') (name : String) :
    Alike next next' { c with indexes := c.indexes.erase name }
      { c' with indexes := c'.indexes.erase name } where
  left := h.left.dropIndex name
  right := h.right.dropIndex name
  documents := h.documents
  indexes := by rw [h.indexes]

end Alike

end Collection

/-! ## One database -/

namespace Database

variable {db db' db₁ : Database} {c c' : Collection} {name : String}

/-- Two databases have collections of the same names, which are alike. -/
def Alike (next next' : Did) (db db' : Database) : Prop :=
  ∀ name, Option.Rel (Collection.Alike next next') (db.get? name) (db'.get? name)

namespace Alike

theorem empty (next next' : Did) : Alike next next' ∅ ∅ := fun _ => .none

theorem exists_of_get? (h : Alike next next' db db') (hc : db.get? name = some c) :
    ∃ c', db'.get? name = some c' ∧ Collection.Alike next next' c c' := by
  have hname := h name
  rw [hc] at hname
  generalize db'.get? name = y at hname ⊢
  cases hname with
  | some hcc => exact ⟨_, rfl, hcc⟩

theorem get?_eq_none (h : Alike next next' db db') (hnone : db.get? name = none) :
    db'.get? name = none := by
  have hname := h name
  rw [hnone] at hname
  generalize db'.get? name = y at hname ⊢
  cases hname
  rfl

theorem contains (h : Alike next next' db db') (name : String) :
    db'.contains name = db.contains name := by
  have hname := h name
  rw [Table.contains_eq, Table.contains_eq]
  generalize db.get? name = x at hname ⊢
  generalize db'.get? name = y at hname ⊢
  cases hname <;> rfl

/-- The collections are alike that count as empty where they are missing. -/
theorem getD (h : Alike next next' db db') (name : String) :
    Collection.Alike next next' ((db.get? name).getD .empty) ((db'.get? name).getD .empty) := by
  have hname := h name
  generalize db.get? name = x at hname ⊢
  generalize db'.get? name = y at hname ⊢
  cases hname with
  | none => exact .empty next next'
  | some hcc => exact hcc

theorem insert (h : Alike next next' db db') (hcc : Collection.Alike next next' c c')
    (name : String) : Alike next next' (db.insert name c) (db'.insert name c') := by
  intro other
  rw [Table.get?_insert, Table.get?_insert]
  split_ifs
  · exact .some hcc
  · exact h other

theorem erase (h : Alike next next' db db') (name : String) :
    Alike next next' (db.erase name) (db'.erase name) := by
  intro other
  rw [Table.get?_erase, Table.get?_erase]
  split_ifs
  · exact .none
  · exact h other

end Alike

end Database

/-- The write is not one of single documents. -/
def Write.OnCollections : Write → Prop
  | .delete .. | .insert .. => False
  | _ => True

/-- A write on collections is made in databases that are alike. -/
theorem Database.Alike.exists_onDatabase {db db' db₁ : Database} (h : Alike next next' db db')
    {w : Write} (hw : w.OnCollections) (hok : w.onDatabase next db = (.ok db₁, last)) :
    last = next ∧ ∃ db₁', w.onDatabase next' db' = (.ok db₁', next') ∧
      Alike next next' db₁ db₁' := by
  cases Write.makes_of_onDatabase hok with
  | deleteMissing | delete | insert => exact hw.elim
  | dropIndexMissing missing =>
    refine ⟨rfl, _, ?_, h⟩
    simp only [Write.onDatabase, h.get?_eq_none missing]
  | createCollection => exact ⟨rfl, _, rfl, h.insert (h.getD _) _⟩
  | dropCollection => exact ⟨rfl, _, rfl, h.erase _⟩
  | dropDatabase => exact ⟨rfl, _, rfl, .empty next next'⟩
  | rename free found =>
    rename_i source target dropTarget c
    obtain ⟨c', hc', halike⟩ := (h.erase target.collection).exists_of_get? found
    have hfree : ¬(db'.contains target.collection && !dropTarget) = true := by
      rw [h.contains, Bool.and_eq_true, Bool.not_eq_true']
      rintro ⟨htarget, hkept⟩
      exact Bool.false_ne_true (hkept.symm.trans (free htarget))
    refine ⟨rfl, _, ?_, ((h.erase _).erase _).insert halike _⟩
    simp only [Write.onDatabase, Write.renameIn, if_neg hfree, hc']
  | createIndex created =>
    obtain ⟨d', hd', halike⟩ := (h.getD _).exists_createIndex created
    refine ⟨rfl, _, ?_, h.insert halike _⟩
    simp only [Write.onDatabase, hd']
    rfl
  | dropIndex found =>
    obtain ⟨c', hc', halike⟩ := h.exists_of_get? found
    refine ⟨rfl, _, ?_, h.insert (halike.dropIndex _) _⟩
    simp only [Write.onDatabase, hc']

/-! ## All databases -/

namespace Databases

variable {s s' s₁ : Databases} {w : Write} {ws : List Write}

/-- All databases are alike. -/
def Alike (next next' : Did) (s s' : Databases) : Prop :=
  ∀ name, Database.Alike next next' (s.database name) (s'.database name)

namespace Alike

theorem mono (h : Alike next next' s s') (hle : next ≤ last) : Alike last next' s s' := by
  intro database name
  have hname := h database name
  generalize (s.database database).get? name = x at hname ⊢
  generalize (s'.database database).get? name = y at hname ⊢
  cases hname with
  | none => exact .none
  | some hcc => exact .some (hcc.mono hle)

/-- A write on collections is made in all databases alike. -/
theorem exists_apply (h : Alike next next' s s') (hw : w.OnCollections)
    (hok : w.apply next s = (.ok s₁, last)) :
    last = next ∧ ∃ s₁', w.apply next' s' = (.ok s₁', next') ∧ Alike next next' s₁ s₁' := by
  obtain ⟨db, hdb, rfl⟩ := Write.apply_eq_ok hok
  obtain ⟨rfl, db', hdb', halike⟩ := (h w.database).exists_onDatabase hw hdb
  refine ⟨rfl, s'.setDatabase w.database db', by rw [Write.apply, hdb'], fun name => ?_⟩
  rw [database_setDatabase, database_setDatabase]
  split_ifs
  · exact halike
  · exact h name

/-- Writes on collections are made one after another in all databases alike. -/
theorem exists_applyAll (h : Alike next next' s s') (hws : ∀ w ∈ ws, w.OnCollections)
    (hok : Write.applyAll ws next s = (.ok s₁, last)) :
    last = next ∧ ∃ s₁', Write.applyAll ws next' s' = (.ok s₁', next') ∧
      Alike next next' s₁ s₁' := by
  induction ws generalizing s s' with
  | nil =>
    obtain ⟨⟨rfl⟩, rfl⟩ := Prod.mk.inj hok
    exact ⟨rfl, s', rfl, h⟩
  | cons w ws ih =>
    obtain ⟨hw, hws⟩ := List.forall_mem_cons.1 hws
    obtain ⟨mid, between, happ, hrest⟩ := Write.applyAll_cons_eq_ok hok
    obtain ⟨rfl, mid', happ', halike⟩ := h.exists_apply hw happ
    obtain ⟨rfl, s₁', hrest', hlast⟩ := ih halike hws hrest
    exact ⟨rfl, s₁', by rw [Write.applyAll, happ']; exact hrest', hlast⟩

end Alike

end Databases

end Replica
