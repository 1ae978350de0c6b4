import Replica.Assoc

/-!
# Finite maps with ascending keys

A `Table` is an ascending association list. Its bindings are enumerated in key order, and two tables
with the same look-ups are equal (`Table.ext_get?`).
-/

namespace Replica

/-- A finite map, kept as the ascending list of its bindings. -/
structure Table (κ : Type u) (α : Type v) [LT κ] where
  /-- The bindings in ascending order of their keys. -/
  toList : List (κ × α)
  /-- The keys ascend strictly. -/
  ascending : Assoc.Ascending toList

namespace Table

variable {κ : Type u} {α : Type v} {β : Type w} [LT κ]

/-- The table without bindings. -/
def empty : Table κ α := ⟨[], List.Pairwise.nil⟩

instance : EmptyCollection (Table κ α) := ⟨empty⟩

instance : Inhabited (Table κ α) := ⟨empty⟩

/-- The keys, ascending. -/
def keys (t : Table κ α) : List κ := t.toList.map Prod.fst

/-- The values, in the order of their keys. -/
def values (t : Table κ α) : List α := t.toList.map Prod.snd

/-- Whether the table has no bindings. -/
def isEmpty (t : Table κ α) : Bool := t.toList.isEmpty

/-- The value bound to a key. -/
def get? [DecidableEq κ] (t : Table κ α) (k : κ) : Option α := Assoc.get? k t.toList

/-- Whether a key is bound. -/
def contains [DecidableEq κ] (t : Table κ α) (k : κ) : Bool := (t.get? k).isSome

/-- Removes a key. -/
def erase [DecidableEq κ] (t : Table κ α) (k : κ) : Table κ α :=
  ⟨Assoc.erase k t.toList, t.ascending.erase k⟩

section Order

variable [LE κ] [DecidableEq κ] [DecidableLT κ] [Std.IsLinearOrder κ] [Std.LawfulOrderLT κ]

/-- Binds a key to a value, in place of the value it was bound to. -/
def insert (t : Table κ α) (k : κ) (v : α) : Table κ α :=
  ⟨Assoc.put k v t.toList, t.ascending.put k v⟩

/-- The table of a list of bindings; the last binding of a key counts. -/
def ofList (l : List (κ × α)) : Table κ α := ⟨Assoc.ofList l, Assoc.ascending_ofList l⟩

@[simp] theorem get?_insert (t : Table κ α) (k j : κ) (v : α) :
    (t.insert k v).get? j = if j = k then some v else t.get? j :=
  Assoc.get?_put k j v t.toList

omit [DecidableLT κ] in
/-- Two tables with the same look-ups are equal. -/
theorem ext_get? {s t : Table κ α} (h : ∀ k, s.get? k = t.get? k) : s = t := by
  obtain ⟨l, hl⟩ := s
  obtain ⟨m, hm⟩ := t
  have : l = m := Assoc.ext hl hm h
  subst this
  rfl

end Order

@[simp] theorem get?_empty [DecidableEq κ] (k : κ) : (∅ : Table κ α).get? k = none := rfl

@[simp] theorem get?_erase [DecidableEq κ] (t : Table κ α) (k j : κ) :
    (t.erase k).get? j = if j = k then none else t.get? j :=
  Assoc.get?_erase k j t.toList

end Table

end Replica
