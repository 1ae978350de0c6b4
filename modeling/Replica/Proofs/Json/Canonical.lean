import Replica.Proofs.Store.Table
import Replica.Json.Decode

/-!
# Canonical values

The members that a value keeps in its canonical form are those that count in the value as it is
written: a look-up in `Assoc.ofList l` finds the last binding in `l` (`get?_ofList_eq`). The
canonical form is canonical (`canonical_canonical`), and a canonical value is its own canonical form
(`Canonical.canonical_eq`).
-/

namespace Replica

namespace Assoc

variable {κ : Type u} {α : Type v} {β : Type w} [DecidableEq κ]

/-- A look-up in two lists finds what is bound in the first one, or else in the second one. -/
theorem get?_append (k : κ) (l m : List (κ × α)) :
    get? k (l ++ m) = (get? k l).or (get? k m) := by
  induction l with
  | nil => rfl
  | cons b r ih =>
    rw [List.cons_append, get?, get?, ih]
    split_ifs <;> rfl

/-- A look-up in a list whose values were changed finds the changed value. -/
theorem get?_map (f : α → β) (k : κ) (l : List (κ × α)) :
    get? k (l.map fun b => (b.1, f b.2)) = (get? k l).map f := by
  induction l with
  | nil => rfl
  | cons b r ih =>
    rw [List.map_cons, get?, get?, ih]
    split_ifs <;> rfl

/-- A look-up in a list without some of its keys finds the keys that are left. -/
theorem get?_filter (p : κ → Bool) (k : κ) (l : List (κ × α)) :
    get? k (l.filter fun b => p b.1) = if p k then get? k l else none := by
  induction l with
  | nil => simp [get?]
  | cons b r ih =>
    by_cases hk : k = b.1
    · cases hp : p b.1 with
      | true => simp [get?, hk, hp]
      | false => simp [hk ▸ ih, hk, hp]
    · cases hp : p b.1 with
      | true => simp [get?, hk, hp, ih]
      | false => simp [get?, hk, hp, ih]

/-- A list of bindings finds the last binding of a key. -/
theorem get?_ofList_eq [LT κ] [DecidableLT κ] (k : κ) (l : List (κ × α)) :
    get? k (ofList l) = get? k l.reverse := by
  suffices h : ∀ m : List (κ × α), get? k (l.foldl (fun m b => put b.1 b.2 m) m) =
      (get? k l.reverse).or (get? k m) by
    rw [ofList, h, get?_nil, Option.or_none]
  induction l with
  | nil => exact fun m => rfl
  | cons b r ih =>
    intro m
    rw [List.foldl_cons, ih, get?_put, List.reverse_cons, get?_append, Option.or_assoc, get?]
    split_ifs <;> rfl

section Order

variable [LE κ] [LT κ] [DecidableLT κ] [Std.IsLinearOrder κ] [Std.LawfulOrderLT κ]

/-- Ascending bindings stay what they are. -/
theorem Ascending.ofList_eq {l : List (κ × α)} (h : Ascending l) : ofList l = l :=
  ext (ascending_ofList l) h (get?_ofList h.nodup)

/-- A binding that is kept is one of the list. -/
theorem mem_of_mem_ofList {l : List (κ × α)} {b : κ × α} (h : b ∈ ofList l) : b ∈ l := by
  have hget := (ascending_ofList l).get?_eq_some (k := b.1) (v := b.2) h
  rw [get?_ofList_eq] at hget
  exact List.mem_reverse.1 (mem_of_get? hget)

end Order

end Assoc

namespace Json

/-- What holds of the values without parts, and of a list and an object if it holds of what is in
them, holds of all values. -/
@[elab_as_elim]
theorem inductionOn {P : Json → Prop} (a : Json) (null : P null) (bool : ∀ b, P (bool b))
    (int : ∀ n, P (int n)) (float : ∀ x, P (float x)) (str : ∀ s, P (str s))
    (arr : ∀ items, (∀ x ∈ items, P x) → P (arr items))
    (obj : ∀ members : Members, (∀ m ∈ members, P m.2) → P (obj members)) : P a :=
  match a with
  | .null => null
  | .bool b => bool b
  | .int n => int n
  | .float x => float x
  | .str s => str s
  | .arr items => arr items fun x _ => inductionOn x null bool int float str arr obj
  | .obj members => obj members fun m _ => inductionOn m.2 null bool int float str arr obj
termination_by sizeOf a
decreasing_by
  · have := List.sizeOf_lt_of_mem ‹x ∈ items›
    simp only [Json.arr.sizeOf_spec]
    omega
  · have hmember := List.sizeOf_lt_of_mem ‹m ∈ members›
    have hvalue : sizeOf m.2 < sizeOf m := by
      obtain ⟨key, value⟩ := m
      simp only [Prod.mk.sizeOf_spec]
      omega
    simp only [Json.obj.sizeOf_spec]
    omega

/-! ## Canonical forms -/

theorem canonicalItems_eq (items : List Json) : canonicalItems items = items.map canonical := by
  induction items with
  | nil => rfl
  | cons x xs ih => rw [canonicalItems, ih, List.map_cons]

theorem canonicalMembers_eq (members : Members) :
    canonicalMembers members = members.map fun m => (m.1, m.2.canonical) := by
  induction members with
  | nil => rfl
  | cons m ms ih => rw [canonicalMembers, ih, List.map_cons]

theorem canonical_arr (items : List Json) : (arr items).canonical = arr (items.map canonical) := by
  rw [canonical, canonicalItems_eq]

theorem canonical_obj_eq (members : Members) : (obj members).canonical =
    obj (Assoc.ofList (members.map fun m => (m.1, m.2.canonical))) := by
  rw [canonical, canonicalMembers_eq]

/-- The member of an object in canonical form is the canonical form of the last binding of its
key. -/
theorem get?_canonical (key : String) (members : Members) :
    Assoc.get? key (Assoc.ofList (members.map fun m => (m.1, m.2.canonical))) =
      (Assoc.get? key members.reverse).map canonical := by
  rw [Assoc.get?_ofList_eq, ← List.map_reverse, Assoc.get?_map]

theorem canonicalItems_iff {items : List Json} :
    CanonicalItems items ↔ ∀ x ∈ items, x.Canonical := by
  induction items with
  | nil => simp [CanonicalItems]
  | cons x xs ih => simp [CanonicalItems, ih]

theorem canonicalMembers_iff {members : Members} :
    CanonicalMembers members ↔ ∀ m ∈ members, m.2.Canonical := by
  induction members with
  | nil => simp [CanonicalMembers]
  | cons m ms ih => simp [CanonicalMembers, ih]

theorem canonical_obj_iff {members : Members} : (obj members).Canonical ↔
    Assoc.Ascending members ∧ ∀ m ∈ members, m.2.Canonical := by
  rw [Canonical, canonicalMembers_iff]

/-- The canonical form of a value is canonical. -/
theorem canonical_canonical (a : Json) : a.canonical.Canonical := by
  induction a using inductionOn with
  | null | bool | int | float | str => trivial
  | arr items ih =>
    rw [canonical_arr, Canonical, canonicalItems_iff]
    exact List.forall_mem_map.2 ih
  | obj members ih =>
    rw [canonical_obj_eq, canonical_obj_iff]
    refine ⟨Assoc.ascending_ofList _, fun m hm => ?_⟩
    obtain ⟨n, hn, rfl⟩ := List.mem_map.1 (Assoc.mem_of_mem_ofList hm)
    exact ih n hn

/-- A canonical value is its own canonical form. -/
theorem Canonical.canonical_eq {a : Json} (h : a.Canonical) : a.canonical = a := by
  induction a using inductionOn with
  | null | bool | int | float | str => rfl
  | arr items ih =>
    rw [Canonical, canonicalItems_iff] at h
    rw [canonical_arr, List.map_congr_left fun x hx => ih x hx (h x hx), List.map_id']
  | obj members ih =>
    obtain ⟨hascending, hmembers⟩ := canonical_obj_iff.1 h
    have hsame : ∀ m ∈ members, (m.1, m.2.canonical) = m := fun m hm => by
      rw [ih m hm (hmembers m hm)]
    rw [canonical_obj_eq, List.map_congr_left hsame, List.map_id', hascending.ofList_eq]

end Json

end Replica
