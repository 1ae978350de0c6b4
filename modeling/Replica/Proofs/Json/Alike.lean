import Replica.Proofs.Json.Canonical
import Replica.Proofs.Json.Unambiguous

/-!
# Values that are alike

Two values are alike if they have the same structure, the same texts and the same numbers, and if
their objects have the same members, in whatever order these are written. That is so exactly if the
values have the same canonical form (`alike_iff`), and canonical values are alike only if they are
equal (`Canonical.alike_iff`). So two identifiers have keys with the same text exactly if they are
alike (`DocKey.text_eq_iff_alike`).
-/

namespace Replica

/-- Lists are related item by item exactly if their images are equal, where the relation says of the
items of the first one that their images are equal. -/
theorem forall₂_iff_map_eq {α : Type u} {β : Type v} {R : α → α → Prop} {f : α → β} {l m : List α}
    (h : ∀ a ∈ l, ∀ b, R a b ↔ f a = f b) : List.Forall₂ R l m ↔ l.map f = m.map f := by
  induction l generalizing m with
  | nil => simp [eq_comm]
  | cons a l ih =>
    cases m with
    | nil => simp
    | cons b m =>
      rw [List.forall₂_cons, h a List.mem_cons_self b,
        ih fun c hc => h c (List.mem_cons_of_mem _ hc), List.map_cons, List.map_cons,
        List.cons.injEq]

/-- What may be missing is related exactly if the images are equal, where the relation says that of
what is there. -/
theorem rel_iff_map_eq {α : Type u} {β : Type v} {R : α → α → Prop} {f : α → β} {x y : Option α}
    (h : ∀ a, x = some a → ∀ b, R a b ↔ f a = f b) : Option.Rel R x y ↔ x.map f = y.map f := by
  cases x with
  | none => cases y <;> simp
  | some a =>
    cases y with
    | none => simp
    | some b => simp [h a rfl b]

namespace Json

/-- What counts for a key of an object whose members are written in any order: its last binding. -/
def bound? (key : String) (members : Members) : Option Json := Assoc.get? key members.reverse

/-- Two values say the same. Lists agree item by item, and objects in what counts for every key.
Numbers agree if they are both integers or both floating-point numbers and have the same text. -/
inductive Alike : Json → Json → Prop where
  | null : Alike null null
  | bool (b : Bool) : Alike (bool b) (bool b)
  | int {m n : Int} (text : (int m).render = (int n).render) : Alike (int m) (int n)
  | float {x y : Binary64} (text : (float x).render = (float y).render) : Alike (float x) (float y)
  | str (s : String) : Alike (str s) (str s)
  | arr {xs ys : List Json} (items : List.Forall₂ Alike xs ys) : Alike (arr xs) (arr ys)
  | obj {ms ns : Members} (members : ∀ key, Option.Rel Alike (bound? key ms) (bound? key ns)) :
      Alike (obj ms) (obj ns)

theorem alike_arr {xs ys : List Json} : (arr xs).Alike (arr ys) ↔ List.Forall₂ Alike xs ys := by
  constructor
  · intro h
    cases h with
    | arr items => exact items
  · exact .arr

theorem alike_obj {ms ns : Members} : (obj ms).Alike (obj ns) ↔
    ∀ key, Option.Rel Alike (bound? key ms) (bound? key ns) := by
  constructor
  · intro h
    cases h with
    | obj members => exact members
  · exact .obj

/-- Objects have the same canonical form exactly if what counts for each key has. -/
theorem canonical_obj_inj {ms ns : Members} : (obj ms).canonical = (obj ns).canonical ↔
    ∀ key, (bound? key ms).map canonical = (bound? key ns).map canonical := by
  rw [canonical_obj_eq, canonical_obj_eq, obj.injEq]
  simp only [bound?, ← get?_canonical]
  exact ⟨fun h key => congrArg (Assoc.get? key) h,
    Assoc.ext (Assoc.ascending_ofList _) (Assoc.ascending_ofList _)⟩

/-- Two values are alike exactly if they have the same canonical form. -/
theorem alike_iff {a b : Json} : a.Alike b ↔ a.canonical = b.canonical := by
  induction a using inductionOn generalizing b with
  | null =>
    cases b with
    | null => exact iff_of_true .null rfl
    | _ => exact iff_of_false (by rintro ⟨⟩) (by simp [canonical])
  | bool p =>
    cases b with
    | bool q =>
      constructor
      · rintro ⟨⟩
        rfl
      · intro h
        exact bool.inj h ▸ .bool p
    | _ => exact iff_of_false (by rintro ⟨⟩) (by simp [canonical])
  | int m =>
    cases b with
    | int n =>
      constructor
      · intro h
        cases h with
        | int text => exact render_injective text
      · intro h
        exact .int (congrArg render h)
    | _ => exact iff_of_false (by rintro ⟨⟩) (by simp [canonical])
  | float x =>
    cases b with
    | float y =>
      constructor
      · intro h
        cases h with
        | float text => exact render_injective text
      · intro h
        exact .float (congrArg render h)
    | _ => exact iff_of_false (by rintro ⟨⟩) (by simp [canonical])
  | str s =>
    cases b with
    | str t =>
      constructor
      · rintro ⟨⟩
        rfl
      · intro h
        exact str.inj h ▸ .str s
    | _ => exact iff_of_false (by rintro ⟨⟩) (by simp [canonical])
  | arr xs ih =>
    cases b with
    | arr ys =>
      rw [alike_arr, canonical_arr, canonical_arr, arr.injEq]
      exact forall₂_iff_map_eq fun x hx _ => ih x hx
    | _ => exact iff_of_false (by rintro ⟨⟩) (by simp [canonical])
  | obj ms ih =>
    cases b with
    | obj ns =>
      rw [alike_obj, canonical_obj_inj]
      -- What counts for a key is one of the members, so the induction hypothesis is about it.
      refine forall_congr' fun key => rel_iff_map_eq fun x hx _ => ?_
      exact ih (key, x) (List.mem_reverse.1 (Assoc.mem_of_get? hx))
    | _ => exact iff_of_false (by rintro ⟨⟩) (by simp [canonical])

-- Members may be written in any order, and the order of items counts.
example : (obj [("b", .arr [.null, .int 1]), ("a", .str "x")]).Alike
    (.obj [("a", .str "x"), ("b", .arr [.null, .int 1])]) := by
  rw [alike_iff]
  decide

example : ¬ (arr [.null, .int 1]).Alike (.arr [.int 1, .null]) := by
  rw [alike_iff]
  decide

/-- Canonical values are alike only if they are equal. -/
theorem Canonical.alike_iff {a b : Json} (ha : a.Canonical) (hb : b.Canonical) :
    a.Alike b ↔ a = b := by
  rw [Json.alike_iff, ha.canonical_eq, hb.canonical_eq]

end Json

namespace DocKey

/-- The keys of two identifiers have the same text exactly if the identifiers are alike. -/
theorem text_eq_iff_alike (a b : Json) :
    (ofId a.canonical).text = (ofId b.canonical).text ↔ a.Alike b := by
  rw [Json.alike_iff]
  exact ⟨fun h => Json.render_injective h, fun h => by rw [h]⟩

end DocKey

end Replica
