/-!
# Ascending association lists

A finite map is written down as the list of its bindings in ascending order of their keys. This
module has the three operations on such lists, `get?`, `put` and `erase`, and what each does to a
look-up: `get?_put` and `get?_erase`. These two hold for every list. Order matters in one place
only: two ascending lists with the same look-ups are the same list (`ext`), and `put` and `erase`
keep a list ascending.
-/

namespace Replica.Assoc

variable {κ : Type u} {α : Type v}

/-- The value that the first binding of `k` holds. -/
def get? [DecidableEq κ] (k : κ) : List (κ × α) → Option α
  | [] => none
  | (k', v) :: r => if k = k' then some v else get? k r

/-- Binds `k` to `v`: in the place of the binding of `k` if there is one, and otherwise before the
first greater key. -/
def put [DecidableEq κ] [LT κ] [DecidableLT κ] (k : κ) (v : α) : List (κ × α) → List (κ × α)
  | [] => [(k, v)]
  | (k', v') :: r =>
    if k = k' then (k, v) :: r
    else if k < k' then (k, v) :: (k', v') :: r
    else (k', v') :: put k v r

/-- Removes every binding of `k`. -/
def erase [DecidableEq κ] (k : κ) (l : List (κ × α)) : List (κ × α) :=
  l.filter fun b => b.1 ≠ k

/-- The keys ascend strictly, so none occurs twice. -/
def Ascending [LT κ] (l : List (κ × α)) : Prop :=
  l.Pairwise fun a b => a.1 < b.1

/-- Binds the keys of a list one after another, so the last binding of a key counts. -/
def ofList [DecidableEq κ] [LT κ] [DecidableLT κ] (l : List (κ × α)) : List (κ × α) :=
  l.foldl (fun m b => put b.1 b.2 m) []

section Lookup

variable [DecidableEq κ]

@[simp] theorem get?_nil (k : κ) : get? k ([] : List (κ × α)) = none := rfl

/-- A look-up after a `put` finds the new value at its key and the former ones elsewhere. -/
theorem get?_put [LT κ] [DecidableLT κ] (k j : κ) (v : α) (l : List (κ × α)) :
    get? j (put k v l) = if j = k then some v else get? j l := by
  induction l with
  | nil => simp [put, get?]
  | cons b r ih => grind [put, get?]

/-- A look-up after an `erase` finds nothing at its key and the former values elsewhere. -/
theorem get?_erase (k j : κ) (l : List (κ × α)) :
    get? j (erase k l) = if j = k then none else get? j l := by
  induction l with
  | nil => simp [erase, get?]
  | cons b r ih => grind [erase, get?]

/-- A key is found exactly when it is among the keys of the list. -/
theorem get?_isSome (k : κ) (l : List (κ × α)) : (get? k l).isSome ↔ k ∈ l.map Prod.fst := by
  induction l with
  | nil => simp [get?]
  | cons b r ih => grind [get?]

/-- What is found is bound in the list. -/
theorem mem_of_get? {k : κ} {v : α} {l : List (κ × α)} (h : get? k l = some v) : (k, v) ∈ l := by
  induction l with
  | nil => simp [get?] at h
  | cons b r ih => grind [get?]

end Lookup

section Order

variable [DecidableEq κ] [LE κ] [LT κ] [DecidableLT κ] [Std.IsLinearOrder κ]
  [Std.LawfulOrderLT κ]

omit [DecidableLT κ] in
/-- In an ascending list every binding is found. -/
theorem Ascending.get?_eq_some {l : List (κ × α)} (h : Ascending l) {k : κ} {v : α}
    (hm : (k, v) ∈ l) : get? k l = some v := by
  induction l with
  | nil => simp at hm
  | cons b r ih => grind [get?, Ascending, List.pairwise_cons]

omit [LE κ] [Std.IsLinearOrder κ] [Std.LawfulOrderLT κ] in
/-- A binding after a `put` is the new one or a former one. -/
theorem mem_put {k : κ} {v : α} {l : List (κ × α)} {b : κ × α} (h : b ∈ put k v l) :
    b = (k, v) ∨ b ∈ l := by
  induction l with
  | nil => simpa [put] using h
  | cons c r ih => grind [put]

/-- `put` keeps a list ascending. -/
theorem Ascending.put {l : List (κ × α)} (h : Ascending l) (k : κ) (v : α) :
    Ascending (put k v l) := by
  induction l with
  | nil => simp [Assoc.put, Ascending]
  | cons b r ih =>
    have hr : Ascending r := (List.pairwise_cons.1 h).2
    have hb : ∀ c ∈ r, b.1 < c.1 := (List.pairwise_cons.1 h).1
    simp only [Assoc.put]
    split
    · exact List.pairwise_cons.2 ⟨fun c hc => by grind, hr⟩
    · split
      · refine List.pairwise_cons.2 ⟨fun c hc => ?_, h⟩
        rcases List.mem_cons.1 hc with rfl | hc
        · assumption
        · have := hb c hc
          grind
      · refine List.pairwise_cons.2 ⟨fun c hc => ?_, ih hr⟩
        rcases mem_put hc with rfl | hc
        · grind
        · exact hb c hc

omit [DecidableLT κ] [LE κ] [Std.IsLinearOrder κ] [Std.LawfulOrderLT κ] in
/-- `erase` keeps a list ascending. -/
theorem Ascending.erase {l : List (κ × α)} (h : Ascending l) (k : κ) : Ascending (erase k l) :=
  List.Pairwise.filter _ h

/-- A list built binding by binding is ascending. -/
theorem ascending_ofList (l : List (κ × α)) : Ascending (ofList l) := by
  suffices h : ∀ m : List (κ × α), Ascending m →
      Ascending (l.foldl (fun m b => Assoc.put b.1 b.2 m) m) from h [] List.Pairwise.nil
  induction l with
  | nil => exact fun m h => h
  | cons b r ih => exact fun m h => ih _ (h.put _ _)

omit [DecidableLT κ] in
/-- Two ascending lists with the same look-ups are the same list. -/
theorem ext {l m : List (κ × α)} (hl : Ascending l) (hm : Ascending m)
    (h : ∀ k, get? k l = get? k m) : l = m := by
  induction l generalizing m with
  | nil =>
    cases m with
    | nil => rfl
    | cons c s => simpa [get?] using h c.1
  | cons b r ih =>
    cases m with
    | nil => simpa [get?] using h b.1
    | cons c s =>
      obtain ⟨hb, hr⟩ := List.pairwise_cons.1 hl
      obtain ⟨hc, hs⟩ := List.pairwise_cons.1 hm
      have hbc : b.1 = c.1 := by
        have h1 := mem_of_get? (l := c :: s) (k := b.1) (v := b.2) (by rw [← h]; simp [get?])
        have h2 := mem_of_get? (l := b :: r) (k := c.1) (v := c.2) (by rw [h]; simp [get?])
        grind
      have hv : b.2 = c.2 := by simpa [get?, hbc] using h b.1
      have hbc' : b = c := Prod.ext hbc hv
      subst hbc'
      congr 1
      refine ih hr hs fun k => ?_
      by_cases hk : k = b.1
      · subst hk
        have h1 : get? b.1 r = none := by
          cases hg : get? b.1 r with
          | none => rfl
          | some v => exact absurd (hb _ (mem_of_get? hg)) (Std.lt_irrefl)
        have h2 : get? b.1 s = none := by
          cases hg : get? b.1 s with
          | none => rfl
          | some v => exact absurd (hc _ (mem_of_get? hg)) (Std.lt_irrefl)
        rw [h1, h2]
      · simpa [get?, hk] using h k

end Order

end Replica.Assoc
