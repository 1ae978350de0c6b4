import Mathlib

/-!
# Computations that can fail

What is known of the steps of a computation that delivers something, and of the items of a list that
a computation maps.
-/

namespace Replica

/-- What a computation in two steps delivers is delivered by its second step. -/
theorem bind_eq_ok {ε : Type u} {α β : Type v} {x : Except ε α} {f : α → Except ε β} {b : β}
    (h : (x >>= f) = .ok b) : ∃ a, x = .ok a ∧ f a = .ok b := by
  cases x with
  | error e => cases h
  | ok a => exact ⟨a, rfl, h⟩

/-- What is delivered may be changed, and a failure stays. -/
theorem map_eq_error {ε : Type u} {α β : Type v} {x : Except ε α} {f : α → β} {e : ε} :
    x.map f = .error e ↔ x = .error e := by
  cases x <;> simp [Except.map]

/-- Checks of a list succeed exactly if each item passes. -/
theorem forM_eq_ok {ε : Type u} {α : Type v} {f : α → Except ε PUnit} {l : List α} :
    forM l f = .ok ⟨⟩ ↔ ∀ a ∈ l, f a = .ok ⟨⟩ := by
  induction l with
  | nil => simp [pure, Except.pure]
  | cons a l ih =>
    rw [List.forall_mem_cons, ← ih, List.forM_cons]
    cases f a <;> simp [bind, Except.bind]

/-- A mapping delivers what is delivered item by item. -/
theorem mapM_eq_ok {ε : Type u} {α β : Type v} {f : α → Except ε β} {l : List α} {r : List β} :
    l.mapM f = .ok r ↔ l.map f = r.map .ok := by
  induction l generalizing r with
  | nil => cases r <;> simp [pure, Except.pure]
  | cons a l ih =>
    rw [List.mapM_cons]
    constructor
    · intro h
      obtain ⟨c, hc, h⟩ := bind_eq_ok h
      obtain ⟨cs, hcs, h⟩ := bind_eq_ok h
      obtain rfl := Except.ok.inj h
      rw [List.map_cons, hc, ih.1 hcs, List.map_cons]
    · intro h
      cases r with
      | nil => cases h
      | cons c cs =>
        obtain ⟨hc, hcs⟩ := List.cons.inj h
        rw [hc, ih.2 hcs]
        rfl

/-- A mapping that delivers for each item what a function says, and this exactly where a condition
holds, delivers what the function says of all items exactly if the condition holds of them. -/
theorem mapM_eq_ok_iff {ε : Type u} {α β : Type v} {f : α → Except ε β} {P : α → Prop} {g : α → β}
    {l : List α} {r : List β} (h : ∀ a ∈ l, ∀ b, f a = .ok b ↔ P a ∧ b = g a) :
    l.mapM f = .ok r ↔ (∀ a ∈ l, P a) ∧ r = l.map g := by
  rw [mapM_eq_ok]
  induction l generalizing r with
  | nil => simp [eq_comm]
  | cons a l ih =>
    cases r with
    | nil => simp
    | cons b r =>
      rw [List.map_cons, List.map_cons, List.cons.injEq, h a List.mem_cons_self,
        ih fun c hc => h c (List.mem_cons_of_mem _ hc), List.forall_mem_cons, List.map_cons,
        List.cons.injEq]
      tauto

/-- What a mapping delivers for a list, it delivers for each of its items. -/
theorem exists_of_mem_of_mapM {ε : Type u} {α β : Type v} {f : α → Except ε β} {l : List α}
    {r : List β} (h : l.mapM f = .ok r) {a : α} (ha : a ∈ l) : ∃ b ∈ r, f a = .ok b := by
  have hmem : f a ∈ r.map .ok := mapM_eq_ok.1 h ▸ List.mem_map.2 ⟨a, ha, rfl⟩
  obtain ⟨b, hb, heq⟩ := List.mem_map.1 hmem
  exact ⟨b, hb, heq.symm⟩

/-- What a mapping delivers is delivered for some item. -/
theorem exists_of_mapM {ε : Type u} {α β : Type v} {f : α → Except ε β} {l : List α} {r : List β}
    (h : l.mapM f = .ok r) {b : β} (hb : b ∈ r) : ∃ a ∈ l, f a = .ok b := by
  have hmem : Except.ok b ∈ l.map f := by
    rw [mapM_eq_ok.1 h]
    exact List.mem_map.2 ⟨b, hb, rfl⟩
  exact List.mem_map.1 hmem

/-- What holds between the items of a list holds between what they deliver. -/
theorem pairwise_of_mapM {ε : Type u} {α β : Type v} {f : α → Except ε β} {l : List α} {r : List β}
    {R : α → α → Prop} {S : β → β → Prop} (h : l.mapM f = .ok r) (hl : l.Pairwise R)
    (hf : ∀ a a' b b', R a a' → f a = .ok b → f a' = .ok b' → S b b') : r.Pairwise S := by
  induction l generalizing r with
  | nil =>
    obtain rfl := Except.ok.inj h
    exact .nil
  | cons a l ih =>
    obtain ⟨hfirst, hl⟩ := List.pairwise_cons.1 hl
    rw [List.mapM_cons] at h
    obtain ⟨b, hb, h⟩ := bind_eq_ok h
    obtain ⟨bs, hbs, h⟩ := bind_eq_ok h
    obtain rfl := Except.ok.inj h
    refine List.pairwise_cons.2 ⟨fun b' hb' => ?_, ih hbs hl⟩
    obtain ⟨a', ha', hb'⟩ := exists_of_mapM hbs hb'
    exact hf a a' b b' (hfirst a' ha') hb hb'

/-- Behind an item for which it delivers something, a mapping fails as it does without the item. -/
theorem mapM_cons_eq_error {ε : Type u} {α β : Type v} {f : α → Except ε β} {l : List α} {e : ε}
    {a : α} {b : β} (h : f a = .ok b) : (a :: l).mapM f = .error e ↔ l.mapM f = .error e := by
  rw [List.mapM_cons, h]
  cases l.mapM f <;> simp [bind, Except.bind, pure, Except.pure]

/-- A mapping that fails does so at the first item where it does. -/
theorem first_of_mapM_eq_error {ε : Type u} {α β : Type v} {f : α → Except ε β} {l : List α} {e : ε}
    (h : l.mapM f = .error e) : ∃ earlier a later, l = earlier ++ a :: later ∧
      (∀ b ∈ earlier, ∃ c, f b = .ok c) ∧ f a = .error e := by
  induction l with
  | nil => cases h
  | cons a l ih =>
    rw [List.mapM_cons] at h
    cases ha : f a with
    | error e' =>
      rw [ha] at h
      exact ⟨[], a, l, rfl, fun _ hb => (List.not_mem_nil hb).elim,
        ha.trans (congrArg _ (Except.error.inj h))⟩
    | ok b =>
      rw [ha] at h
      cases hl : l.mapM f with
      | error e' =>
        rw [hl] at h
        obtain ⟨earlier, c, later, rfl, hearlier, hfail⟩ :=
          ih (hl.trans (congrArg _ (Except.error.inj h)))
        exact ⟨a :: earlier, c, later, rfl, List.forall_mem_cons.2 ⟨⟨b, ha⟩, hearlier⟩, hfail⟩
      | ok bs =>
        rw [hl] at h
        cases h

/-- A mapping that fails does so at some item. -/
theorem exists_of_mapM_eq_error {ε : Type u} {α β : Type v} {f : α → Except ε β} {l : List α} {e : ε}
    (h : l.mapM f = .error e) : ∃ a ∈ l, f a = .error e := by
  obtain ⟨earlier, a, later, rfl, -, ha⟩ := first_of_mapM_eq_error h
  exact ⟨a, List.mem_append_right _ List.mem_cons_self, ha⟩

/-- Mappings that agree on the items of a list deliver the same for it. -/
theorem mapM_congr {ε : Type u} {α β : Type v} {f g : α → Except ε β} {l : List α}
    (h : ∀ a ∈ l, f a = g a) : l.mapM f = l.mapM g := by
  induction l with
  | nil => rfl
  | cons a l ih =>
    rw [List.mapM_cons, List.mapM_cons, h a List.mem_cons_self,
      ih fun b hb => h b (List.mem_cons_of_mem _ hb)]

end Replica
