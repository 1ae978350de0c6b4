import Replica.Proofs.Analysis.Effect

/-!
# Folding is exact

An operation that two are folded into leads where they lead in order (`Takes.fold`), and it misses a
required target where one of them does (`requiresMatch_fold`, `requiresMatch_of_next`). Each
statement goes through the rows of the fold table once.
-/

namespace Replica.NetOp

variable {st : Strictness} {first next folded : NetOp} {x y z : Option Json} {doc t : Json}
  {effect : Effect} {required : Bool}

theorem modified?_eq_some {ms : List Modifier} :
    modified? ms doc = some t ↔ Modifier.applyAll ms doc = .ok t := by
  unfold modified?
  cases Modifier.applyAll ms doc <;> simp [Except.toOption]

/-! ## The rows of the table -/

/-- The effect of two operations in order is that of the one after the other. -/
theorem outcome_foldEffects? (h : first.foldEffects? next = some (effect, required))
    (hid : first.id = next.id) (habsent : ∀ doc, first.effect = .insert doc → x = none)
    (hfirst : first.outcome x = .ok y) (hnext : next.outcome y = .ok z) :
    (⟨first.id, effect, required⟩ : NetOp).outcome x = .ok z := by
  unfold outcome at *
  revert h
  fun_cases foldEffects? first next <;> intro h
  all_goals
    cases x <;> grind [modified?_eq_some, map_some_eq_ok, Option.map_eq_some_iff,
      Modifier.applyAll_append, Except.bind, Except.map]

/-- What two operations in order require is there if each finds what it requires. -/
theorem present_foldEffects? (h : first.foldEffects? next = some (effect, required))
    (houtcome : first.outcome x = .ok y) (hfirst : first.requiresMatch = true → x ≠ none)
    (hnext : next.requiresMatch = true → y ≠ none) (hrequired : required = true) : x ≠ none := by
  revert h
  fun_cases foldEffects? first next <;> intro h
  all_goals cases x <;> grind [outcome, Option.map_eq_some_iff]

/-- Only inserts, followed by changes of what they insert, are folded into an insert. -/
theorem insert_foldEffects? (h : first.foldEffects? next = some (.insert doc, required)) :
    (∃ d, first.effect = .insert d) ∨ first.effect = .noop ∧ next.effect = .insert doc := by
  revert h
  fun_cases foldEffects? first next <;> intro h
  all_goals grind [Option.map_eq_some_iff]

/-- A target that the first operation requires stays required. -/
theorem required_foldEffects? (h : first.foldEffects? next = some (effect, required))
    (hfirst : first.WellFormed) (hr : first.requiresMatch = true) : required = true := by
  have hnoop := hfirst.noop
  revert h
  fun_cases foldEffects? first next <;> intro h
  all_goals grind [Option.map_eq_some_iff]

/-- A target that the second operation requires stays required if the first leaves none, and then
there is none for both. -/
theorem required_foldEffects?_of_next (h : first.foldEffects? next = some (effect, required))
    (hfirst : first.outcome x = .ok none) (hnext : next.Fresh) (hr : next.requiresMatch = true) :
    required = true ∧ x = none := by
  have hinsert := hnext.wellFormed.insert
  have hnoop := hnext.ne_noop
  have hcreates := hnext.creates
  have hupserts := hnext.upserts
  revert h
  fun_cases foldEffects? first next <;> intro h
  all_goals cases x <;> grind [outcome, map_some_eq_ok, Option.map_eq_some_iff]

/-- Two well-formed operations have a well-formed effect in order. -/
theorem wellFormed_foldEffects? (h : first.foldEffects? next = some (effect, required))
    (hid : first.id = next.id) (hfirst : first.WellFormed) (hnext : next.WellFormed) :
    (⟨first.id, effect, required⟩ : NetOp).WellFormed := by
  have hkey : first.key = next.key := by rw [key, key, hid]
  have hbare := ofDocument_bareDocument hfirst.id_ne_null
  -- Documents that are modified at once carry the key of what they were made of.
  have hkeyed := @Modifier.ofDocument_applyAll
  revert h
  fun_cases foldEffects? first next <;> intro h
  all_goals
    refine ⟨hfirst.id_ne_null, ?_, ?_, ?_, ?_⟩ <;>
      grind [WellFormed, Option.map_eq_some_iff, modified?_eq_some, key]

/-! ## Folded operations -/

/-- Operations with one key have one identifier. -/
theorem id_eq_of_key (h : first.key = next.key) : first.id = next.id := DocKey.ofId_injective h

theorem fold?_eq_some : first.fold? next = some folded ↔
    first.foldEffects? next = some (folded.effect, folded.requiresMatch) ∧
      folded.id = first.id := by
  unfold fold?
  rw [Option.map_eq_some_iff]
  constructor
  · rintro ⟨⟨effect, required⟩, h, rfl⟩
    exact ⟨h, rfl⟩
  · rintro ⟨h, hid⟩
    exact ⟨_, h, by rw [← hid]⟩

/-- The folded operation is about the same document. -/
theorem key_fold (h : first.fold? next = some folded) : folded.key = first.key := by
  rw [key, key, (fold?_eq_some.1 h).2]

/-- The folded operation leads where the two operations lead in order. -/
theorem Takes.fold (h : first.fold? next = some folded) (hkey : first.key = next.key)
    (hfirst : first.Takes st x y) (hnext : next.Takes st y z) : folded.Takes st x z := by
  obtain ⟨hfold, hid⟩ := fold?_eq_some.1 h
  refine ⟨fun hst => ?_, fun doc hdoc => ?_, ?_⟩
  · exact present_foldEffects? hfold hfirst.outcome (hfirst.present hst) (hnext.present hst)
  · rw [hdoc] at hfold
    rcases insert_foldEffects? hfold with ⟨d, hd⟩ | ⟨hnoop, hins⟩
    · exact hfirst.absent d hd
    · -- What does nothing leaves what it finds, so the second operation finds it.
      have houtcome := hfirst.outcome
      unfold NetOp.outcome at houtcome
      rw [hnoop] at houtcome
      rw [Except.ok.inj houtcome]
      exact hnext.absent doc hins
  · have houtcome := outcome_foldEffects? hfold (id_eq_of_key hkey) hfirst.absent hfirst.outcome
      hnext.outcome
    rwa [← hid] at houtcome

/-- The folded operation is well-formed if the two operations are. -/
theorem WellFormed.fold (h : first.fold? next = some folded) (hkey : first.key = next.key)
    (hfirst : first.WellFormed) (hnext : next.WellFormed) : folded.WellFormed := by
  obtain ⟨hfold, hid⟩ := fold?_eq_some.1 h
  have hwf := wellFormed_foldEffects? hfold (id_eq_of_key hkey) hfirst hnext
  rwa [← hid] at hwf

/-- The folded operation requires its target if the first operation does. -/
theorem requiresMatch_fold (h : first.fold? next = some folded) (hfirst : first.WellFormed)
    (hr : first.requiresMatch = true) : folded.requiresMatch = true :=
  required_foldEffects? (fold?_eq_some.1 h).1 hfirst hr

/-- The folded operation requires its target, which is missing, if the second operation requires
one and the first leaves none. -/
theorem requiresMatch_of_next (h : first.fold? next = some folded)
    (hfirst : first.Takes st x none) (hnext : next.Fresh) (hr : next.requiresMatch = true) :
    folded.requiresMatch = true ∧ x = none :=
  required_foldEffects?_of_next (fold?_eq_some.1 h).1 hfirst.outcome hnext hr

end Replica.NetOp
