import Replica.Proofs.Update.Replay

/-!
# What is in the way of a modifier

A value cannot be set at a path some key of which, before its last, holds something other than an
object (`setAt_eq_none`). Modifiers that can be applied to one document can be applied to every
other one that has nothing in the way of the paths they set (`exists_obstructed`). They may well
meet an obstacle of their own making; but what they make does not depend on where they start, so
this obstacle would be met in both documents.
-/

namespace Replica

/-- Some key of a path before its last leads to something other than an object. -/
def Json.Obstructs (value : Json) (path : List String) : Prop :=
  ∃ before rest held, path = before ++ rest ∧ rest ≠ [] ∧ value.follow? before = some held ∧
    ∀ members, held ≠ .obj members

namespace Json

variable {value held : Json} {members : Members} {key : String} {path : List String}

theorem not_obstructs_nil : ¬ value.Obstructs [] := by
  rintro ⟨before, rest, held, hpath, hrest, -⟩
  exact hrest (List.append_eq_nil_iff.1 hpath.symm).2

/-- What is no object is in the way itself. -/
theorem obstructs_of_not_obj (hvalue : ∀ members, value ≠ .obj members) (hpath : path ≠ []) :
    value.Obstructs path :=
  ⟨[], path, value, rfl, hpath, rfl, hvalue⟩

/-- In an object the obstacle is in what the first key holds. -/
theorem obstructs_cons : (obj members).Obstructs (key :: path) ↔
    ∃ held, Assoc.get? key members = some held ∧ held.Obstructs path := by
  constructor
  · rintro ⟨before, rest, last, hpath, hrest, hfollow, hlast⟩
    cases before with
    | nil =>
      obtain rfl := Option.some.inj hfollow
      exact absurd rfl (hlast members)
    | cons k before =>
      obtain ⟨rfl, rfl⟩ := List.cons.inj hpath
      obtain ⟨held, hheld, hfollow⟩ := Option.bind_eq_some_iff.1 hfollow
      exact ⟨held, hheld, before, rest, last, rfl, hrest, hfollow, hlast⟩
  · rintro ⟨held, hheld, before, rest, last, rfl, hrest, hfollow, hlast⟩
    exact ⟨key :: before, rest, last, rfl, hrest, Option.bind_eq_some_iff.2 ⟨held, hheld, hfollow⟩,
      hlast⟩

theorem not_obstructs_empty : ¬ (obj []).Obstructs path := by
  cases path with
  | nil => exact not_obstructs_nil
  | cons key path =>
    rw [obstructs_cons]
    rintro ⟨held, hheld, -⟩
    cases hheld

end Json

namespace Change

variable {chs : List Change} {m m' n n' inner : Json.Members} {slot slot' : Option Json}
  {path : List String}

/-- Removing fields of the empty object leaves it empty. -/
theorem run_empty (h : ∀ ch ∈ chs, ch.value = none) : run chs [] = some [] := by
  induction chs with
  | nil => rfl
  | cons ch chs ih =>
    have happly : ch.apply [] = some [] := by
      unfold apply
      rw [h ch List.mem_cons_self]
      exact congrArg some (unsetAt_nil ch.path)
    rw [run, happly]
    exact ih fun c hc => h c (List.mem_cons_of_mem _ hc)

/-- The members of the object that a key holds, none if it holds nothing. -/
def Inside (slot : Option Json) (inner : Json.Members) : Prop :=
  slot = none ∧ inner = [] ∨ slot = some (.obj inner)

/-- Changes below a key that holds an object or nothing are changes of its members. -/
theorem Inside.runSlot (hslot : Inside slot inner) (hpaths : ∀ ch ∈ chs, ch.path ≠ [])
    (h : runSlot chs slot = some slot') : ∃ inner', run chs inner = some inner' ∧
      Inside slot' inner' := by
  rcases hslot with ⟨rfl, rfl⟩ | rfl
  · rcases runSlot_none hpaths h with ⟨rfl, hnone⟩ | ⟨inner', hrun, rfl⟩
    · exact ⟨[], run_empty hnone, .inl ⟨rfl, rfl⟩⟩
    · exact ⟨inner', hrun, .inr rfl⟩
  · rw [runSlot_obj hpaths] at h
    obtain ⟨inner', hrun, rfl⟩ := Option.map_eq_some_iff.1 h
    exact ⟨inner', hrun, .inr rfl⟩

/-- What is in the way below a key is in the way in the members that it holds. -/
theorem Inside.obstructs_iff (hslot : Inside slot inner) :
    (∃ held, slot = some held ∧ held.Obstructs path) ↔ (Json.obj inner).Obstructs path := by
  rcases hslot with ⟨rfl, rfl⟩ | rfl
  · exact iff_of_false (fun ⟨_, hheld, _⟩ => nomatch hheld) Json.not_obstructs_empty
  · constructor
    · rintro ⟨held, hheld, hobstructs⟩
      exact Option.some.inj hheld ▸ hobstructs
    · exact fun hobstructs => ⟨_, rfl, hobstructs⟩

/-- A key holds members or something other than an object. -/
theorem inside_or_other (slot : Option Json) : (∃ inner, Inside slot inner) ∨
    ∃ other, slot = some other ∧ ∀ inner, other ≠ .obj inner := by
  rcases slot with _ | held
  · exact .inl ⟨[], .inl ⟨rfl, rfl⟩⟩
  · by_cases hheld : ∃ inner, held = .obj inner
    · obtain ⟨inner, rfl⟩ := hheld
      exact .inl ⟨inner, .inr rfl⟩
    · exact .inr ⟨held, rfl, fun inner heq => hheld ⟨inner, heq⟩⟩

/-- Where changes leave something in the way of a path, it was there before, or they leave something
in the way of it wherever they start. -/
theorem obstructs_of_run (hm : run chs m = some m') (hn : run chs n = some n')
    (h : (Json.obj n').Obstructs path) :
    (Json.obj n).Obstructs path ∨ (Json.obj m').Obstructs path := by
  induction path generalizing chs m m' n n' with
  | nil => exact absurd h Json.not_obstructs_nil
  | cons key path ih =>
    rw [Json.obstructs_cons] at h ⊢
    rw [Json.obstructs_cons]
    have hslot := get?_run hm key
    have hslot' := get?_run hn key
    by_cases hpaths : ∀ ch ∈ chs.filterMap (below? key), ch.path ≠ []
    · rcases inside_or_other (Assoc.get? key n) with ⟨inner, hinner⟩ | ⟨other, hget, hother⟩
      · obtain ⟨inner', hrun, hinner'⟩ := hinner.runSlot hpaths hslot'
        rw [hinner'.obstructs_iff] at h
        rcases inside_or_other (Assoc.get? key m) with ⟨start, hstart⟩ | ⟨other, hget, hother⟩
        · -- Both keys hold members, so the changes below the key are made in both.
          obtain ⟨start', hrun', hstart'⟩ := hstart.runSlot hpaths hslot
          rw [hinner.obstructs_iff, hstart'.obstructs_iff]
          exact ih hrun' hrun h
        · rw [hget] at hslot
          have hpath : path ≠ [] := fun heq => Json.not_obstructs_nil (heq ▸ h)
          exact .inr ⟨other, runSlot_other hother hpaths hslot,
            Json.obstructs_of_not_obj hother hpath⟩
      · rw [hget] at hslot'
        rw [runSlot_other hother hpaths hslot'] at h
        exact .inl (by rwa [hget])
    · -- The key itself is set or removed, and then it holds the same in both.
      push Not at hpaths
      rw [runSlot_congr hpaths hslot hslot'] at h
      exact .inr h

end Change

namespace Modifier

variable {ms : List Modifier} {members : Json.Members} {path : List String} {value doc t : Json}
  {e : EntryError}

/-- A value can be set at a path exactly when nothing is in the way. -/
theorem setAt_eq_none :
    (setAt value path members).2 = none ↔ ¬ (Json.obj members).Obstructs path := by
  induction path generalizing members with
  | nil => exact iff_of_true rfl Json.not_obstructs_nil
  | cons key path ih =>
    rw [Json.obstructs_cons]
    cases path with
    | nil => exact iff_of_true rfl fun ⟨_, _, hobstructs⟩ => Json.not_obstructs_nil hobstructs
    | cons p ps =>
      rw [setAt_cons]
      cases hget : Assoc.get? key members with
      | none =>
        refine iff_of_true ?_ fun ⟨_, hheld, _⟩ => nomatch hheld
        exact ih.2 Json.not_obstructs_empty
      | some held =>
        by_cases hheld : ∃ inner, held = .obj inner
        · obtain ⟨inner, rfl⟩ := hheld
          simp only [Option.some.injEq, exists_eq_left']
          exact ih
        · have hother : ∀ inner, held ≠ .obj inner := fun inner heq => hheld ⟨inner, heq⟩
          refine iff_of_false ?_ fun hclear =>
            hclear ⟨held, rfl, Json.obstructs_of_not_obj hother (List.cons_ne_nil _ _)⟩
          cases held with
          | obj inner => exact absurd rfl (hother inner)
          | _ => exact fun hnone => nomatch hnone

/-- Modifiers fail at one that sets a value where something is in the way. -/
theorem runAll_eq_error (h : runAll ms members = .error e) :
    ∃ before path value after mid reason, ms = before ++ .set path value :: after ∧
      runAll before members = .ok mid ∧ (Json.obj mid).Obstructs (pathSegments path) ∧
      e = .typeMismatch path reason := by
  induction ms generalizing members with
  | nil => cases h
  | cons m ms ih =>
    rw [runAll] at h
    rcases hstep : m.step members with ⟨mid, _ | e'⟩
    · rw [hstep] at h
      obtain ⟨before, path, value, after, last, reason, rfl, hrun, hobstructs, rfl⟩ := ih h
      exact ⟨m :: before, path, value, after, last, reason, rfl, by rw [runAll, hstep]; exact hrun,
        hobstructs, rfl⟩
    · rw [hstep] at h
      obtain rfl := Except.error.inj h
      cases m with
      | unset path => cases congrArg Prod.snd hstep
      | set path value =>
        rw [step] at hstep
        split at hstep
        · cases congrArg Prod.snd hstep
        · rename_i last key found hset
          refine ⟨[], path, value, ms, members, _, rfl, rfl, ?_,
            (Option.some.inj (congrArg Prod.snd hstep)).symm⟩
          by_contra hclear
          have hnone : (setAt value (pathSegments path) members).2 = none := setAt_eq_none.2 hclear
          rw [hset] at hnone
          cases hnone

/-- Modifiers that can be applied to one document can be applied to another object, unless that has
something in the way of a path that they set. -/
theorem exists_obstructed (h : applyAll ms doc = .ok t)
    (h' : applyAll ms (.obj members) = .error e) : ∃ path value reason, .set path value ∈ ms ∧
      (Json.obj members).Obstructs (pathSegments path) ∧ e = .typeMismatch path reason := by
  have hrun' : runAll ms members = .error e := by
    rw [applyAll] at h'
    cases hrun : runAll ms members with
    | error e' =>
      rw [hrun] at h'
      exact congrArg _ (Except.error.inj h')
    | ok _ =>
      rw [hrun] at h'
      cases h'
  obtain ⟨before, path, value, after, mid, reason, rfl, hmid, hobstructs, rfl⟩ :=
    runAll_eq_error hrun'
  refine ⟨path, value, reason, List.mem_append_right _ List.mem_cons_self, ?_, rfl⟩
  -- The first document lets the modifiers up to this one pass, and this one, too.
  obtain ⟨start, _, rfl, -, hrun⟩ := applyAll_eq_ok.1 h
  rw [runAll_append] at hrun
  obtain ⟨first, hfirst, hrun⟩ := bind_eq_ok hrun
  rcases Change.obstructs_of_run (run_change hfirst) (run_change hmid) hobstructs with
    hthere | hmade
  · exact hthere
  · exfalso
    rw [runAll, step] at hrun
    rcases hset : setAt value (pathSegments path) first with ⟨last, _ | obstacle⟩
    · exact setAt_eq_none.1 (congrArg Prod.snd hset) hmade
    · rw [hset] at hrun
      cases hrun

end Modifier

end Replica
