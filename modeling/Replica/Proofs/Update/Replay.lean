import Replica.Proofs.Update.Modifiers

/-!
# Modifiers that are applied again

Modifiers that were applied to a document and are applied to what came of it change nothing, if they
can be applied at all (`applyAll_again`). The proof looks at one key at a time: either some modifier
sets or removes the key itself, and what stands there depends on that modifier and those after it
only; or all of them work below the key, and the statement for shorter paths applies.
-/

namespace Replica

/-- A change of the members of an object at a path: a value is set, or what is there is removed. -/
structure Change where
  /-- The path. -/
  path : List String
  /-- The value that is set, if there is one. -/
  value : Option Json

namespace Change

open Modifier (setAt unsetAt)

variable {ch : Change} {chs chs' : List Change} {members members' members'' inner : Json.Members}
  {key : String} {slot slot' slot'' : Option Json}

/-- What a change makes of members, if nothing is in its way. -/
def apply (ch : Change) (members : Json.Members) : Option Json.Members :=
  match ch.value with
  | some value =>
    match setAt value ch.path members with
    | (members, none) => some members
    | (_, some _) => none
  | none => some (unsetAt ch.path members)

/-- What changes make of members one after another. -/
def run : List Change → Json.Members → Option Json.Members
  | [], members => some members
  | ch :: chs, members => (ch.apply members).bind (run chs)

/-- A change at a path below a key as one of what the key holds. -/
def below? (key : String) (ch : Change) : Option Change :=
  match ch.path with
  | [] => none
  | k :: path => if k = key then some ⟨path, ch.value⟩ else none

/-- What a change makes of what a key holds, nothing standing for a key that is not there. -/
def applySlot (ch : Change) (slot : Option Json) : Option (Option Json) :=
  match ch.path with
  | [] => some ch.value
  | _ :: _ =>
    match slot with
    | none =>
      if ch.value.isSome then (ch.apply []).map fun inner => some (.obj inner) else some none
    | some (.obj inner) => (ch.apply inner).map fun inner => some (.obj inner)
    | some other => if ch.value.isSome then none else some (some other)

/-- What changes make of what a key holds one after another. -/
def runSlot : List Change → Option Json → Option (Option Json)
  | [], slot => some slot
  | ch :: chs, slot => (ch.applySlot slot).bind (runSlot chs)

theorem apply_set {path : List String} {value : Json} :
    apply ⟨path, some value⟩ members = some members' ↔
      (setAt value path members).2 = none ∧ (setAt value path members).1 = members' := by
  unfold apply
  rcases hset : setAt value path members with ⟨m, _ | obstacle⟩ <;> simp [hset]

theorem apply_unset {path : List String} :
    apply ⟨path, none⟩ members = some (unsetAt path members) := rfl

/-! ## One key -/

/-- A change at or below a key changes what the key holds. -/
theorem applySlot_of_apply {path : List String} {value : Option Json}
    (h : apply ⟨key :: path, value⟩ members = some members') :
    applySlot ⟨path, value⟩ (Assoc.get? key members) = some (Assoc.get? key members') := by
  cases value with
  | none =>
    rw [apply_unset, Option.some_inj] at h
    subst h
    cases path with
    | nil => simp [applySlot, unsetAt, Assoc.get?_erase]
    | cons p ps =>
      rw [Modifier.unsetAt_cons]
      unfold applySlot
      cases hget : Assoc.get? key members with
      | none => simp [hget]
      | some held => cases held <;> simp [hget, apply_unset, Assoc.get?_put]
  | some v =>
    obtain ⟨hclear, rfl⟩ := apply_set.1 h
    cases path with
    | nil => simp [applySlot, setAt, Assoc.get?_put]
    | cons p ps =>
      rw [Modifier.setAt_cons] at hclear ⊢
      unfold applySlot
      cases hget : Assoc.get? key members with
      | none =>
        simp only [hget] at hclear
        simp [apply_set.2 ⟨hclear, rfl⟩, Assoc.get?_put]
      | some held =>
        cases held with
        | obj inner =>
          simp only [hget] at hclear
          simp [apply_set.2 ⟨hclear, rfl⟩, Assoc.get?_put]
        | _ => simp [hget] at hclear

/-- What a key holds after a change depends on what it held before. -/
theorem get?_apply (h : ch.apply members = some members') (key : String) :
    match ch.below? key with
    | none => Assoc.get? key members' = Assoc.get? key members
    | some sub => sub.applySlot (Assoc.get? key members) = some (Assoc.get? key members') := by
  obtain ⟨path, value⟩ := ch
  by_cases hpath : ∃ sub, path = key :: sub
  · obtain ⟨sub, rfl⟩ := hpath
    have hbelow : below? key ⟨key :: sub, value⟩ = some ⟨sub, value⟩ := if_pos rfl
    rw [hbelow]
    exact applySlot_of_apply h
  · have hhead : path.head? ≠ some key := by
      rintro heq
      cases path with
      | nil => cases heq
      | cons k sub => exact hpath ⟨sub, by rw [Option.some.inj heq]⟩
    have hbelow : below? key ⟨path, value⟩ = none := by
      unfold below?
      cases path with
      | nil => rfl
      | cons k sub => exact if_neg fun hk => hhead (by rw [hk]; rfl)
    rw [hbelow]
    cases value with
    | none =>
      rw [apply_unset, Option.some_inj] at h
      rw [← h]
      exact Modifier.get?_unsetAt hhead members
    | some v =>
      obtain ⟨-, rfl⟩ := apply_set.1 h
      exact Modifier.get?_setAt hhead members

/-- What a key holds after changes depends on what it held before and on the changes below it. -/
theorem get?_run (h : run chs members = some members') (key : String) :
    runSlot (chs.filterMap (below? key)) (Assoc.get? key members) =
      some (Assoc.get? key members') := by
  induction chs generalizing members with
  | nil => rw [Option.some.inj h]; rfl
  | cons ch chs ih =>
    obtain ⟨mid, hmid, hrest⟩ := Option.bind_eq_some_iff.1 h
    have hstep := get?_apply hmid key
    have hih := ih hrest
    rw [List.filterMap_cons]
    cases hbelow : ch.below? key with
    | none =>
      rw [hbelow] at hstep
      rwa [hstep] at hih
    | some sub =>
      rw [hbelow] at hstep
      show (sub.applySlot _).bind _ = _
      rw [hstep]
      exact hih

/-- Changes in two parts are made part by part. -/
theorem runSlot_append (chs chs' : List Change) (slot : Option Json) :
    runSlot (chs ++ chs') slot = (runSlot chs slot).bind (runSlot chs') := by
  induction chs generalizing slot with
  | nil => rfl
  | cons ch chs ih =>
    rw [List.cons_append, runSlot, runSlot, Option.bind_assoc]
    congr 1
    funext s
    exact ih s

/-- Changes below a key that holds an object are changes of that object. -/
theorem runSlot_obj (hpaths : ∀ ch ∈ chs, ch.path ≠ []) (inner : Json.Members) :
    runSlot chs (some (.obj inner)) = (run chs inner).map fun inner => some (.obj inner) := by
  induction chs generalizing inner with
  | nil => rfl
  | cons ch chs ih =>
    have hslot : ch.applySlot (some (.obj inner)) =
        (ch.apply inner).map fun inner => some (.obj inner) := by
      unfold applySlot
      cases hpath : ch.path with
      | nil => exact absurd hpath (hpaths ch List.mem_cons_self)
      | cons k path => rfl
    rw [runSlot, hslot, run]
    cases ch.apply inner with
    | none => rfl
    | some mid => exact ih (fun c hc => hpaths c (List.mem_cons_of_mem _ hc)) mid

/-- Removing below nothing leaves nothing. -/
theorem unsetAt_nil (path : List String) : unsetAt path [] = [] := by
  cases path with
  | nil => rfl
  | cons k path => cases path <;> rfl

/-- Changes below a key that holds nothing either set nothing, or make an object out of the empty
one. -/
theorem runSlot_none (hpaths : ∀ ch ∈ chs, ch.path ≠ []) (h : runSlot chs none = some slot) :
    slot = none ∧ (∀ ch ∈ chs, ch.value = none) ∨
      ∃ inner, run chs [] = some inner ∧ slot = some (.obj inner) := by
  induction chs with
  | nil => exact .inl ⟨(Option.some.inj h).symm, by simp⟩
  | cons ch chs ih =>
    have hrest := fun c hc => hpaths c (List.mem_cons_of_mem _ hc)
    obtain ⟨mid, hmid, hrun⟩ := Option.bind_eq_some_iff.1 h
    unfold applySlot at hmid
    cases hpath : ch.path with
    | nil => exact absurd hpath (hpaths ch List.mem_cons_self)
    | cons k path =>
      rw [hpath] at hmid
      dsimp only at hmid
      split_ifs at hmid with hvalue
      · -- The first value that is set makes an object.
        obtain ⟨inner, hinner, rfl⟩ := Option.map_eq_some_iff.1 hmid
        rw [runSlot_obj hrest] at hrun
        obtain ⟨last, hlast, rfl⟩ := Option.map_eq_some_iff.1 hrun
        exact .inr ⟨last, by rw [run, hinner]; exact hlast, rfl⟩
      · obtain rfl := Option.some.inj hmid
        have hnone : ch.value = none := by simpa using hvalue
        rcases ih hrest hrun with ⟨rfl, hall⟩ | ⟨inner, hinner, rfl⟩
        · exact .inl ⟨rfl, List.forall_mem_cons.2 ⟨hnone, hall⟩⟩
        · refine .inr ⟨inner, ?_, rfl⟩
          have happly : ch.apply [] = some [] := by
            unfold apply
            rw [hnone]
            exact congrArg some (unsetAt_nil ch.path)
          rw [run, happly]
          exact hinner

/-- Changes below a key that holds something other than an object set nothing and change nothing. -/
theorem runSlot_other {other : Json} (hother : ∀ inner, other ≠ .obj inner)
    (hpaths : ∀ ch ∈ chs, ch.path ≠ []) (h : runSlot chs (some other) = some slot) :
    slot = some other := by
  induction chs with
  | nil => exact (Option.some.inj h).symm
  | cons ch chs ih =>
    obtain ⟨mid, hmid, hrun⟩ := Option.bind_eq_some_iff.1 h
    have hslot : mid = some other := by
      unfold applySlot at hmid
      cases hpath : ch.path with
      | nil => exact absurd hpath (hpaths ch List.mem_cons_self)
      | cons k path =>
        rw [hpath] at hmid
        cases other with
        | obj inner => exact absurd rfl (hother inner)
        | _ =>
          dsimp only at hmid
          split_ifs at hmid
          exact (Option.some.inj hmid).symm
    rw [hslot] at hrun
    exact ih (fun c hc => hpaths c (List.mem_cons_of_mem _ hc)) hrun

/-! ## Changes made again -/

/-- The value that is set, if there is one, is canonical. -/
def Canonical (ch : Change) : Prop := ∀ value, ch.value = some value → value.Canonical

theorem canonical_apply (hch : ch.Canonical) (hm : (Json.obj members).Canonical)
    (h : ch.apply members = some members') : (Json.obj members').Canonical := by
  obtain ⟨path, value⟩ := ch
  cases value with
  | none =>
    rw [apply_unset, Option.some_inj] at h
    exact h ▸ Modifier.canonical_unsetAt path hm
  | some v =>
    obtain ⟨-, rfl⟩ := apply_set.1 h
    exact Modifier.canonical_setAt (hch v rfl) path hm

theorem canonical_run (hchs : ∀ ch ∈ chs, ch.Canonical) (hm : (Json.obj members).Canonical)
    (h : run chs members = some members') : (Json.obj members').Canonical := by
  induction chs generalizing members with
  | nil => exact Option.some.inj h ▸ hm
  | cons ch chs ih =>
    obtain ⟨mid, hmid, hrest⟩ := Option.bind_eq_some_iff.1 h
    exact ih (fun c hc => hchs c (List.mem_cons_of_mem _ hc))
      (canonical_apply (hchs ch List.mem_cons_self) hm hmid) hrest

/-- What stands at a key in the end comes of the last change at the key itself, if there is one. -/
theorem runSlot_congr {s s' t t' : Option Json} (hpath : ∃ ch ∈ chs, ch.path = [])
    (h : runSlot chs s = some t) (h' : runSlot chs s' = some t') : t' = t := by
  obtain ⟨ch, hch, hpath⟩ := hpath
  obtain ⟨before, after, rfl⟩ := List.append_of_mem hch
  have hlast : ∀ {s t : Option Json}, runSlot (before ++ ch :: after) s = some t →
      runSlot after ch.value = some t := by
    intro s t hrun
    rw [runSlot_append] at hrun
    obtain ⟨mid, -, hrun⟩ := Option.bind_eq_some_iff.1 hrun
    have happly : ch.applySlot mid = some ch.value := by
      unfold applySlot
      rw [hpath]
    rwa [runSlot, happly] at hrun
  exact Option.some.inj ((hlast h').symm.trans (hlast h))

/-- Changes of what a key holds that are made again change nothing, if the same is known of changes
of objects. -/
theorem runSlot_again
    (hagain : (∀ ch ∈ chs, ch.path ≠ []) → ∀ {m m' m''}, (Json.obj m).Canonical →
      run chs m = some m' → run chs m' = some m'' → m'' = m')
    (hslot : ∀ value, slot = some value → value.Canonical)
    (h : runSlot chs slot = some slot') (h' : runSlot chs slot' = some slot'') :
    slot'' = slot' := by
  by_cases hpaths : ∀ ch ∈ chs, ch.path ≠ []
  -- All changes are below the key, so an object is changed there, or nothing is.
  · have hobj : ∀ {m m' : Json.Members}, (Json.obj m).Canonical → run chs m = some m' →
        slot' = some (.obj m') → slot'' = slot' := by
      rintro m m' hm hrun rfl
      rw [runSlot_obj hpaths] at h'
      obtain ⟨m'', hrun', rfl⟩ := Option.map_eq_some_iff.1 h'
      rw [hagain hpaths hm hrun hrun']
    cases slot with
    | none =>
      rcases runSlot_none hpaths h with ⟨rfl, hnone⟩ | ⟨inner, hrun, hslot'⟩
      · rw [h] at h'
        exact (Option.some.inj h').symm
      · exact hobj (Json.canonical_obj_iff.2 ⟨.nil, by simp⟩) hrun hslot'
    | some held =>
      by_cases hheld : ∃ inner, held = .obj inner
      · obtain ⟨inner, rfl⟩ := hheld
        rw [runSlot_obj hpaths] at h
        obtain ⟨m', hrun, hslot'⟩ := Option.map_eq_some_iff.1 h
        exact hobj (hslot _ rfl) hrun hslot'.symm
      · obtain rfl := runSlot_other (fun inner heq => hheld ⟨inner, heq⟩) hpaths h
        rw [h] at h'
        exact (Option.some.inj h').symm
  · push Not at hpaths
    exact runSlot_congr hpaths h h'

/-- Changes at the empty path change nothing. -/
theorem run_nothing (h : ∀ ch ∈ chs, ch.path = []) (members : Json.Members) :
    run chs members = some members := by
  induction chs with
  | nil => rfl
  | cons ch chs ih =>
    have happly : ch.apply members = some members := by
      unfold apply
      rw [h ch List.mem_cons_self]
      cases ch.value <;> rfl
    rw [run, happly]
    exact ih fun c hc => h c (List.mem_cons_of_mem _ hc)

/-- The paths of finitely many changes have bounded lengths. -/
theorem exists_length_le (chs : List Change) : ∃ n, ∀ ch ∈ chs, ch.path.length ≤ n := by
  induction chs with
  | nil => exact ⟨0, by simp⟩
  | cons ch chs ih =>
    obtain ⟨n, hn⟩ := ih
    refine ⟨max ch.path.length n, List.forall_mem_cons.2 ⟨Nat.le_max_left _ _, fun c hc => ?_⟩⟩
    exact Nat.le_trans (hn c hc) (Nat.le_max_right _ _)

/-- Changes that are made again to what came of them change nothing. -/
theorem run_again (n : Nat) (hlength : ∀ ch ∈ chs, ch.path.length ≤ n)
    (hchs : ∀ ch ∈ chs, ch.Canonical) (hm : (Json.obj members).Canonical)
    (h : run chs members = some members') (h' : run chs members' = some members'') :
    members'' = members' := by
  induction n generalizing chs members members' members'' with
  | zero =>
    have hnothing : ∀ ch ∈ chs, ch.path = [] := fun ch hch =>
      List.eq_nil_of_length_eq_zero (Nat.le_zero.1 (hlength ch hch))
    rw [run_nothing hnothing members] at h
    obtain rfl := Option.some.inj h
    rw [run_nothing hnothing members] at h'
    exact (Option.some.inj h').symm
  | succ n ih =>
    have hm' := canonical_run hchs hm h
    have hm'' := canonical_run hchs hm' h'
    refine Assoc.ext (Json.canonical_obj_iff.1 hm'').1 (Json.canonical_obj_iff.1 hm').1 fun key => ?_
    have hsub : ∀ sub ∈ chs.filterMap (below? key), sub.path.length ≤ n ∧ sub.Canonical := by
      intro sub hsub
      obtain ⟨ch, hch, hbelow⟩ := List.mem_filterMap.1 hsub
      have hl := hlength ch hch
      have hc := hchs ch hch
      unfold below? at hbelow
      split at hbelow
      · cases hbelow
      · rename_i k path hpath
        split_ifs at hbelow
        obtain rfl := Option.some.inj hbelow
        rw [hpath, List.length_cons] at hl
        exact ⟨Nat.le_of_succ_le_succ hl, hc⟩
    exact runSlot_again
      (fun _ {_ _ _} hinner hrun hrun' => ih (fun sub hs => (hsub sub hs).1)
        (fun sub hs => (hsub sub hs).2) hinner hrun hrun')
      (fun value hvalue => Modifier.canonical_of_get? hm hvalue) (get?_run h key)
      (get?_run h' key)

end Change

namespace Modifier

variable {m : Modifier} {ms : List Modifier} {members members' : Json.Members} {doc t t' : Json}

/-- The change that a modifier makes. -/
def change : Modifier → Change
  | set path value => ⟨pathSegments path, some value⟩
  | unset path => ⟨pathSegments path, none⟩

theorem canonical_change (h : m.Canonical) : m.change.Canonical := by
  cases m with
  | set path value =>
    intro v hv
    exact Option.some.inj hv ▸ h
  | unset path =>
    intro v hv
    cases hv

/-- A modifier makes its change, or fails where the change is not possible. -/
theorem apply_change (m : Modifier) (members : Json.Members) :
    m.change.apply members = if (m.step members).2 = none then some (m.step members).1 else none := by
  cases m with
  | set path value =>
    unfold change Change.apply step
    rcases hset : setAt value (pathSegments path) members with ⟨members', _ | ⟨key, found⟩⟩ <;>
      simp [hset]
  | unset path => rfl

/-- Modifiers make their changes one after another. -/
theorem run_change (h : runAll ms members = .ok members') :
    Change.run (ms.map change) members = some members' := by
  induction ms generalizing members with
  | nil => rw [Except.ok.inj h]; rfl
  | cons m ms ih =>
    rw [List.map_cons, Change.run, apply_change]
    rw [runAll] at h
    rcases hstep : m.step members with ⟨mid, _ | e⟩
    · rw [hstep] at h
      exact ih h
    · rw [hstep] at h
      cases h

/-- Modifiers that are applied again to what came of them change nothing. -/
theorem applyAll_again (hms : ∀ m ∈ ms, m.Canonical) (hdoc : doc.Canonical)
    (h : applyAll ms doc = .ok t) (h' : applyAll ms t = .ok t') : t' = t := by
  obtain ⟨members, members', rfl, rfl, hrun⟩ := applyAll_eq_ok.1 h
  obtain ⟨_, members'', heq, rfl, hrun'⟩ := applyAll_eq_ok.1 h'
  obtain rfl := Json.obj.inj heq
  obtain ⟨n, hn⟩ := Change.exists_length_le (ms.map change)
  have hcanonical : ∀ ch ∈ ms.map change, ch.Canonical := by
    intro ch hch
    obtain ⟨m, hm, rfl⟩ := List.mem_map.1 hch
    exact canonical_change (hms m hm)
  exact congrArg Json.obj
    (Change.run_again n hn hcanonical hdoc (run_change hrun) (run_change hrun'))

end Modifier

end Replica
