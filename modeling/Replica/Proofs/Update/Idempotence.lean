import Replica.Proofs.Update.Obstacles

/-!
# A modification is idempotent

Modifiers that were applied once and can be applied again change nothing
(`Modifier.applyAll_again`). They can be applied again if what they made has nothing in the way of
the paths that they set (`Modifier.exists_obstructed`). Only a value that is set above such a path
gets in its way, that is, at a path whose segments begin those of the other one
(`Modifier.obstructs_of_step`). An update is read in the order of its keys: first the values that
are set, by their paths, and then the fields that are removed (`Update.pairwise_of_parse`). A path
does not come behind those that go on from it (`not_lt_of_pathSegments`), so no value is set above a
path after it (`Modifier.not_obstructs_of_runAll`).
-/

namespace Replica

/-! ## The order of paths -/

theorem splitDots_ne_nil (l : List Char) : splitDots l ≠ [] := by
  cases l with
  | nil => exact List.cons_ne_nil _ _
  | cons c r =>
    unfold splitDots
    split <;> exact List.cons_ne_nil _ _

/-- A character other than the dot begins the first part. -/
theorem exists_splitDots_cons {c : Char} (hc : c ≠ '.') (r : List Char) :
    ∃ part parts, splitDots r = part :: parts ∧ splitDots (c :: r) = (c :: part) :: parts := by
  obtain ⟨part, parts, hr⟩ := List.exists_cons_of_ne_nil (splitDots_ne_nil r)
  refine ⟨part, parts, hr, ?_⟩
  conv => lhs; unfold splitDots
  rw [hr]
  split
  · exact absurd rfl hc
  · rename_i heq
    cases heq
  · rename_i heq
    obtain ⟨rfl, rfl⟩ := List.cons.inj heq
    rfl

/-- Characters whose parts begin those of others begin them. -/
theorem prefix_of_splitDots {l m : List Char} (h : splitDots l <+: splitDots m) : l <+: m := by
  induction l generalizing m with
  | nil => exact List.nil_prefix
  | cons c r ih =>
    cases m with
    | nil =>
      exfalso
      by_cases hc : c = '.'
      · subst hc
        exact splitDots_ne_nil r (List.prefix_nil.1 (List.cons_prefix_cons.1 h).2)
      · obtain ⟨part, parts, -, heq⟩ := exists_splitDots_cons hc r
        rw [heq] at h
        cases (List.cons_prefix_cons.1 h).1
    | cons d s =>
      -- A dot begins with an empty part and any other character does not, so both are dots or none.
      by_cases hc : c = '.'
      · by_cases hd : d = '.'
        · subst hc hd
          exact List.cons_prefix_cons.2 ⟨rfl, ih (List.cons_prefix_cons.1 h).2⟩
        · obtain ⟨part, parts, -, heq⟩ := exists_splitDots_cons hd s
          subst hc
          rw [heq] at h
          cases (List.cons_prefix_cons.1 h).1
      · obtain ⟨part, parts, hr, heq⟩ := exists_splitDots_cons hc r
        rw [heq] at h
        by_cases hd : d = '.'
        · subst hd
          cases (List.cons_prefix_cons.1 h).1
        · obtain ⟨part', parts', hs, heq'⟩ := exists_splitDots_cons hd s
          rw [heq'] at h
          obtain ⟨hfirst, hparts⟩ := List.cons_prefix_cons.1 h
          obtain ⟨rfl, rfl⟩ := List.cons.inj hfirst
          refine List.cons_prefix_cons.2 ⟨rfl, ih ?_⟩
          rw [hr, hs]
          exact List.cons_prefix_cons.2 ⟨rfl, hparts⟩

/-- A path does not come behind one that goes on from it. -/
theorem not_lt_of_pathSegments {path longer : String}
    (h : pathSegments path <+: pathSegments longer) : ¬ longer < path := by
  have hparts : splitDots path.toList <+: splitDots longer.toList := by
    have hmap := h.map String.toList
    simpa [pathSegments, Function.comp_def] using hmap
  obtain ⟨rest, hrest⟩ := prefix_of_splitDots hparts
  rw [String.lt_iff_toList_lt, ← hrest]
  exact List.not_lt.2 List.le_append_left

/-! ## What gets in the way -/

namespace Modifier

variable {m : Modifier} {ms : List Modifier} {members members' : Json.Members}
  {path : List String} {value doc t : Json}

/-- A value that is set at a path is in the way only of paths that go on from it. -/
theorem obstructs_of_setAt {target : List String} (hclear : (setAt value target members).2 = none)
    (htarget : target <+: path → target = path)
    (h : (Json.obj (setAt value target members).1).Obstructs path) :
    (Json.obj members).Obstructs path := by
  induction target generalizing path members with
  | nil => exact h
  | cons key rest ih =>
    cases path with
    | nil => exact absurd h Json.not_obstructs_nil
    | cons k path =>
      rw [Json.obstructs_cons] at h ⊢
      by_cases hk : k = key
      · subst hk
        have hrest : rest <+: path → rest = path := fun hprefix =>
          (List.cons.inj (htarget (List.cons_prefix_cons.2 ⟨rfl, hprefix⟩))).2
        cases rest with
        | nil =>
          -- The value is set at the last key of the path.
          obtain rfl := hrest List.nil_prefix
          obtain ⟨_, -, hobstructs⟩ := h
          exact absurd hobstructs Json.not_obstructs_nil
        | cons p ps =>
          rw [setAt_cons] at h hclear
          cases hget : Assoc.get? k members with
          | none =>
            simp only [hget, Assoc.get?_put, if_true, Option.some.injEq, exists_eq_left']
              at h hclear
            exact absurd (ih hclear hrest h) Json.not_obstructs_empty
          | some held =>
            cases held with
            | obj inner =>
              simp only [hget, Assoc.get?_put, if_true, Option.some.injEq, exists_eq_left']
                at h hclear
              exact ⟨_, rfl, ih hclear hrest h⟩
            | _ => simp [hget] at hclear
      · have hhead : (key :: rest).head? ≠ some k := fun heq => hk (Option.some.inj heq).symm
        rwa [get?_setAt hhead] at h

/-- What is removed gets in no path's way. -/
theorem obstructs_of_unsetAt {target : List String}
    (h : (Json.obj (unsetAt target members)).Obstructs path) :
    (Json.obj members).Obstructs path := by
  induction target generalizing path members with
  | nil => exact h
  | cons key rest ih =>
    cases path with
    | nil => exact absurd h Json.not_obstructs_nil
    | cons k path =>
      rw [Json.obstructs_cons] at h ⊢
      by_cases hk : k = key
      · subst hk
        cases rest with
        | nil => simp [unsetAt, Assoc.get?_erase] at h
        | cons p ps =>
          rw [unsetAt_cons] at h
          split at h
          · rename_i inner hget
            simp only [Assoc.get?_put, if_true, Option.some.injEq, exists_eq_left'] at h
            exact ⟨_, hget, ih h⟩
          · exact h
      · have hhead : (key :: rest).head? ≠ some k := fun heq => hk (Option.some.inj heq).symm
        rwa [get?_unsetAt hhead] at h

/-- The modifier sets no value above a path. -/
def SetsNotAbove (m : Modifier) (path : List String) : Prop :=
  ∀ target value, m = set target value → pathSegments target <+: path → pathSegments target = path

/-- What is in the way of a path behind a modifier was there before, unless the modifier has set a
value above the path. -/
theorem obstructs_of_step (hm : m.SetsNotAbove path) (hstep : m.step members = (members', none))
    (h : (Json.obj members').Obstructs path) : (Json.obj members).Obstructs path := by
  cases m with
  | unset target =>
    obtain rfl := congrArg Prod.fst hstep
    exact obstructs_of_unsetAt h
  | set target value =>
    rw [step] at hstep
    split at hstep
    · rename_i after hset
      obtain rfl := congrArg Prod.fst hstep
      refine obstructs_of_setAt (congrArg Prod.snd hset) (hm target value rfl) ?_
      rwa [hset]
    · cases congrArg Prod.snd hstep

theorem obstructs_of_runAll (hms : ∀ m ∈ ms, m.SetsNotAbove path)
    (hrun : runAll ms members = .ok members') (h : (Json.obj members').Obstructs path) :
    (Json.obj members).Obstructs path := by
  induction ms generalizing members with
  | nil => rwa [Except.ok.inj hrun]
  | cons m ms ih =>
    obtain ⟨hm, hms⟩ := List.forall_mem_cons.1 hms
    rw [runAll] at hrun
    rcases hstep : m.step members with ⟨mid, _ | e⟩
    · rw [hstep] at hrun
      exact obstructs_of_step hm hstep (ih hms hrun)
    · rw [hstep] at hrun
      cases hrun

/-! ## Modifiers in order -/

/-- Values are set by ascending paths, and fields are removed behind them. -/
def Precedes : Modifier → Modifier → Prop
  | set path _, set later _ => path < later
  | unset _, set _ _ => False
  | _, unset _ => True

/-- A modifier behind one that sets a value sets none above its path. -/
theorem Precedes.setsNotAbove {path : String} (h : (set path value).Precedes m) :
    m.SetsNotAbove (pathSegments path) := by
  rintro target value rfl hprefix
  exact absurd h (not_lt_of_pathSegments hprefix)

/-- Modifiers in order leave nothing in the way of the paths that they set. -/
theorem not_obstructs_of_runAll (hms : ms.Pairwise Precedes)
    (hrun : runAll ms members = .ok members') {path : String} (hset : set path value ∈ ms) :
    ¬ (Json.obj members').Obstructs (pathSegments path) := by
  obtain ⟨before, after, rfl⟩ := List.append_of_mem hset
  rw [runAll_append] at hrun
  obtain ⟨start, -, hrun⟩ := bind_eq_ok hrun
  have hafter : ∀ m ∈ after, m.SetsNotAbove (pathSegments path) := fun m hm =>
    ((List.pairwise_cons.1 (List.pairwise_append.1 hms).2.1).1 m hm).setsNotAbove
  have hself : (set path value).SetsNotAbove (pathSegments path) := by
    intro target _ heq _
    rw [(Modifier.set.inj heq).1]
  intro hobstructs
  -- Nothing was in the way when the value was set, and since then nothing has got there.
  have hstart : (Json.obj start).Obstructs (pathSegments path) :=
    obstructs_of_runAll (List.forall_mem_cons.2 ⟨hself, hafter⟩) hrun hobstructs
  rw [runAll, step] at hrun
  rcases hsetAt : setAt value (pathSegments path) start with ⟨mid, _ | obstacle⟩
  · exact setAt_eq_none.1 (congrArg Prod.snd hsetAt) hstart
  · rw [hsetAt] at hrun
    cases hrun

/-- Modifiers in order that were applied can be applied to what came of them. -/
theorem exists_applyAll_again (hms : ms.Pairwise Precedes) (h : applyAll ms doc = .ok t) :
    ∃ t', applyAll ms t = .ok t' := by
  obtain ⟨members, members', rfl, rfl, hrun⟩ := applyAll_eq_ok.1 h
  cases happly : applyAll ms (.obj members') with
  | ok t' => exact ⟨t', rfl⟩
  | error e =>
    obtain ⟨path, value, reason, hset, hobstructs, -⟩ := exists_obstructed h happly
    exact absurd hobstructs (not_obstructs_of_runAll hms hrun hset)

end Modifier

/-! ## Parsed updates -/

namespace Update

/-- The modifiers of one operator are in order if its fields are. -/
theorem pairwise_of_modifiersOf {operator : String} {argument : Json} {part : List Modifier}
    (hargument : argument.Canonical) (h : modifiersOf operator argument = .ok part) :
    part.Pairwise Modifier.Precedes := by
  cases argument with
  | obj fields =>
    refine pairwise_of_mapM h (Json.canonical_obj_iff.1 hargument).1 ?_
    intro first later m m' hlt hm hm'
    rcases (modifierOf_eq_ok hm).2 with ⟨-, rfl⟩ | ⟨hunset, rfl⟩
    · rcases (modifierOf_eq_ok hm').2 with ⟨-, rfl⟩ | ⟨-, rfl⟩
      · exact hlt
      · exact trivial
    · rcases (modifierOf_eq_ok hm').2 with ⟨hset, rfl⟩ | ⟨-, rfl⟩
      · exact absurd (hunset.symm.trans hset) (by decide)
      · exact trivial
  | _ => cases h

/-- The modifiers that an update is read into are in order. -/
theorem pairwise_of_parse {update : Json} {ms : List Modifier} (hu : update.Canonical)
    (h : parse update = .ok (.modify ms)) : ms.Pairwise Modifier.Precedes := by
  obtain ⟨members, parts, rfl, hparts, rfl⟩ := parse_eq_modify h
  obtain ⟨hascending, hcanonical⟩ := Json.canonical_obj_iff.1 hu
  refine List.pairwise_flatten.2 ⟨fun part hpart => ?_, ?_⟩
  · obtain ⟨member, hmember, hpart⟩ := exists_of_mapM hparts hpart
    exact pairwise_of_modifiersOf (hcanonical member hmember) hpart
  · refine pairwise_of_mapM hparts hascending ?_
    intro first later part part' hlt hpart hpart' m hm m' hm'
    obtain ⟨_, -, path, value, -, hm⟩ := exists_of_modifiersOf hpart hm
    obtain ⟨_, -, path', value', -, hm'⟩ := exists_of_modifiersOf hpart' hm'
    rcases (modifierOf_eq_ok hm').2 with ⟨hset', rfl⟩ | ⟨-, rfl⟩
    · -- Nothing comes before the values that are set.
      rw [hset'] at hlt
      rcases (modifierOf_eq_ok hm).2 with ⟨hset, rfl⟩ | ⟨hunset, rfl⟩
      · rw [hset] at hlt
        exact absurd hlt (lt_irrefl _)
      · rw [hunset] at hlt
        exact absurd hlt (by decide +kernel)
    · cases m <;> trivial

end Update

namespace Modifier

variable {update : Json} {ms : List Modifier} {doc t : Json}

/-- The modifiers that an update is read into are idempotent: applied to what came of them, they
succeed and change nothing. -/
theorem applyAll_idempotent (hupdate : update.Canonical)
    (hparse : Update.parse update = .ok (.modify ms)) (hdoc : doc.Canonical)
    (h : applyAll ms doc = .ok t) : applyAll ms t = .ok t := by
  obtain ⟨t', ht'⟩ := exists_applyAll_again (Update.pairwise_of_parse hupdate hparse) h
  have hcanonical : ∀ m ∈ ms, m.Canonical := fun _ hm => Update.canonical_of_parse hupdate hparse hm
  rw [ht', applyAll_again hcanonical hdoc h ht']

/-- A size is emptied and then filled, and a label is written below a key that is removed. -/
def relabelling : Json :=
  .obj [("$set", .obj [("label.text", .str "new"), ("size", .obj []), ("size.width", .int 3)]),
    ("$unset", .obj [("label", .str "")])]

theorem applyAll_idempotent_relabelled :
    let ms : List Modifier := [.set "label.text" (.str "new"), .set "size" (.obj []),
      .set "size.width" (.int 3), .unset "label"]
    let doc : Json := .obj [("_id", .int 1), ("size", .int 7)]
    let t : Json := .obj [("_id", .int 1), ("size", .obj [("width", .int 3)])]
    relabelling.Canonical ∧ Update.parse relabelling = .ok (.modify ms) ∧ doc.Canonical ∧
      applyAll ms doc = .ok t ∧ applyAll ms t = .ok t := by
  intro ms doc t
  have hupdate : relabelling.Canonical := by
    simp [relabelling, Json.Canonical, Json.CanonicalMembers, Assoc.Ascending, -String.lt_iff_ltb]
  have hparse : Update.parse relabelling = .ok (.modify ms) := by decide +kernel
  have hdoc : doc.Canonical := by
    simp [doc, Json.Canonical, Json.CanonicalMembers, Assoc.Ascending, -String.lt_iff_ltb]
  have happly : applyAll ms doc = .ok t := by decide +kernel
  exact ⟨hupdate, hparse, hdoc, happly, applyAll_idempotent hupdate hparse hdoc happly⟩

/-- Out of order modifiers may not be applied again: a size that is set above a width is in its
way. -/
example :
    let ms : List Modifier := [.set "size.width" (.int 3), .set "size" (.int 7)]
    applyAll ms (.obj []) = .ok (.obj [("size", .int 7)]) ∧
      applyAll ms (.obj [("size", .int 7)]) =
        .error (.typeMismatch "size.width" "'size' holds non-object 7") := by
  decide +kernel

end Modifier

end Replica
