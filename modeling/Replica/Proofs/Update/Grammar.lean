import Replica.Proofs.Update.Idempotence

/-!
# What is read as an update

An object without operators replaces, and one of operators with proper arguments modifies: each
argument is an object whose keys are paths of fields (`FieldPath`), and only `$set` and `$unset` may
have anything in it. There is nothing else that is read (`Update.parse_grammar`). The modifiers are
the values that are set, in the order of their paths, and then the fields that are removed, in the
order of theirs.
-/

namespace Replica

/-- In an ascending list that has something for two keys only, that of the lesser key comes first,
and then that of the greater one. -/
theorem Assoc.Ascending.flatten_map {α : Type u} {β : Type v} {l : List (String × α)}
    (h : Ascending l) {j k : String} (hjk : j < k) {part : String × α → List β}
    (hother : ∀ b ∈ l, b.1 ≠ j → b.1 ≠ k → part b = []) :
    (l.map part).flatten =
      ((get? j l).elim [] fun v => part (j, v)) ++ ((get? k l).elim [] fun v => part (k, v)) := by
  induction l with
  | nil => rfl
  | cons b r ih =>
    obtain ⟨hb, hr⟩ := List.pairwise_cons.1 h
    have hlater : ∀ key, key ≤ b.1 → get? key r = none := by
      intro key hkey
      rw [← Option.not_isSome_iff_eq_none, get?_isSome]
      intro hmem
      obtain ⟨c, hc, rfl⟩ := List.mem_map.1 hmem
      exact absurd (hb c hc) (not_lt.2 hkey)
    rw [List.map_cons, List.flatten_cons, ih hr fun c hc => hother c (List.mem_cons_of_mem _ hc),
      get?, get?]
    by_cases hbj : b.1 = j
    · -- The lesser key does not come again.
      rw [hlater j (le_of_eq hbj.symm), if_pos hbj.symm, if_neg (hbj ▸ hjk.ne'), ← hbj]
      rfl
    · by_cases hbk : b.1 = k
      · -- Neither of the keys comes again.
        rw [hlater j (hbk ▸ hjk.le), hlater k (le_of_eq hbk.symm), if_neg (hbk ▸ hjk.ne),
          if_pos hbk.symm, ← hbk]
        exact List.append_nil _
      · rw [hother b List.mem_cons_self hbj hbk, if_neg (Ne.symm hbj), if_neg (Ne.symm hbk)]
        rfl

/-! ## Paths -/

/-- The parts between dots. -/
theorem splitDots_eq (l : List Char) : splitDots l = l.splitOn '.' := by
  induction l with
  | nil => rfl
  | cons c r ih =>
    rw [List.splitOn, List.splitOnP_cons_eq_if_modifyHead, ← List.splitOn, ← ih]
    by_cases hc : c = '.'
    · rw [if_pos (beq_iff_eq.2 hc), hc]
      rfl
    · obtain ⟨part, parts, hr, hcons⟩ := exists_splitDots_cons hc r
      rw [if_neg (mt beq_iff_eq.1 hc), hr, hcons]
      rfl

/-- The first part goes up to the first dot. -/
theorem head?_splitDots (l : List Char) : (splitDots l).head? = some (l.takeWhile (· ≠ '.')) := by
  induction l with
  | nil => rfl
  | cons c r ih =>
    by_cases hc : c = '.'
    · rw [List.takeWhile_cons_of_neg (by simpa using hc), hc]
      rfl
    · obtain ⟨part, parts, hr, hcons⟩ := exists_splitDots_cons hc r
      rw [hr] at ih
      rw [hcons, List.takeWhile_cons_of_pos (by simpa using hc), ← Option.some.inj ih]
      rfl

/-- Up to the first dot there are characters without dots exactly if there is nothing else, or they
stand before a dot. -/
theorem takeWhile_eq_iff {l part : List Char} (h : '.' ∉ part) :
    l.takeWhile (· ≠ '.') = part ↔ l = part ∨ part ++ ['.'] <+: l := by
  have hpart : ∀ c ∈ part, decide (c ≠ '.') = true := fun c hc =>
    decide_eq_true fun heq => h (heq ▸ hc)
  constructor
  · rintro rfl
    have hl : l.takeWhile (· ≠ '.') ++ l.dropWhile (· ≠ '.') = l := List.takeWhile_append_dropWhile
    rcases hrest : l.dropWhile (· ≠ '.') with _ | ⟨c, rest⟩
    · rw [hrest, List.append_nil] at hl
      exact .inl hl.symm
    · -- The rest starts with the first dot.
      have hdot : c = '.' := by
        have hhead := List.head?_dropWhile_not (· ≠ '.') l
        rw [hrest] at hhead
        simpa using hhead
      rw [hrest, hdot] at hl
      exact .inr ⟨rest, by rw [List.append_assoc]; exact hl⟩
  · rintro (rfl | ⟨rest, rfl⟩)
    · exact List.takeWhile_eq_self_iff.2 hpart
    · rw [List.append_assoc, List.takeWhile_append_of_pos hpart]
      simp

namespace Update

/-- A path that names a field other than the identifier, or one below such a field: none of its
parts between dots is empty, and it does not lead to the identifier or below it. -/
structure FieldPath (path : String) : Prop where
  /-- The path is not empty. -/
  ne_empty : path ≠ ""
  /-- No part between dots is empty. -/
  parts_ne : ∀ part ∈ path.toList.splitOn '.', part ≠ []
  /-- The path does not lead to the identifier. -/
  ne_id : path ≠ idField
  /-- The path does not lead below the identifier. -/
  not_below_id : ¬ idField.toList ++ ['.'] <+: path.toList

/-- The paths that are not refused are those of fields. -/
theorem checkPath_eq_ok {path : String} : checkPath path = .ok () ↔ FieldPath path := by
  have hparts : (pathSegments path).any String.isEmpty = true ↔
      ¬ ∀ part ∈ path.toList.splitOn '.', part ≠ [] := by
    simp [pathSegments, splitDots_eq]
  have hid : (pathSegments path).head? = some idField ↔
      path = idField ∨ idField.toList ++ ['.'] <+: path.toList := by
    rw [pathSegments, List.head?_map, head?_splitDots, Option.map_some, Option.some_inj,
      ← String.toList_inj, String.toList_ofList, takeWhile_eq_iff (by decide), String.toList_inj]
  rw [checkPath]
  split_ifs with hempty himmutable
  · exact iff_of_false (by simp) fun h => hparts.1 hempty h.parts_ne
  · exact iff_of_false (by simp) fun h => (hid.1 himmutable).elim h.ne_id h.not_below_id
  · refine iff_of_true rfl ⟨?_, not_not.1 (mt hparts.2 hempty), fun h => himmutable (hid.2 (.inl h)),
      fun h => himmutable (hid.2 (.inr h))⟩
    rintro rfl
    exact hempty rfl

/-! ## Operators -/

theorem isOperator_iff {key : String} : isOperator key = true ↔ ['$'] <+: key.toList := by
  rw [isOperator, beq_iff_eq]
  cases key.toList <;> simp [eq_comm]

/-- The modifier that is made of one member of the argument of `$set` or `$unset`. -/
def modifierFor (operator : String) (field : String × Json) : Modifier :=
  if operator = "$set" then .set field.1 field.2 else .unset field.1

theorem modifierOf_eq_ok_iff {operator path : String} {value : Json} {m : Modifier} :
    modifierOf operator path value = .ok m ↔
      (FieldPath path ∧ (operator = "$set" ∨ operator = "$unset")) ∧
        m = modifierFor operator (path, value) := by
  constructor
  · intro h
    obtain ⟨hcheck, hm⟩ := modifierOf_eq_ok h
    rw [← checkPath_eq_ok]
    rcases hm with ⟨rfl, rfl⟩ | ⟨rfl, rfl⟩
    · exact ⟨⟨hcheck, .inl rfl⟩, rfl⟩
    · exact ⟨⟨hcheck, .inr rfl⟩, rfl⟩
  · rintro ⟨⟨hpath, rfl | rfl⟩, rfl⟩ <;> rw [modifierOf, checkPath_eq_ok.2 hpath] <;> rfl

/-- The members of an argument. -/
def fieldsOf (argument : Json) : Json.Members := argument.members?.getD []

/-- What an operator can be given: an object, with paths of fields as its keys. Where it has any, the
operator has to be one of two. -/
def Takes (operator : String) (argument : Json) : Prop :=
  ∃ fields, argument = .obj fields ∧
    ∀ field ∈ fields, FieldPath field.1 ∧ (operator = "$set" ∨ operator = "$unset")

theorem modifiersOf_eq_ok_iff {operator : String} {argument : Json} {part : List Modifier} :
    modifiersOf operator argument = .ok part ↔
      Takes operator argument ∧ part = (fieldsOf argument).map (modifierFor operator) := by
  cases argument with
  | obj fields =>
    have hfields : fields.mapM (fun field => modifierOf operator field.1 field.2) = .ok part ↔
        (∀ field ∈ fields, FieldPath field.1 ∧ (operator = "$set" ∨ operator = "$unset")) ∧
          part = fields.map (modifierFor operator) :=
      mapM_eq_ok_iff fun _ _ _ => modifierOf_eq_ok_iff
    rw [modifiersOf, hfields]
    simp [Takes, fieldsOf, Json.members?]
  | _ => simp [modifiersOf, Takes]

/-! ## Updates -/

/-- The keys of an object that replaces: none names an operator. -/
def Replaces (members : Json.Members) : Prop := ∀ m ∈ members, ¬ ['$'] <+: m.1.toList

/-- An object that modifies. It has members, and the key of each is `$set` or `$unset`, or another
operator with nothing in its argument; each argument is an object whose keys are paths of fields. -/
structure Modifies (members : Json.Members) : Prop where
  /-- There is an operator. -/
  ne_nil : members ≠ []
  /-- Only operators without effect may be others than the two. -/
  operator : ∀ m ∈ members,
    m.1 = "$set" ∨ m.1 = "$unset" ∨ (['$'] <+: m.1.toList ∧ m.2 = .obj [])
  /-- The arguments are objects with paths of fields as their keys. -/
  argument : ∀ m ∈ members, ∃ fields, m.2 = .obj fields ∧ ∀ field ∈ fields, FieldPath field.1

/-- The members of the argument of an operator, if it is there. -/
def fieldsAt (operator : String) (members : Json.Members) : Json.Members :=
  (Assoc.get? operator members).elim [] fieldsOf

variable {members : Json.Members} {ms : List Modifier}

theorem modifies_iff : Modifies members ↔
    members ≠ [] ∧ (∀ m ∈ members, isOperator m.1 = true) ∧ ∀ m ∈ members, Takes m.1 m.2 := by
  simp only [isOperator_iff]
  constructor
  · rintro ⟨hne, hoperator, hargument⟩
    refine ⟨hne, fun m hm => ?_, fun m hm => ?_⟩
    · rcases hoperator m hm with h | h | h
      · rw [h]; decide
      · rw [h]; decide
      · exact h.1
    · obtain ⟨fields, hfields, hpaths⟩ := hargument m hm
      refine ⟨fields, hfields, fun field hfield => ⟨hpaths field hfield, ?_⟩⟩
      rcases hoperator m hm with h | h | ⟨-, h⟩
      · exact .inl h
      · exact .inr h
      · obtain rfl := Json.obj.inj (hfields.symm.trans h)
        cases hfield
  · rintro ⟨hne, hoperator, htakes⟩
    refine ⟨hne, fun m hm => ?_, fun m hm => ?_⟩
    · obtain ⟨_ | ⟨field, fields⟩, hfields, hpaths⟩ := htakes m hm
      · exact .inr (.inr ⟨hoperator m hm, hfields⟩)
      · exact (hpaths field List.mem_cons_self).2.imp_right .inl
    · obtain ⟨fields, hfields, hpaths⟩ := htakes m hm
      exact ⟨fields, hfields, fun field hfield => (hpaths field hfield).1⟩

/-- What the operators of an object make in the order of its members: the values that are set come
first. -/
theorem flatten_modifiers (h : Assoc.Ascending members) (htakes : ∀ m ∈ members, Takes m.1 m.2) :
    (members.map fun m => (fieldsOf m.2).map (modifierFor m.1)).flatten =
      (fieldsAt "$set" members).map (fun field => .set field.1 field.2) ++
        (fieldsAt "$unset" members).map fun field => .unset field.1 := by
  have hpart : ∀ operator, ((Assoc.get? operator members).elim [] fun argument =>
      (fieldsOf argument).map (modifierFor operator)) =
        (fieldsAt operator members).map (modifierFor operator) := by
    intro operator
    rw [fieldsAt]
    cases Assoc.get? operator members <;> rfl
  have hother : ∀ m ∈ members, m.1 ≠ "$set" → m.1 ≠ "$unset" →
      (fieldsOf m.2).map (modifierFor m.1) = [] := by
    intro m hm hset hunset
    obtain ⟨_ | ⟨field, fields⟩, hfields, hpaths⟩ := htakes m hm
    · rw [hfields]
      rfl
    · exact ((hpaths field List.mem_cons_self).2.elim hset hunset).elim
  rw [h.flatten_map (show "$set" < "$unset" by decide) hother, hpart, hpart]
  rfl

theorem all_not_isOperator :
    (members.all fun m => !isOperator m.1) = true ↔ Replaces members := by
  simp [Replaces, ← isOperator_iff]

/-- An object without operators replaces, and nothing else does. -/
theorem parse_eq_replace_iff {u doc : Json} : parse u = .ok (.replace doc) ↔
    doc = u ∧ ∃ members, u = .obj members ∧ Replaces members := by
  cases u with
  | obj members =>
    simp only [Json.obj.injEq, exists_eq_left', ← all_not_isOperator]
    rw [parse]
    split_ifs with hnone hsome
    · simp [hnone, eq_comm]
    · simp [hnone]
    · refine iff_of_false (fun h => ?_) fun h => hnone h.2
      obtain ⟨parts, -, h⟩ := bind_eq_ok h
      cases h
  | _ => simp [parse]

/-- A canonical object modifies exactly if each of its operators can be given what it is, and
nothing else does. The values that are set come first. -/
theorem parse_eq_modify_iff {u : Json} (hu : u.Canonical) : parse u = .ok (.modify ms) ↔
    ∃ members, u = .obj members ∧ Modifies members ∧
      ms = (fieldsAt "$set" members).map (fun field => .set field.1 field.2) ++
        (fieldsAt "$unset" members).map fun field => .unset field.1 := by
  cases u with
  | obj members =>
    have hascending := (Json.canonical_obj_iff.1 hu).1
    have hparts : ∀ {parts}, members.mapM (fun m => modifiersOf m.1 m.2) = .ok parts ↔
        (∀ m ∈ members, Takes m.1 m.2) ∧
          parts = members.map fun m => (fieldsOf m.2).map (modifierFor m.1) :=
      mapM_eq_ok_iff fun _ _ _ => modifiersOf_eq_ok_iff
    simp only [Json.obj.injEq, exists_eq_left', modifies_iff]
    rw [parse]
    split_ifs with hnone hsome
    · -- Without operators it replaces, and an object that modifies has one.
      refine iff_of_false (by simp) ?_
      rintro ⟨⟨hne, hoperator, -⟩, -⟩
      obtain ⟨m, hm⟩ := List.exists_mem_of_ne_nil members hne
      exact absurd (hoperator m hm) (by simpa using List.all_eq_true.1 hnone m hm)
    · -- A plain key beside an operator is refused.
      refine iff_of_false (by simp) ?_
      rintro ⟨⟨-, hoperator, -⟩, -⟩
      obtain ⟨m, hm, hplain⟩ := List.any_eq_true.1 hsome
      exact absurd (hoperator m hm) (by simpa using hplain)
    · have hoperators : ∀ m ∈ members, isOperator m.1 = true := by simpa using hsome
      have hne : members ≠ [] := by
        rintro rfl
        exact hnone rfl
      constructor
      · intro h
        obtain ⟨parts, hmapM, h⟩ := bind_eq_ok h
        obtain ⟨htakes, rfl⟩ := hparts.1 hmapM
        rw [← flatten_modifiers hascending htakes]
        exact ⟨⟨hne, hoperators, htakes⟩, (Update.modify.inj (Except.ok.inj h)).symm⟩
      · rintro ⟨⟨-, -, htakes⟩, rfl⟩
        rw [← flatten_modifiers hascending htakes, hparts.2 ⟨htakes, rfl⟩]
        rfl
  | _ => simp [parse]

/-- The members of the argument of an operator stand in the order of their paths. -/
theorem ascending_fieldsAt (h : (Json.obj members).Canonical) (operator : String) :
    Assoc.Ascending (fieldsAt operator members) := by
  cases hargument : Assoc.get? operator members with
  | none =>
    rw [fieldsAt, hargument]
    exact .nil
  | some argument =>
    have hcanonical := Modifier.canonical_of_get? h hargument
    rw [fieldsAt, hargument]
    cases argument with
    | obj fields => exact (Json.canonical_obj_iff.1 hcanonical).1
    | _ => exact .nil

/-- What is read as an update. A value replaces if it is an object without operators, and it
modifies if it is an object of operators with proper arguments; any other value is refused. The
modifiers set the fields of `$set` in the order of their paths, and then they remove those of
`$unset` in the order of theirs. -/
theorem parse_grammar {u : Json} (hu : u.Canonical) :
    (∀ doc, parse u = .ok (.replace doc) ↔
      doc = u ∧ ∃ members, u = .obj members ∧ Replaces members) ∧
    (∀ ms, parse u = .ok (.modify ms) ↔ ∃ members, u = .obj members ∧ Modifies members ∧
      ms = (fieldsAt "$set" members).map (fun field => .set field.1 field.2) ++
        (fieldsAt "$unset" members).map fun field => .unset field.1) ∧
    (∀ members, u = .obj members → ∀ operator, Assoc.Ascending (fieldsAt operator members)) ∧
    ((∃ e, parse u = .error e) ↔
      ∀ members, u = .obj members → ¬ Replaces members ∧ ¬ Modifies members) := by
  refine ⟨fun doc => parse_eq_replace_iff, fun ms => parse_eq_modify_iff hu, ?_, ?_⟩
  · rintro members rfl
    exact ascending_fieldsAt hu
  · cases hparse : parse u with
    | error e =>
      refine iff_of_true ⟨e, rfl⟩ fun members hmembers => ⟨fun hreplaces => ?_, fun hmodifies => ?_⟩
      · have hok := parse_eq_replace_iff.2 ⟨rfl, members, hmembers, hreplaces⟩
        rw [hparse] at hok
        cases hok
      · have hok := (parse_eq_modify_iff hu).2 ⟨members, hmembers, hmodifies, rfl⟩
        rw [hparse] at hok
        cases hok
    | ok action =>
      -- What is read replaces or modifies, so the object is one that does.
      refine iff_of_false (by simp) fun hneither => ?_
      cases action with
      | replace doc =>
        obtain ⟨-, members, hmembers, hreplaces⟩ := parse_eq_replace_iff.1 hparse
        exact (hneither members hmembers).1 hreplaces
      | modify ms =>
        obtain ⟨members, hmembers, hmodifies, -⟩ := (parse_eq_modify_iff hu).1 hparse
        exact (hneither members hmembers).2 hmodifies

theorem parse_grammar_shelved :
    let set : Json.Members := [("note", .null), ("shelf.row", .str "b")]
    let members : Json.Members :=
      [("$inc", .obj []), ("$set", .obj set), ("$unset", .obj [("lent.due", .str "")])]
    (Json.obj members).Canonical ∧ Modifies members ∧ parse (.obj members) = .ok (.modify
      [.set "note" .null, .set "shelf.row" (.str "b"), .unset "lent.due"]) := by
  intro set members
  have hcanonical : (Json.obj members).Canonical := by
    simp [members, set, Json.Canonical, Json.CanonicalMembers, Assoc.Ascending, -String.lt_iff_ltb]
  have hparse : parse (.obj members) = .ok (.modify
      [.set "note" .null, .set "shelf.row" (.str "b"), .unset "lent.due"]) := by decide +kernel
  obtain ⟨_, hmembers, hmodifies, -⟩ := ((parse_grammar hcanonical).2.1 _).1 hparse
  obtain rfl := Json.obj.inj hmembers
  exact ⟨hcanonical, hmodifies, hparse⟩

/-- The name of an operator is looked at only where its argument has something in it: one that
increments nothing is read, and one that increments a field is refused. -/
theorem parse_empty_increment : parse (.obj [("$inc", .obj [])]) = .ok (.modify []) ∧
    parse (.obj [("$inc", .obj [("copies", .str "1")])]) = .error (.unsupportedModifier "$inc") := by
  decide +kernel

end Update

end Replica
