import Replica.Proofs.Fallible
import Replica.Proofs.Json.Canonical
import Replica.Update

/-!
# What modifiers keep

Modifiers are applied in order, so a list in two parts is applied part by part (`applyAll_append`).
A modifier that an update is read into never changes the member `_id` (`Modifier.SparesId`), hence
the document keeps its identifier (`documentId_applyAll`). Setting and removing at a path keep a
canonical object canonical, and the modifiers of a canonical update are canonical
(`canonical_of_parse`).
-/

namespace Replica.Modifier

variable {ms : List Modifier} {doc t : Json}

/-- Modifiers in two parts are applied part by part. -/
theorem runAll_append (ms ns : List Modifier) (members : Json.Members) :
    runAll (ms ++ ns) members = (runAll ms members).bind (runAll ns) := by
  induction ms generalizing members with
  | nil => rfl
  | cons m ms ih =>
    rw [List.cons_append, runAll, runAll]
    rcases m.step members with ⟨members', _ | e⟩
    · exact ih members'
    · rfl

/-- Modifiers make documents of documents only. -/
theorem applyAll_eq_ok : applyAll ms doc = .ok t ↔
    ∃ members members', doc = .obj members ∧ t = .obj members' ∧ runAll ms members = .ok members' := by
  cases doc with
  | obj members =>
    rw [applyAll]
    cases h : runAll ms members with
    | error e => simp [Except.map, h]
    | ok members' => simp [Except.map, h, eq_comm]
  | _ => simp [applyAll]

/-- A list of modifiers in two parts is applied part by part. -/
theorem applyAll_append (ms ns : List Modifier) (doc : Json) :
    applyAll (ms ++ ns) doc = (applyAll ms doc).bind (applyAll ns) := by
  cases doc with
  | obj members =>
    rw [applyAll, runAll_append, applyAll]
    cases runAll ms members <;> rfl
  | _ => rfl

/-- Setting below a key happens in the object that the key holds. -/
theorem setAt_cons (value : Json) (key p : String) (ps : List String) (members : Json.Members) :
    setAt value (key :: p :: ps) members =
      match Assoc.get? key members with
      | none =>
        (Assoc.put key (.obj (setAt value (p :: ps) []).1) members, (setAt value (p :: ps) []).2)
      | some (.obj inner) =>
        (Assoc.put key (.obj (setAt value (p :: ps) inner).1) members,
          (setAt value (p :: ps) inner).2)
      | some other => (members, some (key, other)) := rfl

/-- Removing below a key happens in the object that the key holds. -/
theorem unsetAt_cons (key p : String) (ps : List String) (members : Json.Members) :
    unsetAt (key :: p :: ps) members =
      match Assoc.get? key members with
      | some (.obj inner) => Assoc.put key (.obj (unsetAt (p :: ps) inner)) members
      | _ => members := rfl

/-! ## The identifier -/

/-- The modifier does not change the member `_id`. -/
def SparesId (m : Modifier) : Prop := (pathSegments m.path).head? ≠ some idField

theorem get?_setAt {value : Json} {path : List String} {key : String} (h : path.head? ≠ some key)
    (members : Json.Members) :
    Assoc.get? key (setAt value path members).1 = Assoc.get? key members := by
  match path with
  | [] => rfl
  | [leaf] =>
    have : key ≠ leaf := fun heq => h (by rw [heq]; rfl)
    rw [setAt, Assoc.get?_put, if_neg this]
  | k :: p :: ps =>
    have : key ≠ k := fun heq => h (by rw [heq]; rfl)
    rw [setAt_cons]
    split
    · rw [Assoc.get?_put, if_neg this]
    · rw [Assoc.get?_put, if_neg this]
    · rfl

theorem get?_unsetAt {path : List String} {key : String} (h : path.head? ≠ some key)
    (members : Json.Members) :
    Assoc.get? key (unsetAt path members) = Assoc.get? key members := by
  match path with
  | [] => rfl
  | [leaf] =>
    have : key ≠ leaf := fun heq => h (by rw [heq]; rfl)
    rw [unsetAt, Assoc.get?_erase, if_neg this]
  | k :: p :: ps =>
    have : key ≠ k := fun heq => h (by rw [heq]; rfl)
    rw [unsetAt_cons]
    split
    · rw [Assoc.get?_put, if_neg this]
    · rfl

theorem get?_step {m : Modifier} {key : String} (h : (pathSegments m.path).head? ≠ some key)
    (members : Json.Members) :
    Assoc.get? key (m.step members).1 = Assoc.get? key members := by
  cases m with
  | set path value =>
    have hset : Assoc.get? key (setAt value (pathSegments path) members).1 =
        Assoc.get? key members := get?_setAt h members
    rw [step]
    split <;> rename_i heq <;> rwa [heq] at hset
  | unset path => exact get?_unsetAt h members

theorem get?_runAll {key : String} {members members' : Json.Members}
    (h : ∀ m ∈ ms, (pathSegments m.path).head? ≠ some key)
    (hrun : runAll ms members = .ok members') :
    Assoc.get? key members' = Assoc.get? key members := by
  induction ms generalizing members with
  | nil => rw [Except.ok.inj hrun]
  | cons m ms ih =>
    have hstep := get?_step (h m List.mem_cons_self) members
    rw [runAll] at hrun
    rcases hm : m.step members with ⟨mid, _ | e⟩
    · rw [hm] at hrun hstep
      rw [ih (fun n hn => h n (List.mem_cons_of_mem _ hn)) hrun, hstep]
    · rw [hm] at hrun
      cases hrun

/-- A document keeps its identifier when modifiers are applied that spare it. -/
theorem documentId_applyAll (h : ∀ m ∈ ms, m.SparesId) (ht : applyAll ms doc = .ok t) :
    documentId t = documentId doc := by
  obtain ⟨members, members', rfl, rfl, hrun⟩ := applyAll_eq_ok.1 ht
  rw [documentId, documentId, get?_runAll h hrun]

/-- A document keeps its key when modifiers are applied that spare its identifier. -/
theorem ofDocument_applyAll (h : ∀ m ∈ ms, m.SparesId) (ht : applyAll ms doc = .ok t) :
    DocKey.ofDocument t = DocKey.ofDocument doc := by
  rw [DocKey.ofDocument, documentId_applyAll h ht, DocKey.ofDocument]

/-! ## The order of members -/

/-- The value that is set, if there is one, is canonical. -/
def Canonical : Modifier → Prop
  | set _ value => value.Canonical
  | unset _ => True

/-- What a canonical object holds is canonical. -/
theorem canonical_of_get? {members : Json.Members} {key : String} {value : Json}
    (h : (Json.obj members).Canonical) (hv : Assoc.get? key members = some value) :
    value.Canonical :=
  (Json.canonical_obj_iff.1 h).2 _ (Assoc.mem_of_get? hv)

theorem canonical_put {members : Json.Members} {key : String} {value : Json}
    (h : (Json.obj members).Canonical) (hv : value.Canonical) :
    (Json.obj (Assoc.put key value members)).Canonical := by
  obtain ⟨hasc, hall⟩ := Json.canonical_obj_iff.1 h
  refine Json.canonical_obj_iff.2 ⟨hasc.put key value, fun b hb => ?_⟩
  rcases Assoc.mem_put hb with rfl | hb
  · exact hv
  · exact hall b hb

theorem canonical_setAt {value : Json} (hv : value.Canonical) :
    (path : List String) → {members : Json.Members} → (Json.obj members).Canonical →
    (Json.obj (setAt value path members).1).Canonical
  | [], _, h => h
  | [_], _, h => canonical_put h hv
  | key :: p :: ps, members, h => by
    rw [setAt_cons]
    split
    · exact canonical_put h (canonical_setAt hv (p :: ps) (Json.canonical_obj_iff.2 ⟨.nil, by simp⟩))
    · rename_i inner hinner
      exact canonical_put h (canonical_setAt hv (p :: ps) (canonical_of_get? h hinner))
    · exact h

theorem canonical_unsetAt : (path : List String) → {members : Json.Members} →
    (Json.obj members).Canonical → (Json.obj (unsetAt path members)).Canonical
  | [], _, h => h
  | [leaf], members, h => by
    obtain ⟨hasc, hall⟩ := Json.canonical_obj_iff.1 h
    exact Json.canonical_obj_iff.2 ⟨hasc.erase leaf, fun b hb => hall b (List.mem_filter.1 hb).1⟩
  | key :: p :: ps, members, h => by
    rw [unsetAt_cons]
    split
    · rename_i inner hinner
      exact canonical_put h (canonical_unsetAt (p :: ps) (canonical_of_get? h hinner))
    · exact h

end Replica.Modifier

namespace Replica.Update

/-- The two operators that modifiers are read from. -/
theorem modifierOf_eq_ok {operator path : String} {value : Json} {m : Modifier}
    (h : modifierOf operator path value = .ok m) : checkPath path = .ok () ∧
      (operator = "$set" ∧ m = .set path value ∨ operator = "$unset" ∧ m = .unset path) := by
  unfold modifierOf at h
  obtain ⟨_, hcheck, h⟩ := bind_eq_ok h
  refine ⟨hcheck, ?_⟩
  split at h
  · exact .inl ⟨rfl, (Except.ok.inj h).symm⟩
  · exact .inr ⟨rfl, (Except.ok.inj h).symm⟩
  · cases h

/-- Each modifier of an operator comes of one of its fields. -/
theorem exists_of_modifiersOf {operator : String} {argument : Json} {part : List Modifier}
    (h : modifiersOf operator argument = .ok part) {m : Modifier} (hm : m ∈ part) :
    ∃ fields, argument = .obj fields ∧ ∃ path value, (path, value) ∈ fields ∧
      modifierOf operator path value = .ok m := by
  cases argument with
  | obj fields =>
    obtain ⟨⟨path, value⟩, hfield, hmod⟩ := exists_of_mapM h hm
    exact ⟨fields, rfl, path, value, hfield, hmod⟩
  | _ => cases h

/-- An update that modifies is an object, each operator of which is read into a part of the
modifiers. -/
theorem parse_eq_modify {update : Json} {ms : List Modifier} (h : parse update = .ok (.modify ms)) :
    ∃ members parts, update = .obj members ∧
      members.mapM (fun m => modifiersOf m.1 m.2) = .ok parts ∧ ms = parts.flatten := by
  cases update with
  | obj members =>
    unfold parse at h
    dsimp only at h
    split_ifs at h
    · cases h
    obtain ⟨parts, hparts, h⟩ := bind_eq_ok h
    exact ⟨members, parts, rfl, hparts, (Update.modify.inj (Except.ok.inj h)).symm⟩
  | _ => cases h

theorem sparesId_of_modifierOf {operator path : String} {value : Json} {m : Modifier}
    (h : modifierOf operator path value = .ok m) : m.SparesId := by
  obtain ⟨hcheck, hm⟩ := modifierOf_eq_ok h
  have hpath : m.path = path := by
    rcases hm with ⟨-, rfl⟩ | ⟨-, rfl⟩ <;> rfl
  rw [Modifier.SparesId, hpath]
  intro hhead
  unfold checkPath at hcheck
  simp only [hhead, if_true] at hcheck
  split_ifs at hcheck

/-- Each modifier that an update is read into comes of one field of one of its operators. -/
theorem exists_of_parse {update : Json} {ms : List Modifier} (h : parse update = .ok (.modify ms))
    {m : Modifier} (hm : m ∈ ms) : ∃ members operator fields path value,
      update = .obj members ∧ (operator, .obj fields) ∈ members ∧ (path, value) ∈ fields ∧
        modifierOf operator path value = .ok m := by
  obtain ⟨members, parts, rfl, hparts, rfl⟩ := parse_eq_modify h
  obtain ⟨part, hpart, hmp⟩ := List.mem_flatten.1 hm
  obtain ⟨⟨operator, argument⟩, hmember, hargument⟩ := exists_of_mapM hparts hpart
  obtain ⟨fields, rfl, path, value, hfield, hmod⟩ := exists_of_modifiersOf hargument hmp
  exact ⟨members, operator, fields, path, value, rfl, hmember, hfield, hmod⟩

/-- The modifiers that an update is read into spare the identifier. -/
theorem sparesId_of_parse {update : Json} {ms : List Modifier}
    (h : parse update = .ok (.modify ms)) {m : Modifier} (hm : m ∈ ms) : m.SparesId := by
  obtain ⟨_, _, _, _, _, -, -, -, hmod⟩ := exists_of_parse h hm
  exact sparesId_of_modifierOf hmod

/-- The modifiers that a canonical update is read into are canonical. -/
theorem canonical_of_parse {update : Json} (hu : update.Canonical) {ms : List Modifier}
    (h : parse update = .ok (.modify ms)) {m : Modifier} (hm : m ∈ ms) : m.Canonical := by
  obtain ⟨members, operator, fields, path, value, rfl, hmember, hfield, hmod⟩ := exists_of_parse h hm
  have hargument := (Json.canonical_obj_iff.1 hu).2 _ hmember
  have hvalue := (Json.canonical_obj_iff.1 hargument).2 _ hfield
  rcases (modifierOf_eq_ok hmod).2 with ⟨-, rfl⟩ | ⟨-, rfl⟩
  · exact hvalue
  · exact trivial

end Replica.Update
