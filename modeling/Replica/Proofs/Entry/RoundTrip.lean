import Replica.Entry.Codec
import Replica.Proofs.Analysis.Reapplication
import Replica.Proofs.Namespace
import Replica.Proofs.Position

/-!
# Entries are read as they were written

An entry is written with all its fields, those of what it does beside its own. Each part is read
back as it was written: index definitions, commands, what an entry does, and positions. The names of
its namespace have to be such that they can be told from their text. What was read has such names
and canonical documents, so writing it and reading it again changes nothing (`Entry.round_trip`).
-/

namespace Replica

/-- An index definition is read back as it was written. -/
theorem IndexSpec.ofJson?_toJson (i : IndexSpec) : ofJson? i.toJson = some i := by
  have hrecord : i.toJson.record? ["name", "keys", "unique"] =
      some [some (.str i.name), some (.ofTexts i.keys), some (.bool i.unique)] :=
    Json.record?_object (by simp) _
  have hkeys : (Json.ofTexts i.keys).list? Json.text? = some i.keys :=
    Json.list?_map fun _ _ => rfl
  rw [ofJson?, hrecord]
  simp [Json.text?, Json.bool?, hkeys]

namespace Json

/-- A tag that is written before the other members is found, and they are left. -/
theorem tagged?_cons {tag : String} {value : Json} {fields : Members}
    (h : (tag :: fields.map Prod.fst).Nodup) :
    (object ((tag, value) :: fields)).tagged? tag = some (value, object fields) := by
  have hothers : ∀ m ∈ fields, decide (m.1 ≠ tag) = true := fun m hm =>
    decide_eq_true fun heq => (List.nodup_cons.1 h).1 (List.mem_map.2 ⟨m, hm, heq⟩)
  have hfilter : ((tag, value) :: fields).filter (fun m => m.1 ≠ tag) = fields := by
    rw [List.filter_cons_of_neg (by simp), List.filter_eq_self.2 hothers]
  have hkeys : (((tag, value) :: fields).map Prod.fst).Nodup := h
  rw [tagged?_object hkeys (if_pos rfl), hfilter]

/-- A name is the variant that it names. -/
theorem variant?_str {names : List String} {name : String} (h : name ∈ names) :
    (str name).variant? names = some name := if_pos h

end Json

namespace Command

/-- A command whose fields are read back under its tag is read back. -/
theorem ofJson?_of_fields {c : Command} {tag : String} {fields : Json.Members} (htag : tag ∈ tags)
    (hkeys : ("name" :: fields.map Prod.fst).Nodup)
    (h : ofTagged? tag (.object fields) = some c) :
    ofJson? (.object (("name", .str tag) :: fields)) = some c := by
  rw [ofJson?, Json.tagged?_cons hkeys]
  simp only [Option.bind_eq_bind, Option.bind_some, Json.variant?_str htag, h]

/-- A command is read back as it was written. -/
theorem ofJson?_toJson (c : Command) : ofJson? c.toJson = some c := by
  cases c with
  | create | drop | dropDatabase => exact ofJson?_of_fields (by decide) (by simp) rfl
  | createIndexes indexes =>
    have hindexes : (Json.arr (indexes.map IndexSpec.toJson)).list? IndexSpec.ofJson? =
        some indexes := Json.list?_map fun i _ => i.ofJson?_toJson
    refine ofJson?_of_fields (by decide) (by simp) ?_
    rw [ofTagged?, Json.record?_object (by simp)]
    simp [Assoc.get?, hindexes]
  | dropIndexes index =>
    refine ofJson?_of_fields (by decide) (by simp) ?_
    rw [ofTagged?, Json.record?_object (by simp)]
    rfl
  | renameCollection target dropTarget =>
    refine ofJson?_of_fields (by decide) (by simp) ?_
    rw [ofTagged?, Json.record?_object (by simp)]
    rfl
  | unsupported command =>
    refine ofJson?_of_fields (by decide) (by simp) ?_
    rw [ofTagged?, Json.record?_object (by simp)]
    rfl

end Command

namespace Action

variable {a : Action}

/-- What an entry does is read back if its fields are read back under its tag. -/
theorem ofJson?_of_fields {tag : String} {fields : Json.Members} (htag : tag ∈ tags)
    (hkeys : ("op" :: fields.map Prod.fst).Nodup)
    (h : ofTagged? tag (.object fields) = some a) :
    ofJson? (.object (("op", .str tag) :: fields)) = some a := by
  rw [ofJson?, Json.tagged?_cons hkeys]
  simp only [Option.bind_eq_bind, Option.bind_some, Json.variant?_str htag, h]

end Action

namespace Entry

variable {e : Entry}

/-- What an entry does is read back as it was written, where its documents are canonical. -/
theorem Canonical.ofJson?_action (h : e.Canonical) :
    Action.ofJson? (.object e.action.toMembers) = some e.action := by
  obtain ⟨position, hash, ns, action⟩ := e
  cases action with
  | insert doc =>
    refine Action.ofJson?_of_fields (by decide) (by simp) ?_
    rw [Action.ofTagged?, Json.record?_object (by simp)]
    simp [Assoc.get?, Json.Canonical.canonical_eq h]
  | update id change upsert =>
    refine Action.ofJson?_of_fields (by decide) (by simp) ?_
    rw [Action.ofTagged?, Json.record?_object (by simp)]
    simp [Assoc.get?, Json.bool?, Json.Canonical.canonical_eq h.1, Json.Canonical.canonical_eq h.2]
  | delete id =>
    refine Action.ofJson?_of_fields (by decide) (by simp) ?_
    rw [Action.ofTagged?, Json.record?_object (by simp)]
    simp [Assoc.get?, Json.Canonical.canonical_eq h]
  | noop => exact Action.ofJson?_of_fields (by decide) (by simp) rfl
  | command c =>
    refine Action.ofJson?_of_fields (by decide) (by simp) ?_
    rw [Action.ofTagged?, Json.record?_object (by simp)]
    simp [Assoc.get?, c.ofJson?_toJson]

/-- The members of an entry as they are written. -/
def toMembers (e : Entry) : Json.Members :=
  [("position", e.position.toJson), ("hash", .ofInt64 e.hash), ("ns", .str e.ns.text)] ++
    e.action.toMembers

/-- The keys of a written entry are different. -/
theorem nodup_toMembers (e : Entry) : (e.toMembers.map Prod.fst).Nodup := by
  obtain ⟨position, hash, ns, action⟩ := e
  cases action <;> simp [toMembers, Action.toMembers]

/-- Beside its own keys an entry is written with those of what it does. -/
theorem filter_toMembers (e : Entry) :
    (e.toMembers.filter fun m => m.1 ∉ ownKeys) = e.action.toMembers := by
  obtain ⟨position, hash, ns, action⟩ := e
  cases action <;> simp [toMembers, Action.toMembers, ownKeys]

/-- An entry is read back as it was written. -/
theorem ofJson?_toJson (hns : e.ns.WellNamed) (he : e.Canonical) : ofJson? e.toJson = some e := by
  have hmembers : e.toJson.members? = some (Assoc.ofList e.toMembers) := rfl
  have hrecord : e.toJson.record? ownKeys =
      some [some e.position.toJson, some (.ofInt64 e.hash), some (.str e.ns.text)] :=
    Json.record?_object e.nodup_toMembers _
  -- What an entry does is read from the members beside its own fields.
  have haction : Action.ofJson?
      (.obj ((Assoc.ofList e.toMembers).filter fun m => m.1 ∉ ownKeys)) = some e.action := by
    rw [Json.filter_object e.nodup_toMembers fun key => key ∉ ownKeys, filter_toMembers,
      he.ofJson?_action]
  unfold ofJson?
  rw [hmembers, hrecord]
  simp only [Option.bind_eq_bind, Option.bind_some, Option.getD_some, Json.text?,
    Position.ofJson?_toJson, Json.int64?_ofInt64, hns.parse?_text, haction]
  rfl

/-- What an entry does is read with canonical documents. -/
theorem canonical_of_ofJson?_action {value : Json} (h : Action.ofJson? value = some e.action) :
    e.Canonical := by
  obtain ⟨position, hash, ns, action⟩ := e
  unfold Action.ofJson? at h
  obtain ⟨⟨tag, content⟩, -, h⟩ := Option.bind_eq_some_iff.1 h
  obtain ⟨name, -, h⟩ := Option.bind_eq_some_iff.1 h
  unfold Action.ofTagged? at h
  -- Each tag that has documents reads them in canonical form.
  split at h
  case h_1 =>
    obtain ⟨fields, -, h⟩ := Option.bind_eq_some_iff.1 h
    split at h
    · obtain rfl := Option.some.inj h
      exact Json.canonical_canonical _
    · cases h
  case h_2 =>
    obtain ⟨fields, -, h⟩ := Option.bind_eq_some_iff.1 h
    split at h
    · obtain ⟨upsert, -, h⟩ := Option.bind_eq_some_iff.1 h
      obtain rfl := Option.some.inj h
      exact ⟨Json.canonical_canonical _, Json.canonical_canonical _⟩
    · cases h
  case h_3 =>
    obtain ⟨fields, -, h⟩ := Option.bind_eq_some_iff.1 h
    split at h
    · obtain rfl := Option.some.inj h
      exact Json.canonical_canonical _
    · cases h
  case h_4 =>
    obtain ⟨fields, -, rfl⟩ := Option.map_eq_some_iff.1 h
    exact trivial
  case h_5 =>
    obtain ⟨fields, -, h⟩ := Option.bind_eq_some_iff.1 h
    split at h
    · obtain ⟨command, -, h⟩ := Option.bind_eq_some_iff.1 h
      obtain rfl := Option.some.inj h
      exact trivial
    · cases h
  case h_6 => cases h

/-- What is read has a namespace with proper names and canonical documents. -/
theorem wellNamed_and_canonical_of_ofJson? {value : Json} (h : ofJson? value = some e) :
    e.ns.WellNamed ∧ e.Canonical := by
  unfold ofJson? at h
  obtain ⟨members, -, h⟩ := Option.bind_eq_some_iff.1 h
  obtain ⟨fields, -, h⟩ := Option.bind_eq_some_iff.1 h
  split at h
  · obtain ⟨position, -, h⟩ := Option.bind_eq_some_iff.1 h
    obtain ⟨hash, -, h⟩ := Option.bind_eq_some_iff.1 h
    obtain ⟨name, -, h⟩ := Option.bind_eq_some_iff.1 h
    obtain ⟨ns, hns, h⟩ := Option.bind_eq_some_iff.1 h
    obtain ⟨action, haction, h⟩ := Option.bind_eq_some_iff.1 h
    obtain rfl := Option.some.inj h
    exact ⟨Namespace.wellNamed_of_parse? hns, canonical_of_ofJson?_action haction⟩
  · cases h

/-- Entries survive their written form. One whose namespace has proper names and whose documents are
canonical is read back as it was written, and one that was read is read again from what is written
for it. -/
theorem round_trip (e : Entry) :
    (e.ns.WellNamed → e.Canonical → ofJson? e.toJson = some e) ∧
      ∀ value, ofJson? value = some e → ofJson? e.toJson = some e := by
  refine ⟨ofJson?_toJson, fun value h => ?_⟩
  obtain ⟨hns, he⟩ := wellNamed_and_canonical_of_ofJson? h
  exact ofJson?_toJson hns he

theorem round_trip_profile :
    let extreme : Entry := ⟨⟨Int64.minValue, Int64.maxValue⟩, Int64.minValue,
      ⟨"app", "system.profile"⟩, .update .null (.obj [("$set", .obj [("a.b", .null)])]) true⟩
    let short : Json := .obj [("op", .str "command"), ("ns", .str "app.jobs"),
      ("command", .obj [("to", .str "done"), ("name", .str "renameCollection")]),
      ("position", .obj [("timestampMillis", .int 2), ("term", .int 1)])]
    let renamed : Entry := ⟨⟨1, 2⟩, 0, ⟨"app", "jobs"⟩, .command (.renameCollection "done" false)⟩
    ofJson? extreme.toJson = some extreme ∧ ofJson? short = some renamed ∧
      ofJson? renamed.toJson = some renamed := by
  intro extreme short renamed
  have hnames : extreme.ns.WellNamed := ⟨by decide, by decide, by decide⟩
  have hcanonical : extreme.Canonical := by
    simp [extreme, Canonical, Json.Canonical, Json.CanonicalMembers, Assoc.Ascending]
  have hshort : ofJson? short = some renamed := by decide +kernel
  exact ⟨(round_trip extreme).1 hnames hcanonical, hshort, (round_trip renamed).2 short hshort⟩

end Entry

end Replica
