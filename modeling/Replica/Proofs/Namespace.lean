import Mathlib
import Replica.Namespace

/-!
# The text of a namespace

A text is split at its first dot, so the names of a namespace are found again in its text if both
are there and that of the database has no dot (`WellNamed.parse?_text`). A text is read into such
names only (`wellNamed_of_parse?`).
-/

namespace Replica.Namespace

variable {ns : Namespace}

/-- The names can be told from the text: both are there, and that of the database has no dot. -/
structure WellNamed (ns : Namespace) : Prop where
  /-- The database has a name. -/
  database_ne : ns.database ≠ ""
  /-- The name of the database has no dot. -/
  no_dot : '.' ∉ ns.database.toList
  /-- The collection has a name. -/
  collection_ne : ns.collection ≠ ""

/-- A text that is split where its first part has no dot gives both parts. -/
theorem ofText_text (h : '.' ∉ ns.database.toList) : ofText ns.text = ns := by
  have hdatabase : ∀ c ∈ ns.database.toList, decide (c ≠ '.') = true := fun c hc =>
    decide_eq_true fun heq => h (heq ▸ hc)
  have htext : ns.text.toList = ns.database.toList ++ '.' :: ns.collection.toList := by
    simp [text, String.toList_append]
  rw [ofText, htext, List.takeWhile_append_of_pos hdatabase, List.dropWhile_append_of_pos hdatabase]
  simp [String.ofList_toList]

/-- The text of a namespace with proper names is read back. -/
theorem WellNamed.parse?_text (h : ns.WellNamed) : parse? ns.text = some ns := by
  have hempty : (ns.database.isEmpty || ns.collection.isEmpty) = false := by
    simp [h.database_ne, h.collection_ne]
  simp only [parse?, ofText_text h.no_dot, hempty]
  rfl

/-- What is read from a text has proper names. -/
theorem wellNamed_of_parse? {s : String} (h : parse? s = some ns) : ns.WellNamed := by
  simp only [parse?] at h
  split_ifs at h with hempty
  obtain rfl := Option.some.inj h
  simp only [Bool.or_eq_true, String.isEmpty_iff, not_or] at hempty
  refine ⟨hempty.1, fun hdot => ?_, hempty.2⟩
  rw [ofText, String.toList_ofList] at hdot
  simpa using List.mem_takeWhile_imp hdot

end Replica.Namespace
