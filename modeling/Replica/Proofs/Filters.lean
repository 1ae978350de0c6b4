import Mathlib
import Replica.Filters

/-!
# Rules of exclusion

A collection is replicated if the rules of inclusion take it and no rule of exclusion names it
(`acceptsNamespace_iff`). What a call that adds a rule of exclusion makes of the rules is said once
(`excludes_exclude`): it excludes what it names, and what was excluded before stays so, unless the
call gives a pattern to a database that was excluded as a whole. An empty list of patterns stands for
the whole database, so the first pattern opens it again.

Hence a call takes away exactly what it names, and lets something pass that did not pass before only
if it opens a database again (`exclude_exact`). Calls that never do that take away exactly what all
of them name, in whatever order they are made (`acceptsNamespace_excludeAll`).
-/

namespace Replica

/-- A call that adds a rule of exclusion. -/
inductive Exclusion where
  /-- A database is excluded. -/
  | database (name : String)
  /-- The collections of a database that have the form of a pattern are excluded. -/
  | collection (name pattern : String)

namespace Exclusion

/-- The call is about a collection. -/
def Names (ns : Namespace) : Exclusion → Prop
  | database name => ns.database = name
  | collection name pattern =>
    ns.database = name ∧ Filters.matchesPattern ns.collection pattern = true

end Exclusion

namespace Filters

variable {f : Filters} {x : Exclusion} {xs : List Exclusion} {ns : Namespace}
  {name pattern : String}

/-- Adds a rule of exclusion. -/
def exclude (f : Filters) : Exclusion → Filters
  | .database name => f.excludeDatabase name
  | .collection name pattern => f.excludeCollection name pattern

/-- The rules of inclusion take a collection. -/
structure Includes (f : Filters) (ns : Namespace) : Prop where
  /-- The database is not that of the member itself. -/
  not_local : ns.database ≠ localDatabase
  /-- The database is not that of replication. -/
  not_reserved : ns.database ≠ reservedDatabase
  /-- There are no rules, or the rule of the database is about the collection. -/
  rule : f.included.isEmpty = true ∨
    ∃ patterns, f.included.get? ns.database = some patterns ∧ covers patterns ns.collection = true

/-- A rule of exclusion is about a collection. -/
def Excludes (f : Filters) (ns : Namespace) : Prop :=
  ∃ patterns, f.excluded.get? ns.database = some patterns ∧ covers patterns ns.collection = true

/-- A database is excluded as a whole. -/
def ExcludesAll (f : Filters) (name : String) : Prop := f.excluded.get? name = some []

/-- The call gives a pattern to the database of a collection, which is excluded as a whole. -/
def Reopens (f : Filters) (ns : Namespace) : Exclusion → Prop
  | .database _ => False
  | .collection name _ => ns.database = name ∧ f.ExcludesAll name

/-! ## What passes -/

/-- A list of patterns without any stands for the whole database. -/
theorem covers_nil (collection : String) : covers [] collection = true := rfl

/-- A pattern that is added is one more way to be covered, unless it is the first one. -/
theorem covers_append {patterns : List String} (h : patterns ≠ []) (collection : String) :
    covers (patterns ++ [pattern]) collection = true ↔
      covers patterns collection = true ∨ matchesPattern collection pattern = true := by
  obtain ⟨first, rest, rfl⟩ := List.exists_cons_of_ne_nil h
  simp [covers, or_assoc]

/-- The rule of a collection's database decides, where there are rules of inclusion. -/
theorem rule_iff : (f.included.isEmpty || f.included.contains ns.database) = true ∧
    (match f.included.get? ns.database with
      | none => f.included.isEmpty
      | some patterns => covers patterns ns.collection) = true ↔
    f.included.isEmpty = true ∨ ∃ patterns,
      f.included.get? ns.database = some patterns ∧ covers patterns ns.collection = true := by
  cases hrule : f.included.get? ns.database with
  | none => simp [Table.contains, hrule]
  | some patterns =>
    -- A database with a rule is one of those that the rules of inclusion know.
    have hsome : f.included.isEmpty = false := by
      by_contra hempty
      rw [Bool.not_eq_false, Table.isEmpty, List.isEmpty_iff] at hempty
      rw [Table.get?, hempty] at hrule
      cases hrule
    simp [Table.contains, hrule, hsome]

/-- A collection passes exactly if the rules of inclusion take it and none of exclusion is about
it. -/
theorem acceptsNamespace_iff : f.acceptsNamespace ns = true ↔ f.Includes ns ∧ ¬ f.Excludes ns := by
  have hexcluded : (f.excluded.get? ns.database != some []) = true ∧
      (match f.excluded.get? ns.database with
        | none => true
        | some patterns => !covers patterns ns.collection) = true ↔ ¬ f.Excludes ns := by
    unfold Excludes
    cases f.excluded.get? ns.database with
    | none => simp
    | some patterns =>
      cases patterns with
      | nil => simp [covers_nil]
      | cons first rest => simp
  unfold acceptsNamespace acceptsDatabase
  simp only [Bool.and_eq_true, bne_iff_ne, ne_eq] at hexcluded ⊢
  rw [← hexcluded]
  constructor
  · rintro ⟨⟨⟨⟨⟨hlocal, hreserved⟩, hknown⟩, hall⟩, hincluded⟩, hpatterns⟩
    exact ⟨⟨hlocal, hreserved, rule_iff.1 ⟨hknown, hincluded⟩⟩, hall, hpatterns⟩
  · rintro ⟨⟨hlocal, hreserved, hrule⟩, hall, hpatterns⟩
    obtain ⟨hknown, hincluded⟩ := rule_iff.2 hrule
    exact ⟨⟨⟨⟨⟨hlocal, hreserved⟩, hknown⟩, hall⟩, hincluded⟩, hpatterns⟩

/-! ## What a call does -/

/-- A call leaves the rules of inclusion. -/
theorem includes_exclude : (f.exclude x).Includes ns ↔ f.Includes ns := by
  cases x with
  | database name => exact ⟨fun h => ⟨h.1, h.2, h.3⟩, fun h => ⟨h.1, h.2, h.3⟩⟩
  | collection name pattern => exact ⟨fun h => ⟨h.1, h.2, h.3⟩, fun h => ⟨h.1, h.2, h.3⟩⟩

/-- What is opened again was excluded. -/
theorem Reopens.excludes (h : f.Reopens ns x) : f.Excludes ns := by
  cases x with
  | database name => exact h.elim
  | collection name pattern =>
    obtain ⟨rfl, hall⟩ := h
    exact ⟨[], hall, covers_nil _⟩

/-- A call excludes what it names, and leaves excluded what was so, unless it opens a database
again. -/
theorem excludes_exclude :
    (f.exclude x).Excludes ns ↔ x.Names ns ∨ (f.Excludes ns ∧ ¬ f.Reopens ns x) := by
  cases x with
  | database name =>
    by_cases hname : ns.database = name
    · simp [exclude, excludeDatabase, Excludes, Exclusion.Names, hname, covers_nil]
    · simp [exclude, excludeDatabase, Excludes, Exclusion.Names, Reopens, hname]
  | collection name pattern =>
    by_cases hname : ns.database = name
    · subst hname
      unfold Excludes Reopens ExcludesAll
      simp only [exclude, excludeCollection, addPattern, Table.get?_insert, if_true,
        Option.some.injEq, exists_eq_left', Exclusion.Names, true_and]
      -- The rule of the database was missing, about all of it, or a list of patterns.
      cases f.excluded.get? ns.database with
      | none => simp [covers]
      | some patterns =>
        cases patterns with
        | nil => simp [covers]
        | cons first rest =>
          rw [Option.getD_some, covers_append (List.cons_ne_nil _ _)]
          simp [or_comm]
    · simp [exclude, excludeCollection, addPattern, Excludes, Exclusion.Names, Reopens, hname]

/-- What passes behind a call is not named by it, and passed before or was taken by the rules of
inclusion and is opened again. -/
theorem acceptsNamespace_exclude : (f.exclude x).acceptsNamespace ns = true ↔
    ¬ x.Names ns ∧ (f.acceptsNamespace ns = true ∨ f.Includes ns ∧ f.Reopens ns x) := by
  rw [acceptsNamespace_iff, acceptsNamespace_iff, includes_exclude, excludes_exclude]
  tauto

/-- A call that adds a rule of exclusion takes away exactly what it names, if it does not give a
pattern to a database that is excluded as a whole: nothing passes behind it that did not pass before.
If it does, nothing of the database passed before, and then everything passes that the rules of
inclusion take and the pattern does not fit. -/
theorem exclude_exact (f : Filters) (x : Exclusion) (ns : Namespace) :
    (¬ f.Reopens ns x →
      ((f.exclude x).acceptsNamespace ns = true ↔
        f.acceptsNamespace ns = true ∧ ¬ x.Names ns)) ∧
    (f.Reopens ns x → f.acceptsNamespace ns = false ∧
      ((f.exclude x).acceptsNamespace ns = true ↔ f.Includes ns ∧ ¬ x.Names ns)) := by
  rw [acceptsNamespace_exclude]
  refine ⟨fun hshut => by tauto, fun hreopens => ?_⟩
  have hbefore : f.acceptsNamespace ns = false := by
    rw [← Bool.not_eq_true, acceptsNamespace_iff]
    exact fun h => h.2 hreopens.excludes
  refine ⟨hbefore, ?_⟩
  rw [hbefore]
  simp [hreopens, and_comm]

/-- A database that is excluded as a whole is opened again by the first pattern: a collection passes
behind the call that did not pass before. -/
theorem exclude_opens :
    let f := ({} : Filters).exclude (.database "shop")
    f.acceptsNamespace ⟨"shop", "orders"⟩ = false ∧
      (f.exclude (.collection "shop" "cache*")).acceptsNamespace ⟨"shop", "orders"⟩ = true := by
  decide

/-! ## Calls in a row -/

/-- Adds rules of exclusion one after another. -/
def excludeAll (f : Filters) (xs : List Exclusion) : Filters := xs.foldl exclude f

/-- No call opens a database again when its turn comes. -/
def StaysShut : Filters → List Exclusion → Prop
  | _, [] => True
  | f, x :: xs => (∀ ns, ¬ f.Reopens ns x) ∧ StaysShut (f.exclude x) xs

/-- Calls that open no database again take away exactly what all of them name. -/
theorem acceptsNamespace_excludeAll (h : f.StaysShut xs) (ns : Namespace) :
    (f.excludeAll xs).acceptsNamespace ns = true ↔
      f.acceptsNamespace ns = true ∧ ∀ x ∈ xs, ¬ x.Names ns := by
  induction xs generalizing f with
  | nil => simp [excludeAll]
  | cons x xs ih =>
    obtain ⟨hx, hxs⟩ := h
    have hlater := ih hxs
    rw [acceptsNamespace_exclude] at hlater
    rw [List.forall_mem_cons, excludeAll, List.foldl_cons, ← excludeAll, hlater]
    have hnot := hx ns
    tauto

end Filters

end Replica
