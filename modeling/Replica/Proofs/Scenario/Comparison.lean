import Replica.Proofs.Fallible
import Replica.Proofs.Json.Canonical
import Replica.Scenario.Comparison

/-!
# What a comparison finds

A comparison tells two states apart in all but two things: collections without documents
(`CollectionState.filled`) and the signs of zeros (`CollectionState.unsigned`). There are no
differences exactly if the states are equal when these are left out (`differences_eq_nil_iff`).
Documents that no two have one key of are sorted into the order in which a table of them by key has
them (`sorted_eq_values`).
-/

namespace Replica

namespace Binary64

/-- The number without its sign if it is zero. -/
def unsigned (x : Binary64) : Binary64 := if x.isZero then ⟨0⟩ else x

theorem same_iff {x y : Binary64} : x.same y = true ↔ x.unsigned = y.unsigned := by
  have hzero : isZero ⟨0⟩ = true := by decide
  unfold same unsigned
  rw [Bool.or_eq_true, beq_iff_eq, Bool.and_eq_true]
  split_ifs with hx hy hy
  · exact iff_of_true (.inr ⟨hx, hy⟩) rfl
  · refine iff_of_false ?_ ?_
    · rintro (rfl | h)
      · exact hy hx
      · exact hy h.2
    · rintro rfl
      exact hy hzero
  · refine iff_of_false ?_ ?_
    · rintro (rfl | h)
      · exact hx hy
      · exact hx h.1
    · rintro rfl
      exact hx hzero
  · exact or_iff_left fun h => hx h.1

end Binary64

namespace Json

mutual

/-- The value without the signs of zeros. -/
def unsigned : Json → Json
  | float x => float x.unsigned
  | arr items => arr (unsignedItems items)
  | obj members => obj (unsignedMembers members)
  | value => value

/-- The values of a list without the signs of zeros. -/
def unsignedItems : List Json → List Json
  | [] => []
  | x :: xs => unsigned x :: unsignedItems xs

/-- The values of a member list without the signs of zeros. -/
def unsignedMembers : Members → Members
  | [] => []
  | (k, x) :: xs => (k, unsigned x) :: unsignedMembers xs

end

theorem sameItems_iff_of {xs : List Json}
    (h : ∀ x ∈ xs, ∀ y, same x y = true ↔ x.unsigned = y.unsigned) (ys : List Json) :
    sameItems xs ys = true ↔ unsignedItems xs = unsignedItems ys := by
  induction xs generalizing ys with
  | nil => cases ys <;> simp [sameItems, unsignedItems]
  | cons x xs ih =>
    obtain ⟨hx, hxs⟩ := List.forall_mem_cons.1 h
    cases ys with
    | nil => simp [sameItems, unsignedItems]
    | cons y ys =>
      rw [sameItems, Bool.and_eq_true, hx y, ih hxs ys, unsignedItems, unsignedItems,
        List.cons.injEq]

theorem sameMembers_iff_of {xs : Members}
    (h : ∀ m ∈ xs, ∀ y, same m.2 y = true ↔ m.2.unsigned = y.unsigned) (ys : Members) :
    sameMembers xs ys = true ↔ unsignedMembers xs = unsignedMembers ys := by
  induction xs generalizing ys with
  | nil => cases ys <;> simp [sameMembers, unsignedMembers]
  | cons m xs ih =>
    obtain ⟨hm, hxs⟩ := List.forall_mem_cons.1 h
    cases ys with
    | nil => simp [sameMembers, unsignedMembers]
    | cons n ys =>
      rw [sameMembers, Bool.and_eq_true, Bool.and_eq_true, beq_iff_eq, hm n.2, ih hxs ys,
        unsignedMembers, unsignedMembers, List.cons.injEq, Prod.mk.injEq]

/-- Two values are the same exactly if they are equal without the signs of zeros. -/
theorem same_iff {a b : Json} : a.same b = true ↔ a.unsigned = b.unsigned := by
  induction a using inductionOn generalizing b with
  | float x =>
    cases b with
    | float y => rw [same, Binary64.same_iff, unsigned, unsigned, float.injEq]
    | _ => simp [same, unsigned]
  | arr xs ih =>
    cases b with
    | arr ys => rw [same, sameItems_iff_of (fun x hx y => ih x hx), unsigned, unsigned, arr.injEq]
    | _ => simp [same, unsigned]
  | obj ms ih =>
    cases b with
    | obj ns =>
      rw [same, sameMembers_iff_of (fun m hm y => ih m hm), unsigned, unsigned, obj.injEq]
    | _ => simp [same, unsigned]
  | null | bool | int | str => cases b <;> simp [same, unsigned]

theorem unsignedItems_eq (items : List Json) : unsignedItems items = items.map unsigned := by
  induction items with
  | nil => rfl
  | cons x xs ih => rw [unsignedItems, ih, List.map_cons]

/-- Lists of values are the same exactly if they are equal without the signs of zeros. -/
theorem sameItems_iff {xs ys : List Json} :
    sameItems xs ys = true ↔ xs.map unsigned = ys.map unsigned := by
  rw [sameItems_iff_of fun x _ y => same_iff, unsignedItems_eq, unsignedItems_eq]

end Json

namespace CollectionState

variable {docs sortedDocs : List Json} {text : String}

/-- The collections with documents. -/
def filled (state : CollectionState) : CollectionState where
  toList := state.toList.filter fun b => !b.2.isEmpty
  ascending := List.Pairwise.filter _ state.ascending

/-- The documents without the signs of zeros. -/
def unsigned (state : CollectionState) : CollectionState where
  toList := state.toList.map fun b => (b.1, b.2.map Json.unsigned)
  ascending := by
    rw [Assoc.Ascending, List.pairwise_map]
    exact state.ascending

theorem get?_filled (state : CollectionState) (text : String) :
    state.filled.get? text = (state.get? text).filter fun docs => !docs.isEmpty := by
  ext docs
  rw [← Table.mem_toList, filled, List.mem_filter, Table.mem_toList, Option.filter_eq_some_iff]

/-- Where every collection has documents, none is left out. -/
theorem filled_eq_self {state : CollectionState} (h : ∀ b ∈ state.toList, b.2 ≠ []) :
    state.filled = state := by
  refine Table.ext_get? fun text => ?_
  rw [get?_filled]
  cases hdocs : state.get? text with
  | none => rfl
  | some docs =>
    have hne : docs ≠ [] := h (text, docs) (Table.mem_toList.2 hdocs)
    exact Option.filter_some_pos (by rw [List.isEmpty_eq_false_iff.2 hne]; rfl)

theorem get?_unsigned (state : CollectionState) (text : String) :
    state.unsigned.get? text = (state.get? text).map (List.map Json.unsigned) :=
  Assoc.get?_map _ _ _

/-! ## Differences -/

/-- A collection is as expected exactly if it is there and has the documents that are expected. -/
theorem difference?_eq_none {actual : Option (List Json)} :
    difference? text docs actual = none ↔
      actual.map (List.map Json.unsigned) = some (docs.map Json.unsigned) := by
  cases actual with
  | none => simp [difference?]
  | some got =>
    rw [difference?, Option.map_some, Option.some_inj, ← Json.sameItems_iff]
    show (if Json.sameItems got docs = true then none else _) = none ↔ _
    split_ifs with hsame <;> simp [hsame]

/-- No collection that is expected differs, and every other one is without documents. -/
theorem differences_eq_nil {expected actual : CollectionState} :
    expected.differences actual = [] ↔
      (∀ text docs, expected.get? text = some docs →
        difference? text docs (actual.filled.get? text) = none) ∧
      ∀ text got, actual.filled.get? text = some got → (expected.get? text).isSome = true := by
  have hother : ∀ text, (!expected.contains text) = false ↔ (expected.get? text).isSome = true :=
    fun text => by rw [Bool.not_eq_false', Table.contains_eq]
  simp only [← Table.mem_toList, ← hother]
  rw [differences, List.append_eq_nil_iff, List.filterMap_eq_nil_iff, List.map_eq_nil_iff,
    List.filter_eq_nil_iff]
  simp only [Prod.forall, Bool.not_eq_true]
  rfl

/-- If only collections with documents are expected, there are no differences exactly if both states
are equal, without the collections that have no documents and without the signs of zeros. -/
theorem differences_eq_nil_iff {expected actual : CollectionState}
    (hexpected : expected.filled = expected) :
    expected.differences actual = [] ↔ expected.filled.unsigned = actual.filled.unsigned := by
  rw [differences_eq_nil, hexpected]
  constructor
  · rintro ⟨hknown, hother⟩
    refine Table.ext_get? fun text => ?_
    rw [get?_unsigned, get?_unsigned]
    cases hdocs : expected.get? text with
    | some docs => exact (difference?_eq_none.1 (hknown text docs hdocs)).symm
    | none =>
      cases hgot : actual.filled.get? text with
      | none => rfl
      | some got =>
        have hsome := hother text got hgot
        rw [hdocs] at hsome
        cases hsome
  · intro heq
    have hboth : ∀ text, (expected.get? text).map (List.map Json.unsigned) =
        (actual.filled.get? text).map (List.map Json.unsigned) := fun text => by
      rw [← get?_unsigned, ← get?_unsigned, heq]
    constructor
    · intro text docs hdocs
      rw [difference?_eq_none, ← hboth, hdocs, Option.map_some]
    · intro text got hgot
      have hsome := congrArg Option.isSome (hboth text)
      rw [hgot, Option.isSome_map, Option.map_some, Option.isSome_some] at hsome
      exact hsome

/-! ## Normal forms -/

/-- Reading the keys of documents succeeds exactly if each of them has one. -/
theorem keyed_eq_ok {docs : List Json} {keyed : List (DocKey × Json)} :
    (docs.mapM fun doc => do return (← DocKey.ofDocument doc, doc)) = .ok keyed ↔
      keyed.map Prod.snd = docs ∧ ∀ b ∈ keyed, DocKey.ofDocument b.2 = .ok b.1 := by
  rw [mapM_eq_ok]
  induction docs generalizing keyed with
  | nil => cases keyed <;> simp
  | cons doc docs ih =>
    cases keyed with
    | nil => simp
    | cons b keyed =>
      obtain ⟨key, doc'⟩ := b
      rw [List.map_cons, List.map_cons, List.cons.injEq, ih, List.map_cons, List.cons.injEq,
        List.forall_mem_cons]
      cases hkey : DocKey.ofDocument doc with
      | error e =>
        refine iff_of_false (fun h => nomatch h.1) ?_
        rintro ⟨⟨rfl, -⟩, hkey', -⟩
        rw [hkey] at hkey'
        cases hkey'
      | ok key' =>
        constructor
        · rintro ⟨⟨rfl, rfl⟩, hdocs, hkeys⟩
          exact ⟨⟨rfl, hdocs⟩, hkey, hkeys⟩
        · rintro ⟨⟨rfl, hdocs⟩, hkey', hkeys⟩
          obtain rfl := Except.ok.inj (hkey.symm.trans hkey')
          exact ⟨rfl, hdocs, hkeys⟩

/-- Documents are sorted by their keys, if each of them has one. -/
theorem sorted_eq_ok : sorted docs = .ok sortedDocs ↔ ∃ keyed : List (DocKey × Json),
    keyed.map Prod.snd = docs ∧ (∀ b ∈ keyed, DocKey.ofDocument b.2 = .ok b.1) ∧
      sortedDocs = (keyed.mergeSort fun a b => decide (a.1 ≤ b.1)).map Prod.snd := by
  constructor
  · intro h
    obtain ⟨keyed, hkeyed, h⟩ := bind_eq_ok h
    obtain ⟨hdocs, hkeys⟩ := keyed_eq_ok.1 hkeyed
    exact ⟨keyed, hdocs, hkeys, (Except.ok.inj h).symm⟩
  · rintro ⟨keyed, hdocs, hkeys, rfl⟩
    rw [sorted, keyed_eq_ok.2 ⟨hdocs, hkeys⟩]
    rfl

/-- Sorting leaves out no document and adds none. -/
theorem perm_of_sorted (h : sorted docs = .ok sortedDocs) : sortedDocs.Perm docs := by
  obtain ⟨keyed, rfl, -, rfl⟩ := sorted_eq_ok.1 h
  exact (List.mergeSort_perm keyed _).map Prod.snd

/-- Bindings of different keys ascend strictly once they are sorted. -/
theorem ascending_mergeSort {keyed : List (DocKey × Json)}
    (hne : keyed.Pairwise fun a b => a.1 ≠ b.1) :
    Assoc.Ascending (keyed.mergeSort fun a b => decide (a.1 ≤ b.1)) := by
  have htrans : ∀ a b c : DocKey × Json, decide (a.1 ≤ b.1) = true → decide (b.1 ≤ c.1) = true →
      decide (a.1 ≤ c.1) = true := fun a b c hab hbc =>
    decide_eq_true (Std.le_trans (of_decide_eq_true hab) (of_decide_eq_true hbc))
  have htotal : ∀ a b : DocKey × Json, (decide (a.1 ≤ b.1) || decide (b.1 ≤ a.1)) = true := by
    intro a b
    rw [Bool.or_eq_true, decide_eq_true_eq, decide_eq_true_eq]
    exact Std.le_total
  have hle := (List.pairwise_mergeSort htrans htotal keyed).imp of_decide_eq_true
  have hne' := ((List.mergeSort_perm keyed fun a b => decide (a.1 ≤ b.1)).symm.pairwise_iff
    fun {a b} hne => hne.symm).1 hne
  exact (hle.and hne').imp fun h => Std.lt_of_le_of_ne h.1 h.2

/-- Documents of different keys are sorted into the order in which a table has them, if it finds
them, and only them, at their keys. -/
theorem sorted_eq_values {t : Table DocKey Json}
    (hdistinct : docs.Pairwise fun a b => DocKey.ofDocument a ≠ DocKey.ofDocument b)
    (hdocs : ∀ doc ∈ docs, ∃ key, DocKey.ofDocument doc = .ok key ∧ t.get? key = some doc)
    (htable : ∀ key doc, t.get? key = some doc → DocKey.ofDocument doc = .ok key ∧ doc ∈ docs) :
    sorted docs = .ok t.values := by
  obtain ⟨keyed, hkeyed⟩ : ∃ keyed : List (DocKey × Json),
      (docs.mapM fun doc => do return (← DocKey.ofDocument doc, doc)) = .ok keyed := by
    cases hkeyed : docs.mapM fun doc => do return (← DocKey.ofDocument doc, doc) with
    | ok keyed => exact ⟨keyed, rfl⟩
    | error e =>
      obtain ⟨doc, hdoc, hfails⟩ := exists_of_mapM_eq_error hkeyed
      obtain ⟨key, hkey, -⟩ := hdocs doc hdoc
      rw [hkey] at hfails
      cases hfails
  obtain ⟨rfl, hkeys⟩ := keyed_eq_ok.1 hkeyed
  have hne : keyed.Pairwise fun a b => a.1 ≠ b.1 := by
    refine (List.pairwise_map.1 hdistinct).imp_of_mem fun {a b} ha hb hne heq => hne ?_
    rw [hkeys a ha, hkeys b hb, heq]
  -- The documents in order are the bindings of a table, which finds what the other one finds.
  have htables : Table.mk _ (ascending_mergeSort hne) = t := by
    refine Table.ext_get? fun key => Option.ext fun doc => ?_
    rw [← Table.mem_toList, (List.mergeSort_perm keyed _).mem_iff]
    constructor
    · intro hmem
      obtain ⟨key', hkey', hget⟩ := hdocs doc (List.mem_map.2 ⟨_, hmem, rfl⟩)
      rw [hkeys _ hmem] at hkey'
      obtain rfl := Except.ok.inj hkey'
      exact hget
    · intro hget
      obtain ⟨hkey, hdoc⟩ := htable key doc hget
      obtain ⟨⟨key', doc'⟩, hmem, rfl⟩ := List.mem_map.1 hdoc
      rw [hkeys _ hmem] at hkey
      obtain rfl := Except.ok.inj hkey
      exact hmem
  rw [← htables]
  exact sorted_eq_ok.2 ⟨keyed, rfl, hkeys, rfl⟩

/-- Every collection of a normal form has documents. -/
theorem filled_of_ofDatabases {state : DatabaseState} {normal : CollectionState}
    (h : ofDatabases state = .ok normal) : normal.filled = normal := by
  obtain ⟨kept, hkept, h⟩ := bind_eq_ok h
  obtain rfl := Except.ok.inj h
  refine filled_eq_self fun b hb => ?_
  obtain ⟨⟨text, docs⟩, hmem, hb⟩ := exists_of_mapM hkept (Assoc.mem_of_mem_ofList hb)
  obtain ⟨sortedDocs, hsorted, hb⟩ := bind_eq_ok hb
  obtain rfl := Except.ok.inj hb
  have hdocs : docs ≠ [] := by
    have hfilled := (List.mem_filter.1 hmem).2
    rwa [Bool.not_eq_true', List.isEmpty_eq_false_iff] at hfilled
  have hperm := perm_of_sorted hsorted
  exact fun hnone => hdocs (List.perm_nil.1 (hnone ▸ hperm.symm))

end CollectionState

end Replica
