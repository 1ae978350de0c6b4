import Mathlib
import Replica.Remote

/-!
# Parts of a log

Positions are linearly ordered, and the entries of a log have ascending positions. So an entry is
known by its position (`eq_of_position`), the part of the log behind one position up to a second one
continues with the part from there up to a third one (`after_append`), and it ends with the entry at
its second position (`getLast?_after`).
-/

namespace Replica

theorem Position.lt_iff (p q : Position) : p < q ↔ p.term.toInt < q.term.toInt ∨
    p.term.toInt = q.term.toInt ∧ p.time.toInt < q.time.toInt := by
  have hlt : p < q ↔ p.term < q.term ∨ p.term = q.term ∧ p.time < q.time := Iff.rfl
  rw [hlt, Int64.lt_iff_toInt_lt, Int64.lt_iff_toInt_lt, Int64.toInt_inj]

theorem Position.le_iff (p q : Position) : p ≤ q ↔ ¬ q < p := Iff.rfl

theorem Position.ext_toInt {p q : Position} (hterm : p.term.toInt = q.term.toInt)
    (htime : p.time.toInt = q.time.toInt) : p = q := by
  obtain ⟨term, time⟩ := p
  obtain ⟨term', time'⟩ := q
  obtain rfl : term = term' := Int64.toInt_inj.1 hterm
  obtain rfl : time = time' := Int64.toInt_inj.1 htime
  rfl

instance : LinearOrder Position where
  le_refl p := by rw [Position.le_iff, Position.lt_iff]; omega
  le_trans p q r := by
    rw [Position.le_iff, Position.le_iff, Position.le_iff, Position.lt_iff, Position.lt_iff,
      Position.lt_iff]
    omega
  lt_iff_le_not_ge p q := by
    rw [Position.le_iff, Position.le_iff, Position.lt_iff, Position.lt_iff]
    omega
  le_antisymm p q hpq hqp := by
    rw [Position.le_iff, Position.lt_iff] at hpq hqp
    exact Position.ext_toInt (by omega) (by omega)
  le_total p q := by
    rw [Position.le_iff, Position.le_iff, Position.lt_iff, Position.lt_iff]
    omega
  toDecidableLE p q := inferInstance
  toDecidableLT p q := inferInstance
  toDecidableEq p q := inferInstance

namespace Log

variable {log : List Entry} {a b : Entry} {first second third : Position}

/-- The positions of a log ascend strictly. -/
def Ascending (log : List Entry) : Prop := log.Pairwise fun a b => a.position < b.position

/-- The part of a log behind one position, up to another one and with it. -/
def after (log : List Entry) (first last : Position) : List Entry :=
  log.filter fun e => decide (first < e.position) && decide (e.position ≤ last)

theorem mem_after : a ∈ after log first second ↔
    a ∈ log ∧ first < a.position ∧ a.position ≤ second := by
  simp only [after, List.mem_filter, Bool.and_eq_true, decide_eq_true_eq]

/-- An entry is known by its position. -/
theorem eq_of_position (h : Ascending log) (ha : a ∈ log) (hb : b ∈ log)
    (heq : a.position = b.position) : a = b := by
  have hnodup : (log.map Entry.position).Nodup :=
    List.pairwise_map.2 (List.Pairwise.imp (fun hlt => hlt.ne) h)
  exact List.inj_on_of_nodup_map hnodup ha hb heq

theorem after_cons (e : Entry) (es : List Entry) (first last : Position) :
    after (e :: es) first last =
      if first < e.position ∧ e.position ≤ last then e :: after es first last
      else after es first last := by
  simp only [after, List.filter_cons, Bool.and_eq_true, decide_eq_true_eq]

/-- Nothing lies up to a position behind which everything lies. -/
theorem after_eq_nil (h : ∀ e ∈ log, second < e.position) : after log first second = [] := by
  refine List.eq_nil_iff_forall_not_mem.2 fun e he => ?_
  obtain ⟨hmem, -, hle⟩ := mem_after.1 he
  exact (h e hmem).not_ge hle

/-- Two parts of a log that meet are one part. -/
theorem after_append (h : Ascending log) (hfirst : first ≤ second) (hsecond : second ≤ third) :
    after log first second ++ after log second third = after log first third := by
  induction log with
  | nil => rfl
  | cons e es ih =>
    obtain ⟨he, hes⟩ := List.pairwise_cons.1 h
    rw [after_cons, after_cons, after_cons, ← ih hes]
    rcases le_or_gt e.position second with hle | hgt
    · -- The entry does not lie in the second part.
      rw [if_neg fun h : second < e.position ∧ _ => hle.not_gt h.1]
      simp only [hle, hle.trans hsecond, and_true]
      split_ifs
      · rfl
      · rfl
    · -- The entry does not lie in the first part, and neither does what follows it.
      rw [if_neg fun h : first < e.position ∧ _ => hgt.not_ge h.2,
        after_eq_nil fun e' he' => hgt.trans (he e' he'), List.nil_append, List.nil_append]
      simp only [hgt, hfirst.trans_lt hgt, true_and]

/-- A part of a log ends with the entry at its second position. -/
theorem getLast?_after (h : Ascending log) (ha : a ∈ log) (hlt : first < a.position) :
    (after log first a.position).getLast? = some a := by
  have hpart : Ascending (after log first a.position) := List.Pairwise.filter _ h
  have hmem : a ∈ after log first a.position := mem_after.2 ⟨ha, hlt, le_rfl⟩
  obtain ⟨before, behind, hsplit⟩ := List.append_of_mem hmem
  rw [hsplit, Ascending, List.pairwise_append] at hpart
  -- Whatever stood behind the entry would lie behind the second position.
  have hbehind : behind = [] := by
    refine List.eq_nil_iff_forall_not_mem.2 fun e he => ?_
    have hgt := (List.pairwise_cons.1 hpart.2.1).1 e he
    have hle : e ∈ after log first a.position := by
      rw [hsplit]
      exact List.mem_append_right _ (List.mem_cons_of_mem _ he)
    exact hgt.not_ge (mem_after.1 hle).2.2
  rw [hsplit, hbehind, List.getLast?_append]
  rfl

/-- Behind a position and up to it there is nothing. -/
theorem after_self (log : List Entry) (p : Position) : after log p p = [] :=
  List.eq_nil_iff_forall_not_mem.2 fun _ he =>
    have hbounds := (mem_after.1 he).2
    hbounds.1.not_ge hbounds.2

/-- The mark of an entry, moved on over the part of the log up to another entry, is the mark of that
entry. -/
theorem mark_after (h : Ascending log) (ha : a ∈ log) (hb : b ∈ log)
    (hle : a.position ≤ b.position) :
    ((after log a.position b.position).getLast?.map Entry.mark).getD a.mark = b.mark := by
  rcases hle.lt_or_eq with hlt | heq
  · rw [getLast?_after h hb hlt]
    rfl
  · obtain rfl := eq_of_position h ha hb heq
    rw [after_self]
    rfl

/-- Behind the entry at the start of a window comes the part of the log behind its position. -/
theorem window_eq_cons {r : Remote} {rest : List Entry} (h : Ascending r.log)
    (hwindow : r.window first second = a :: rest) (ha : a.position = first) :
    rest = after r.log first second := by
  have hmem : ∀ e ∈ rest, first < e.position := by
    have hall : Ascending (a :: rest) := by
      rw [← hwindow]
      exact List.Pairwise.filter _ h
    intro e he
    rw [← ha]
    exact (List.pairwise_cons.1 hall).1 e he
  have hfilter : after r.log first second =
      (r.window first second).filter fun e => decide (first < e.position) := by
    rw [after, Remote.window, List.filter_filter]
    refine List.filter_congr fun e _ => ?_
    rcases lt_or_ge first e.position with hlt | hge
    · simp [hlt, hlt.le]
    · simp [hge.not_gt]
  rw [hfilter, hwindow, List.filter_cons, if_neg (by simp [ha]), List.filter_eq_self.2]
  exact fun e he => decide_eq_true (hmem e he)

end Log

end Replica
