import Replica.Proofs.Decimal.Faithful
import Replica.Document

/-!
# The text of a value determines it

A value can be told from its text, and even from a longer text that goes on with something no
number can go on with (`chars_append_inj`). So different identifiers have different keys
(`DocKey.ofId_injective`). The leaves come first: a character between quotes (`unescape_escape`),
a quoted text (`quoteChars_append_inj`) and a number (`numeric_append_inj`).
-/

namespace Replica.Json

open Decimal (Digits Numeric IsNumberChar)

/-! ## Quoted texts -/

/-- Reads the character at the front of a text between quotes. -/
def unescape : List Char → Option (Char × List Char)
  | '\\' :: 'u' :: '0' :: '0' :: a :: b :: r =>
    some (Char.ofNat ("0123456789abcdef".toList.idxOf a * 16 + "0123456789abcdef".toList.idxOf b), r)
  | '\\' :: 'b' :: r => some ('\x08', r)
  | '\\' :: 'f' :: r => some ('\x0c', r)
  | '\\' :: 'n' :: r => some ('\n', r)
  | '\\' :: 'r' :: r => some ('\r', r)
  | '\\' :: 't' :: r => some ('\t', r)
  | '\\' :: c :: r => some (c, r)
  | c :: r => some (c, r)
  | [] => none

/-- What is written for a character is read as that character. -/
theorem unescape_escape (c : Char) (r : List Char) : unescape (escape c ++ r) = some (c, r) := by
  unfold escape
  split
  · rfl
  · rfl
  · rfl
  · rfl
  · rfl
  · rfl
  · rfl
  · rename_i h1 h2 h3 h4 h5 h6 h7
    split_ifs with h
    · -- A control character is written by its number.
      obtain ⟨n, hn⟩ : ∃ n, n = c.toNat := ⟨_, rfl⟩
      have hc : c = Char.ofNat n := by rw [hn, Char.ofNat_toNat]
      rw [← hn] at h ⊢
      subst hc
      clear hn
      interval_cases n <;> rfl
    · rw [List.singleton_append, unescape]
      all_goals simp_all

/-- What is written for a character tells it from what follows. -/
theorem escape_append_inj {c d : Char} {r s : List Char} (h : escape c ++ r = escape d ++ s) :
    c = d ∧ r = s := by
  have h := congrArg unescape h
  simpa only [unescape_escape, Option.some.injEq, Prod.mk.injEq] using h

/-- No character is written with a quote in front. -/
theorem escape_ne_quote (c : Char) : ∃ d ds, escape c = d :: ds ∧ d ≠ '"' := by
  unfold escape
  split
  any_goals exact ⟨_, _, rfl, by decide⟩
  split_ifs
  · exact ⟨_, _, rfl, by decide⟩
  · exact ⟨c, [], rfl, by assumption⟩

/-- The characters between quotes end at the first quote that is not escaped. -/
theorem flatMap_escape_append_inj {a b r s : List Char}
    (h : a.flatMap escape ++ '"' :: r = b.flatMap escape ++ '"' :: s) : a = b ∧ r = s := by
  induction a generalizing b with
  | nil =>
    cases b with
    | nil => simpa using h
    | cons d b =>
      obtain ⟨e, es, he, hq⟩ := escape_ne_quote d
      simp only [List.flatMap_nil, List.flatMap_cons, he, List.nil_append, List.cons_append,
        List.cons.injEq] at h
      exact absurd h.1.symm hq
  | cons c a ih =>
    cases b with
    | nil =>
      obtain ⟨e, es, he, hq⟩ := escape_ne_quote c
      simp only [List.flatMap_nil, List.flatMap_cons, he, List.nil_append, List.cons_append,
        List.cons.injEq] at h
      exact absurd h.1 hq
    | cons d b =>
      simp only [List.flatMap_cons, List.append_assoc] at h
      obtain ⟨rfl, hrest⟩ := escape_append_inj h
      obtain ⟨rfl, rfl⟩ := ih hrest
      exact ⟨rfl, rfl⟩

/-- A quoted text can be told from what follows it. -/
theorem quoteChars_append_inj {a b : String} {r s : List Char}
    (h : quoteChars a ++ r = quoteChars b ++ s) : a = b ∧ r = s := by
  simp only [quoteChars, List.cons_append, List.append_assoc, List.cons.injEq, true_and,
    List.nil_append] at h
  obtain ⟨hab, hrs⟩ := flatMap_escape_append_inj h
  exact ⟨String.toList_inj.1 hab, hrs⟩

/-! ## Numbers -/

/-- No number goes on with this text. -/
def Stops (r : List Char) : Prop := ∀ c ∈ r.head?, ¬ IsNumberChar c

/-- The text of a number can be told from what follows it. -/
theorem numeric_append_inj {a b r s : List Char} (ha : Numeric a) (hb : Numeric b)
    (hr : Stops r) (hs : Stops s) (h : a ++ r = b ++ s) : a = b ∧ r = s := by
  induction a generalizing b with
  | nil =>
    cases b with
    | nil => exact ⟨rfl, h⟩
    | cons d b => exact absurd (hb d (by simp)) (hr d (by simp [show r = d :: (b ++ s) from h]))
  | cons c a ih =>
    cases b with
    | nil => exact absurd (ha c (by simp)) (hs c (by simp [← show c :: (a ++ r) = s from h]))
    | cons d b =>
      simp only [List.cons_append, List.cons.injEq] at h
      obtain ⟨rfl, h⟩ := h
      obtain ⟨rfl, rfl⟩ := ih (fun x hx => ha x (by simp [hx])) (fun x hx => hb x (by simp [hx])) h
      exact ⟨rfl, rfl⟩

/-- The text of a natural number starts with a digit. -/
theorem exists_cons_digitChars (n : Nat) :
    ∃ c cs, Decimal.digitChars n = c :: cs ∧ c.isDigit = true := by
  obtain ⟨c, cs, h⟩ := List.exists_cons_of_ne_nil (Nat.toDigits_ne_nil (n := n) (b := 10))
  exact ⟨c, cs, h, Decimal.digits_digitChars n c (by rw [Decimal.digitChars, h]; simp)⟩

/-- The text of an integer has characters of numbers only. -/
theorem numeric_integerChars (n : Int) : Numeric (integerChars n) := by
  rw [integerChars]
  split_ifs
  · exact .cons (.inr (by decide)) (Decimal.digits_digitChars _).numeric
  · exact (Decimal.digits_digitChars _).numeric

/-- Different integers have different texts. -/
theorem integerChars_injective : Function.Injective integerChars := by
  have hdigits : ∀ {a b : Nat}, Decimal.digitChars a = Decimal.digitChars b → a = b := by
    intro a b h
    rw [← Decimal.ofDigitChars_digitChars a, h, Decimal.ofDigitChars_digitChars]
  have hsign : ∀ {a b : Nat}, '-' :: Decimal.digitChars a ≠ Decimal.digitChars b := by
    intro a b h
    obtain ⟨c, cs, hb, hc⟩ := exists_cons_digitChars b
    rw [hb, List.cons.injEq] at h
    exact absurd hc (by rw [← h.1]; decide)
  intro m n h
  simp only [integerChars] at h
  split_ifs at h with hm hn hn
  · have := hdigits (List.cons.inj h).2
    omega
  · exact absurd h hsign
  · exact absurd h.symm hsign
  · have := hdigits h
    omega

/-- No integer has the text of a floating-point number. -/
theorem integerChars_ne_write (n : Int) (x : Binary64) :
    integerChars n ≠ Decimal.write numberLayout x := by
  have hd := Decimal.digits_digitChars n.natAbs
  obtain ⟨c, cs, hn, hc⟩ := exists_cons_digitChars n.natAbs
  obtain ⟨d, ds, hx, hd'⟩ := Decimal.exists_cons_unsigned x
  rw [integerChars, Decimal.write_eq]
  intro h
  split_ifs at h
  · exact Decimal.not_digits_unsigned x ((List.cons.inj h).2 ▸ hd)
  · rw [hx, List.cons.injEq] at h
    exact absurd hd' (by rw [← h.1]; decide)
  · rw [hn, List.cons.injEq] at h
    exact absurd hc (by rw [h.1]; decide)
  · exact Decimal.not_digits_unsigned x (h ▸ hd)

/-! ## Values -/

/-- The kinds of values that the first character of a text tells apart. -/
inductive Kind where
  | null | bool | number | str | arr | obj | other
  deriving DecidableEq

/-- The kind of a value. -/
def kind : Json → Kind
  | null => .null
  | bool _ => .bool
  | int _ | float _ => .number
  | str _ => .str
  | arr _ => .arr
  | obj _ => .obj

/-- The kind of the values whose text starts with a character. -/
def Kind.ofChar (c : Char) : Kind :=
  if c.isDigit || c == '-' then .number
  else match c with
    | 'n' => .null
    | 't' | 'f' => .bool
    | '"' => .str
    | '[' => .arr
    | '{' => .obj
    | _ => .other

/-- The text of a value starts with a character of its kind. -/
theorem exists_cons_chars (a : Json) : ∃ c cs, a.chars = c :: cs ∧ Kind.ofChar c = a.kind := by
  have hdigit : ∀ {c : Char}, c.isDigit = true → Kind.ofChar c = .number := by
    intro c hc
    simp [Kind.ofChar, hc]
  cases a with
  | null => exact ⟨_, _, rfl, rfl⟩
  | bool b => cases b <;> exact ⟨_, _, rfl, rfl⟩
  | int n =>
    rw [chars, integerChars]
    split_ifs
    · exact ⟨_, _, rfl, rfl⟩
    · obtain ⟨c, cs, h, hc⟩ := exists_cons_digitChars n.natAbs
      exact ⟨c, cs, h, hdigit hc⟩
  | float x =>
    rw [chars, Decimal.write_eq]
    split_ifs
    · exact ⟨_, _, rfl, rfl⟩
    · obtain ⟨c, cs, h, hc⟩ := Decimal.exists_cons_unsigned x
      exact ⟨c, cs, h, hdigit hc⟩
  | str s => exact ⟨_, _, rfl, rfl⟩
  | arr items => exact ⟨_, _, rfl, rfl⟩
  | obj members => exact ⟨_, _, rfl, rfl⟩

/-- Texts that go on in any way and are equal are of values of one kind. -/
theorem kind_eq_of_chars {a b : Json} {r s : List Char} (h : a.chars ++ r = b.chars ++ s) :
    a.kind = b.kind := by
  obtain ⟨c, cs, ha, hc⟩ := exists_cons_chars a
  obtain ⟨d, ds, hb, hd⟩ := exists_cons_chars b
  rw [ha, hb, List.cons_append, List.cons_append, List.cons.injEq] at h
  rw [← hc, ← hd, h.1]

/-- No value starts with the bracket that ends a list. -/
theorem chars_append_ne_bracket (a : Json) (r s : List Char) : ']' :: r ≠ a.chars ++ s := by
  obtain ⟨c, cs, ha, hc⟩ := exists_cons_chars a
  intro h
  rw [ha, List.cons_append, List.cons.injEq] at h
  have hother : a.kind = .other := by rw [← hc, ← h.1]; rfl
  cases a <;> simp [kind] at hother

/-- What follows an item up to the end of the list. -/
def afterItem (xs : List Json) (r : List Char) : List Char :=
  match xs with
  | [] => ']' :: r
  | _ => ',' :: (itemChars xs ++ ']' :: r)

/-- What follows a member up to the end of the object. -/
def afterMember (ms : Members) (r : List Char) : List Char :=
  match ms with
  | [] => '}' :: r
  | _ => ',' :: (memberChars ms ++ '}' :: r)

theorem itemChars_cons (x : Json) (xs : List Json) (r : List Char) :
    itemChars (x :: xs) ++ ']' :: r = x.chars ++ afterItem xs r := by
  cases xs <;> simp [itemChars, afterItem]

theorem memberChars_cons (k : String) (x : Json) (ms : Members) (r : List Char) :
    memberChars ((k, x) :: ms) ++ '}' :: r =
      quoteChars k ++ ':' :: (x.chars ++ afterMember ms r) := by
  rcases ms with _ | ⟨⟨j, y⟩, ms⟩ <;> simp [memberChars, afterMember]

theorem stops_cons {c : Char} (h : ¬ IsNumberChar c) (r : List Char) : Stops (c :: r) := by
  simpa [Stops] using h

theorem stops_afterItem (xs : List Json) (r : List Char) : Stops (afterItem xs r) := by
  cases xs <;> exact stops_cons (by unfold IsNumberChar; decide) _

theorem stops_afterMember (ms : Members) (r : List Char) : Stops (afterMember ms r) := by
  cases ms <;> exact stops_cons (by unfold IsNumberChar; decide) _

/-- Numbers are told apart by their texts, whatever follows. -/
theorem number_append_inj {a b : Json} (ha : a.kind = .number) (hb : b.kind = .number)
    {r s : List Char} (hr : Stops r) (hs : Stops s) (h : a.chars ++ r = b.chars ++ s) :
    a = b ∧ r = s := by
  have hnumeric : ∀ {c : Json}, c.kind = .number → Numeric c.chars := by
    intro c hc
    cases c <;> simp only [kind, reduceCtorEq] at hc
    · exact numeric_integerChars _
    · exact Decimal.numeric_write _
  obtain ⟨htext, rfl⟩ := numeric_append_inj (hnumeric ha) (hnumeric hb) hr hs h
  refine ⟨?_, rfl⟩
  cases a <;> simp only [kind, reduceCtorEq] at ha <;>
    cases b <;> simp only [kind, reduceCtorEq] at hb
  · rw [integerChars_injective htext]
  · exact absurd htext (integerChars_ne_write _ _)
  · exact absurd htext.symm (integerChars_ne_write _ _)
  · rw [Decimal.write_injective htext]

mutual

/-- A value can be told from its text and from what follows it. -/
theorem chars_append_inj : {a b : Json} → {r s : List Char} → Stops r → Stops s →
    a.chars ++ r = b.chars ++ s → a = b ∧ r = s
  | .null, b, r, s, hr, hs, h => by
    have hk := kind_eq_of_chars h
    cases b <;> simp only [kind, reduceCtorEq] at hk
    simpa [chars] using h
  | .bool p, b, r, s, hr, hs, h => by
    have hk := kind_eq_of_chars h
    cases b <;> simp only [kind, reduceCtorEq] at hk
    rename_i q
    cases p <;> cases q <;> simp_all [chars]
  | .int n, b, r, s, hr, hs, h => number_append_inj rfl (kind_eq_of_chars h).symm hr hs h
  | .float x, b, r, s, hr, hs, h => number_append_inj rfl (kind_eq_of_chars h).symm hr hs h
  | .str t, b, r, s, hr, hs, h => by
    have hk := kind_eq_of_chars h
    cases b <;> simp only [kind, reduceCtorEq] at hk
    obtain ⟨rfl, rfl⟩ := quoteChars_append_inj h
    exact ⟨rfl, rfl⟩
  | .arr xs, b, r, s, hr, hs, h => by
    have hk := kind_eq_of_chars h
    cases b <;> simp only [kind, reduceCtorEq] at hk
    rename_i ys
    simp only [chars, List.cons_append, List.append_assoc, List.cons.injEq, true_and,
      List.nil_append] at h
    obtain ⟨rfl, rfl⟩ := itemChars_append_inj h
    exact ⟨rfl, rfl⟩
  | .obj ms, b, r, s, hr, hs, h => by
    have hk := kind_eq_of_chars h
    cases b <;> simp only [kind, reduceCtorEq] at hk
    rename_i ns
    simp only [chars, List.cons_append, List.append_assoc, List.cons.injEq, true_and,
      List.nil_append] at h
    obtain ⟨rfl, rfl⟩ := memberChars_append_inj h
    exact ⟨rfl, rfl⟩

/-- The items of a list can be told from its text. -/
theorem itemChars_append_inj : {xs ys : List Json} → {r s : List Char} →
    itemChars xs ++ ']' :: r = itemChars ys ++ ']' :: s → xs = ys ∧ r = s
  | [], [], r, s, h => by simpa [itemChars] using h
  | [], y :: ys, r, s, h => by
    rw [itemChars_cons] at h
    exact absurd h (chars_append_ne_bracket y _ _)
  | x :: xs, [], r, s, h => by
    rw [itemChars_cons] at h
    exact absurd h.symm (chars_append_ne_bracket x _ _)
  | x :: xs, y :: ys, r, s, h => by
    rw [itemChars_cons, itemChars_cons] at h
    obtain ⟨rfl, hafter⟩ := chars_append_inj (stops_afterItem _ _) (stops_afterItem _ _) h
    cases xs with
    | nil =>
      cases ys with
      | nil => simpa [afterItem] using hafter
      | cons y' ys => simp [afterItem] at hafter
    | cons x' xs =>
      cases ys with
      | nil => simp [afterItem] at hafter
      | cons y' ys =>
        simp only [afterItem, List.cons.injEq, true_and] at hafter
        obtain ⟨hxs, rfl⟩ := itemChars_append_inj hafter
        rw [hxs]
        exact ⟨rfl, rfl⟩

/-- The members of an object can be told from its text. -/
theorem memberChars_append_inj : {ms ns : Members} → {r s : List Char} →
    memberChars ms ++ '}' :: r = memberChars ns ++ '}' :: s → ms = ns ∧ r = s
  | [], [], r, s, h => by simpa [memberChars] using h
  | [], (j, y) :: ns, r, s, h => by
    rw [memberChars_cons] at h
    simp [memberChars, quoteChars] at h
  | (k, x) :: ms, [], r, s, h => by
    rw [memberChars_cons] at h
    simp [memberChars, quoteChars] at h
  | (k, x) :: ms, (j, y) :: ns, r, s, h => by
    rw [memberChars_cons, memberChars_cons] at h
    obtain ⟨rfl, hvalue⟩ := quoteChars_append_inj h
    rw [List.cons.injEq] at hvalue
    obtain ⟨rfl, hafter⟩ :=
      chars_append_inj (stops_afterMember _ _) (stops_afterMember _ _) hvalue.2
    cases ms with
    | nil =>
      cases ns with
      | nil => simpa [afterMember] using hafter
      | cons n ns => simp [afterMember] at hafter
    | cons m ms =>
      cases ns with
      | nil => simp [afterMember] at hafter
      | cons n ns =>
        simp only [afterMember, List.cons.injEq, true_and] at hafter
        obtain ⟨hms, rfl⟩ := memberChars_append_inj hafter
        rw [hms]
        exact ⟨rfl, rfl⟩

end

/-- Different values have different texts. -/
theorem render_injective : Function.Injective render := by
  intro a b h
  have hstop : Stops [] := fun c hc => absurd hc (by simp)
  have hchars : a.chars = b.chars := String.ofList_injective h
  exact (chars_append_inj hstop hstop (congrArg (· ++ []) hchars)).1

end Replica.Json

namespace Replica.DocKey

/-- Different identifiers have different keys. -/
theorem ofId_injective : Function.Injective ofId := fun _ _ h =>
  Json.render_injective (congrArg text h)

end Replica.DocKey
