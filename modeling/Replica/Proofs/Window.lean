import Replica.Proofs.Pipeline.Carried
import Replica.Remote
import Replica.Window

/-!
# What a window delivers

A window is read call after call, up to the first answer that is no batch (`Window.Reads`). The
batches without entries in front are passed over (`next_of_unverified`), and once its start is
verified, a window answers what the source behind it does (`reads_verified`). Every window is read
in one way (`reads_exactly`): where the first entry of the source is the one at the start, what is
read are the entries behind it and what the source ends with (`exists_reads_of_start`), and nothing
is read where it sits elsewhere (`reads_of_elsewhere`) or where there is none (`reads_of_void`).

Entries that are served in batches are delivered in order and once (`Source.exists_ofEntries`). A
window over such batches comes to its end only if its first entry is the one at its start, and then
it delivers what follows that entry (`of_endsWell`).
-/

namespace Replica

namespace Fetch

/-- Whether the answer is a batch without entries. -/
def isEmpty : Fetch → Bool
  | .batch b _ => b.entries.isEmpty
  | .finish | .failure _ | .lost => false

/-- Whether nothing is read behind the answer: it is a failure, or the end. -/
def IsLast : Fetch → Prop
  | .batch _ _ => False
  | .finish | .failure _ | .lost => True

end Fetch

namespace Source

/-- How a source ends: with the first answer that is no batch. -/
def ending : Source → Fetch
  | [] => .finish
  | .batch _ _ :: rest => ending rest
  | .finish :: _ => .finish
  | .failure e :: _ => .failure e
  | .lost :: _ => .lost

theorem isLast_ending (s : Source) : s.ending.IsLast := by
  induction s with
  | nil => trivial
  | cons f rest ih =>
    cases f with
    | batch b late => exact ih
    | finish | failure | lost => trivial

/-- A source comes to its end without a failure if it does not end with one. -/
theorem endsWell_iff {s : Source} : s.EndsWell ↔ s.ending = .finish := by
  induction s with
  | nil => exact iff_of_true trivial rfl
  | cons f rest ih =>
    cases f with
    | batch b late => exact ih
    | finish => exact iff_of_true trivial rfl
    | failure | lost => exact iff_of_false id fun h => nomatch h

/-- Passing over the batches without entries in front changes nothing about how a source ends. -/
theorem ending_dropWhile (s : Source) : ending (s.dropWhile Fetch.isEmpty) = s.ending := by
  induction s with
  | nil => rfl
  | cons f rest ih =>
    rw [List.dropWhile_cons]
    split_ifs with hempty
    · cases f with
      | batch b late => exact ih
      | finish | failure | lost => cases hempty
    · rfl

/-- Only batches without entries are passed over. -/
theorem exists_delivered_dropWhile (s : Source) : ∃ skipped,
    s.delivered = skipped ++ delivered (s.dropWhile Fetch.isEmpty) ∧
      ∀ b ∈ skipped, b.entries = [] := by
  induction s with
  | nil => exact ⟨[], rfl, fun _ h => nomatch h⟩
  | cons f rest ih =>
    rw [List.dropWhile_cons]
    split_ifs with hempty
    · cases f with
      | batch b late =>
        obtain ⟨skipped, hdelivered, hskipped⟩ := ih
        exact ⟨b :: skipped, congrArg _ hdelivered,
          List.forall_mem_cons.2 ⟨List.isEmpty_iff.1 hempty, hskipped⟩⟩
      | finish | failure | lost => cases hempty
    · exact ⟨[], rfl, fun _ h => nomatch h⟩

/-- Behind the batches without entries there is one with entries, or the source ends. -/
theorem dropWhile_isEmpty (s : Source) :
    (∃ b late rest, s.dropWhile Fetch.isEmpty = .batch b late :: rest ∧ b.entries ≠ []) ∨
      delivered (s.dropWhile Fetch.isEmpty) = [] := by
  induction s with
  | nil => exact .inr rfl
  | cons f rest ih =>
    rw [List.dropWhile_cons]
    split_ifs with hempty
    · exact ih
    · cases f with
      | batch b late => exact .inl ⟨b, late, rest, rfl, fun hb => hempty (List.isEmpty_iff.2 hb)⟩
      | finish | failure | lost => exact .inr rfl

/-- The entries that a source delivers before it ends or fails. -/
def entries (s : Source) : List Entry := s.delivered.flatMap RawBatch.entries

/-- No entries are lost where batches without entries are passed over. -/
theorem entries_dropWhile (s : Source) : entries (s.dropWhile Fetch.isEmpty) = s.entries := by
  obtain ⟨skipped, hdelivered, hskipped⟩ := exists_delivered_dropWhile s
  have hnone : skipped.flatMap RawBatch.entries = [] := List.flatMap_eq_nil_iff.2 hskipped
  rw [entries, entries, hdelivered, List.flatMap_append, hnone, List.nil_append]

/-- The first entry that a source delivers, if there is one, sits at a position. -/
def StartsAt (s : Source) (start : Position) : Prop :=
  ∀ first ∈ s.entries.head?, first.position = start

theorem startsAt_of_nil {s : Source} (h : s.entries = []) (start : Position) :
    s.StartsAt start := by
  rw [StartsAt, h]
  exact fun _ hnone => nomatch hnone

theorem startsAt_iff_of_cons {s : Source} {first : Entry} {rest : List Entry}
    (h : s.entries = first :: rest) {start : Position} :
    s.StartsAt start ↔ first.position = start := by
  rw [StartsAt, h]
  simp

/-- The source that serves some batches. -/
def serving (bs : List RawBatch) : Source := bs.map fun b => .batch b false

theorem delivered_serving (bs : List RawBatch) : (serving bs).delivered = bs := by
  induction bs with
  | nil => rfl
  | cons b bs ih => exact congrArg _ ih

/-- Entries are served in batches that hold all of them in order, and none of which is empty. -/
theorem exists_batches {size : Nat} (hsize : 0 < size) (fuel : Nat) (entries : List Entry)
    (hfuel : entries.length ≤ fuel) : ∃ bs, batches size fuel entries = serving bs ∧
      bs.flatMap RawBatch.entries = entries ∧
      ∀ b ∈ bs, b = .ofEntries b.entries b.ready ∧ b.entries ≠ [] := by
  induction fuel generalizing entries with
  | zero =>
    obtain rfl := List.length_eq_zero_iff.1 (Nat.le_zero.1 hfuel)
    exact ⟨[], rfl, rfl, fun _ h => nomatch h⟩
  | succ fuel ih =>
    cases entries with
    | nil => exact ⟨[], rfl, rfl, fun _ h => nomatch h⟩
    | cons e entries =>
      have hshorter : ((e :: entries).drop size).length ≤ fuel := by
        rw [List.length_drop, List.length_cons] at *
        omega
      obtain ⟨bs, hbs, hentries, hall⟩ := ih _ hshorter
      refine ⟨.ofEntries ((e :: entries).take size) (!((e :: entries).drop size).isEmpty) :: bs,
        ?_, ?_, List.forall_mem_cons.2 ⟨⟨rfl, ?_⟩, hall⟩⟩
      · rw [batches, hbs]
        · rfl
        · exact fun h => nomatch h
      · rw [List.flatMap_cons, hentries]
        exact List.take_append_drop size (e :: entries)
      · obtain ⟨n, rfl⟩ := Nat.exists_eq_succ_of_ne_zero hsize.ne'
        exact fun h => nomatch h

/-- Entries are served in batches that hold all of them in order, and none of which is empty. -/
theorem exists_ofEntries (entries : List Entry) (size : Nat) : ∃ bs,
    ofEntries entries size = serving bs ∧ bs.flatMap RawBatch.entries = entries ∧
      ∀ b ∈ bs, b = .ofEntries b.entries b.ready ∧ b.entries ≠ [] :=
  exists_batches (lt_max_of_lt_right Nat.one_pos) _ entries le_rfl

end Source

namespace Window

open Source (serving)

variable {w w' : Window} {bs : List RawBatch} {b : RawBatch} {answer : Fetch}

/-- What calls of a window answer, up to the first answer that is no batch. -/
inductive Reads : Window → List RawBatch → Fetch → Prop
  /-- The first call answers a failure, or the end. -/
  | last {w w' : Window} {answer : Fetch} (next : w.next = (answer, w')) (last : answer.IsLast) :
      Reads w [] answer
  /-- The first call answers a batch. -/
  | batch {w w' : Window} {b : RawBatch} {late : Bool} {bs : List RawBatch} {answer : Fetch}
      (next : w.next = (.batch b late, w')) (rest : Reads w' bs answer) : Reads w (b :: bs) answer

/-- There is one way of reading a window. -/
theorem Reads.unique (h : w.Reads bs answer) {bs' : List RawBatch} {answer' : Fetch}
    (h' : w.Reads bs' answer') : bs' = bs ∧ answer' = answer := by
  induction h generalizing bs' with
  | last next last =>
    cases h' with
    | last next' last' =>
      rw [next] at next'
      exact ⟨rfl, (Prod.mk.inj next').1.symm⟩
    | batch next' rest' =>
      rw [next] at next'
      rw [(Prod.mk.inj next').1] at last
      exact last.elim
  | batch next rest ih =>
    cases h' with
    | last next' last' =>
      rw [next] at next'
      rw [← (Prod.mk.inj next').1] at last'
      exact last'.elim
    | batch next' rest' =>
      rw [next] at next'
      obtain ⟨hanswer, rfl⟩ := Prod.mk.inj next'
      obtain ⟨rfl, -⟩ := Fetch.batch.inj hanswer
      obtain ⟨rfl, rfl⟩ := ih rest'
      exact ⟨rfl, rfl⟩

/-! ## Behind the start -/

/-- Once its start is verified, a window answers what the source behind it does. -/
theorem reads_verified (hverified : w.verified = true) :
    w.Reads w.inner.delivered w.inner.ending := by
  obtain ⟨inner, start, address, verified⟩ := w
  obtain rfl : verified = true := hverified
  induction inner with
  | nil => exact .last rfl trivial
  | cons f rest ih =>
    cases f with
    | batch b late => exact .batch rfl ih
    | finish | failure | lost => exact .last rfl trivial

/-! ## The start -/

/-- Batches without entries are passed over while the start is looked for. -/
theorem findStart_dropWhile (w : Window) (source : Source) :
    w.findStart (source.dropWhile Fetch.isEmpty) = w.findStart source := by
  induction source with
  | nil => rfl
  | cons f rest ih =>
    rw [List.dropWhile_cons]
    split_ifs with hempty
    · cases f with
      | batch b late => rw [ih, findStart, if_pos (show b.entries.isEmpty = true from hempty)]
      | finish | failure | lost => cases hempty
    · rfl

/-- The first call looks for the start behind the batches without entries. -/
theorem next_of_unverified (hverified : w.verified = false) :
    w.next = w.findStart (w.inner.dropWhile Fetch.isEmpty) := by
  rw [findStart_dropWhile, next, hverified]
  rfl

/-- The first batch is answered without its first entry, if this is the one at the start. -/
theorem checkStart_cons {first : Entry} {rest : List Entry} (hb : b.entries = first :: rest) :
    w.checkStart b = if first.position = w.start then .batch (.ofEntries rest b.ready) false
      else .failure (.windowMismatch w.start first.position) := by
  unfold checkStart
  rw [hb]
  dsimp only
  by_cases hstart : first.position = w.start
  · rw [if_neg (not_not_intro hstart), if_pos hstart]
    cases rest with
    | nil => rfl
    | cons e rest => rfl
  · rw [if_pos hstart, if_neg hstart]

/-- The first batch with entries decides whether the window is at its start. -/
theorem findStart_cons {first : Entry} {rest : List Entry} (hb : b.entries = first :: rest)
    (late : Bool) (later : Source) : w.findStart (.batch b late :: later) =
      (if first.position = w.start then .batch (.ofEntries rest b.ready) late
        else .failure (.windowMismatch w.start first.position),
        { w with inner := later, verified := true }) := by
  rw [findStart, if_neg (by rw [hb]; exact Bool.false_ne_true), checkStart_cons hb]
  dsimp only
  split_ifs <;> rfl

/-- The first call reads the batches without entries in front and one more answer, whatever comes
behind that. -/
theorem inner_next (hverified : w.verified = false) :
    w.next.2.inner = (w.inner.dropWhile Fetch.isEmpty).tail := by
  rw [next_of_unverified hverified]
  rcases Source.dropWhile_isEmpty w.inner with ⟨b, late, rest, hrest, hb⟩ | hnone
  · obtain ⟨first, others, hfirst⟩ := List.exists_cons_of_ne_nil hb
    rw [hrest, findStart_cons hfirst]
    rfl
  · cases hrest : w.inner.dropWhile Fetch.isEmpty with
    | nil => rfl
    | cons f rest =>
      cases f with
      | finish | failure | lost => rfl
      | batch b late =>
        rw [hrest] at hnone
        cases hnone

/-- A source that delivers nothing has no start, unless it fails. -/
theorem findStart_of_delivered_eq_nil {source : Source} (h : source.delivered = []) :
    (source.ending = .finish →
      (w.findStart source).1 = .failure (.windowMissing w.address w.start)) ∧
    (source.ending ≠ .finish → (w.findStart source).1 = source.ending) := by
  cases source with
  | nil => exact ⟨fun _ => rfl, fun hends => absurd rfl hends⟩
  | cons f rest =>
    cases f with
    | batch b late => cases h
    | finish => exact ⟨fun _ => rfl, fun hends => absurd rfl hends⟩
    | failure | lost => exact ⟨(nomatch ·), fun _ => rfl⟩

/-! ## What is read -/

/-- Of a source whose first entry is the one at the start, exactly what is behind it is served. -/
structure Serves (source : Source) (start : Position) (bs : List RawBatch) : Prop where
  /-- The entries behind the first one are served, in order and each once. -/
  entries : ∀ first rest, source.entries = first :: rest → first.position = start →
    bs.flatMap RawBatch.entries = rest
  /-- The first batch that is served is that of the first entry, without it and with the tail that
  its remaining entries have, and the others are as they were fetched. -/
  batches : ∀ first rest, source.entries = first :: rest → first.position = start →
    ∃ skipped b others later, source.delivered = skipped ++ b :: later ∧
      (∀ s ∈ skipped, s.entries = []) ∧ b.entries = first :: others ∧
      bs = .ofEntries others b.ready :: later
  /-- Nothing is served before the start was verified. -/
  verified : bs ≠ [] → ∃ first rest, source.entries = first :: rest ∧ first.position = start

/-- What reading a window ends with, for a source and the start that is looked for in it. -/
structure Concludes (source : Source) (start : Position) (address : String) (answer : Fetch) :
    Prop where
  /-- The start is missing exactly where the source comes to its end without any entry, or where it
  fails with such an error itself. -/
  missing : ∀ a p, answer = .failure (.windowMissing a p) ↔
    (source.entries = [] ∧ source.ending = .finish ∧ a = address ∧ p = start) ∨
    (source.ending = .failure (.windowMissing a p) ∧ source.StartsAt start)
  /-- Another start is found exactly where the first entry sits elsewhere, or where the source fails
  with such an error itself. -/
  shifted : ∀ expected found, answer = .failure (.windowMismatch expected found) ↔
    (∃ first rest, source.entries = first :: rest ∧ first.position ≠ start ∧
      expected = start ∧ found = first.position) ∨
    (source.ending = .failure (.windowMismatch expected found) ∧ source.StartsAt start)
  /-- Otherwise what the source ends with is passed on. -/
  passed : ¬ (source.entries = [] ∧ source.ending = .finish) → source.StartsAt start →
    answer = source.ending

variable {source : Source} {start : Position} {address : String} {first : Entry}
  {rest : List Entry}

/-- Where there are entries, the first call comes to an answer with the first of them. -/
theorem exists_next_of_entries (start : Position) (address : String)
    (hentries : source.entries = first :: rest) : ∃ skipped b late others later,
      source.delivered = skipped ++ b :: Source.delivered later ∧
      source.ending = Source.ending later ∧ (∀ s ∈ skipped, s.entries = []) ∧
      b.entries = first :: others ∧ others ++ Source.entries later = rest ∧
      next { inner := source, start, address } =
        (if first.position = start then .batch (.ofEntries others b.ready) late
          else .failure (.windowMismatch start first.position),
          { inner := later, start, address, verified := true }) := by
  have hnext := next_of_unverified (w := { inner := source, start, address }) rfl
  obtain ⟨skipped, hdelivered, hskipped⟩ := Source.exists_delivered_dropWhile source
  rw [← Source.entries_dropWhile] at hentries
  rcases Source.dropWhile_isEmpty source with ⟨b, late, later, hlater, hb⟩ | hnone
  · obtain ⟨head, others, hb⟩ := List.exists_cons_of_ne_nil hb
    rw [hlater] at hnext hdelivered hentries
    rw [Source.entries, Source.delivered, List.flatMap_cons, hb] at hentries
    obtain ⟨rfl, hrest⟩ := List.cons.inj hentries
    have hending : source.ending = Source.ending later := by
      rw [← Source.ending_dropWhile, hlater, Source.ending]
    exact ⟨skipped, b, late, others, later, hdelivered, hending, hskipped, hb, hrest,
      hnext.trans (findStart_cons hb late later)⟩
  · rw [Source.entries, hnone] at hentries
    cases hentries

/-- A window whose first entry is the one at its start is read to what the source ends with. -/
theorem exists_reads_of_start (address : String) (hentries : source.entries = first :: rest)
    (hstart : first.position = start) : ∃ skipped b others later,
      source.delivered = skipped ++ b :: later ∧ (∀ s ∈ skipped, s.entries = []) ∧
      b.entries = first :: others ∧ others ++ later.flatMap RawBatch.entries = rest ∧
      Reads { inner := source, start, address } (.ofEntries others b.ready :: later)
        source.ending := by
  obtain ⟨skipped, b, late, others, later, hdelivered, hending, hskipped, hb, hrest, hnext⟩ :=
    exists_next_of_entries start address hentries
  rw [if_pos hstart] at hnext
  rw [hending]
  exact ⟨skipped, b, others, Source.delivered later, hdelivered, hskipped, hb, hrest,
    .batch hnext (reads_verified rfl)⟩

/-- A window whose first entry sits elsewhere is not read. -/
theorem reads_of_elsewhere (address : String) (hentries : source.entries = first :: rest)
    (hstart : first.position ≠ start) : Reads { inner := source, start, address } []
      (.failure (.windowMismatch start first.position)) := by
  obtain ⟨skipped, b, late, others, later, -, -, -, -, -, hnext⟩ :=
    exists_next_of_entries start address hentries
  rw [if_neg hstart] at hnext
  exact .last hnext trivial

/-- A window without entries is not read. -/
theorem reads_of_void (start : Position) (address : String) (hentries : source.entries = []) :
    (source.ending = .finish → Reads { inner := source, start, address } []
      (.failure (.windowMissing address start))) ∧
    (source.ending ≠ .finish → Reads { inner := source, start, address } [] source.ending) := by
  have hnext := next_of_unverified (w := { inner := source, start, address }) rfl
  rw [← Source.entries_dropWhile] at hentries
  rcases Source.dropWhile_isEmpty source with ⟨b, late, later, hlater, hb⟩ | hnone
  · rw [hlater, Source.entries, Source.delivered, List.flatMap_cons] at hentries
    exact absurd (List.append_eq_nil_iff.1 hentries).1 hb
  · have hanswer := findStart_of_delivered_eq_nil (w := { inner := source, start, address }) hnone
    rw [Source.ending_dropWhile] at hanswer
    constructor
    · intro hends
      exact .last (Prod.ext (by rw [hnext]; exact hanswer.1 hends) rfl) trivial
    · intro hends
      exact .last (Prod.ext (by rw [hnext]; exact hanswer.2 hends) rfl) source.isLast_ending

/-- What the source ends with is passed on, unless the start is missing or another one is found. -/
theorem concludes_passed (address : String)
    (hends : ¬ (source.entries = [] ∧ source.ending = .finish)) (hstart : source.StartsAt start) :
    Concludes source start address source.ending where
  missing := fun a p => ⟨fun h => .inr ⟨h, hstart⟩,
    fun h => h.elim (fun h => absurd ⟨h.1, h.2.1⟩ hends) And.left⟩
  shifted := by
    refine fun expected found => ⟨fun h => .inr ⟨h, hstart⟩, fun h => h.elim ?_ And.left⟩
    rintro ⟨first, rest, hentries, helsewhere, -⟩
    exact absurd ((Source.startsAt_iff_of_cons hentries).1 hstart) helsewhere
  passed := fun _ _ => rfl

/-- An error names the start and where the first entry sits instead. -/
theorem concludes_shifted (address : String) (hentries : source.entries = first :: rest)
    (helsewhere : first.position ≠ start) :
    Concludes source start address (.failure (.windowMismatch start first.position)) where
  missing := fun a p => iff_of_false (nomatch ·) <| by
    rintro (⟨hnone, -⟩ | ⟨-, hstart⟩)
    · rw [hentries] at hnone
      cases hnone
    · exact helsewhere ((Source.startsAt_iff_of_cons hentries).1 hstart)
  shifted := by
    intro expected found
    constructor
    · intro h
      cases h
      exact .inl ⟨first, rest, hentries, helsewhere, rfl, rfl⟩
    · rintro (⟨first', rest', hentries', -, rfl, rfl⟩ | ⟨-, hstart⟩)
      · rw [hentries] at hentries'
        rw [(List.cons.inj hentries').1]
      · exact absurd ((Source.startsAt_iff_of_cons hentries).1 hstart) helsewhere
  passed := fun _ hstart => absurd ((Source.startsAt_iff_of_cons hentries).1 hstart) helsewhere

/-- An error names the source and the start that is missing. -/
theorem concludes_missing (start : Position) (address : String) (hentries : source.entries = [])
    (hends : source.ending = .finish) :
    Concludes source start address (.failure (.windowMissing address start)) where
  missing := by
    intro a p
    constructor
    · intro h
      cases h
      exact .inl ⟨hentries, hends, rfl, rfl⟩
    · rintro (⟨-, -, rfl, rfl⟩ | ⟨hfails, -⟩)
      · rfl
      · rw [hends] at hfails
        cases hfails
  shifted := fun expected found => iff_of_false (nomatch ·) <| by
    rintro (⟨first, rest, hentries', -⟩ | ⟨hfails, -⟩)
    · rw [hentries] at hentries'
      cases hentries'
    · rw [hends] at hfails
      cases hfails
  passed := fun h => absurd ⟨hentries, hends⟩ h

/-- Where the first entry is not the one at the start, nothing is served. -/
theorem serves_nil (h : ∀ first rest, source.entries = first :: rest → first.position ≠ start) :
    Serves source start [] where
  entries := fun first rest hentries hstart => absurd hstart (h first rest hentries)
  batches := fun first rest hentries hstart => absurd hstart (h first rest hentries)
  verified := fun hne => absurd rfl hne

/-- Where the first entry is the one at the start, what is behind it is served. -/
theorem exists_serves_of_start (address : String) (hentries : source.entries = first :: rest)
    (hstart : first.position = start) : ∃ bs, Serves source start bs ∧
      Reads { inner := source, start, address } bs source.ending := by
  obtain ⟨skipped, b, others, later, hdelivered, hskipped, hb, hrest, hreads⟩ :=
    exists_reads_of_start address hentries hstart
  refine ⟨_, ?_, hreads⟩
  constructor
  · intro first' rest' hentries' _
    rw [hentries] at hentries'
    obtain ⟨rfl, rfl⟩ := List.cons.inj hentries'
    exact hrest
  · intro first' rest' hentries' _
    rw [hentries] at hentries'
    obtain ⟨rfl, rfl⟩ := List.cons.inj hentries'
    exact ⟨skipped, b, others, later, hdelivered, hskipped, hb, rfl⟩
  · exact fun _ => ⟨first, rest, hentries, hstart⟩

/-- Every window is read to an answer that is no batch. -/
theorem exists_reads (source : Source) (start : Position) (address : String) : ∃ bs answer,
    Reads { inner := source, start, address } bs answer ∧ Serves source start bs ∧
      Concludes source start address answer := by
  cases hentries : source.entries with
  | nil =>
    have hserves : Serves source start [] := serves_nil fun first rest hentries' => by
      rw [hentries] at hentries'
      cases hentries'
    obtain ⟨hmissing, hpassed⟩ := reads_of_void start address hentries
    by_cases hends : source.ending = .finish
    · exact ⟨[], _, hmissing hends, hserves, concludes_missing start address hentries hends⟩
    · exact ⟨[], _, hpassed hends, hserves,
        concludes_passed address (fun h => hends h.2) (Source.startsAt_of_nil hentries start)⟩
  | cons first rest =>
    by_cases hstart : first.position = start
    · obtain ⟨bs, hserves, hreads⟩ := exists_serves_of_start address hentries hstart
      refine ⟨bs, _, hreads, hserves, concludes_passed address (fun h => ?_)
        ((Source.startsAt_iff_of_cons hentries).2 hstart)⟩
      rw [hentries] at h
      cases h.1
    · refine ⟨[], _, reads_of_elsewhere address hentries hstart, serves_nil ?_,
        concludes_shifted address hentries hstart⟩
      intro first' rest' hentries'
      rw [hentries] at hentries'
      rw [← (List.cons.inj hentries').1]
      exact hstart

/-- A window serves exactly what is behind its start. Whatever a source answers, there is one way of
reading the window over it. What is served, and what reading ends with, is known from the entries
that the source delivers and from what it ends with. The first call comes to an answer with the
first answer of the source that is no batch without entries. -/
theorem reads_exactly (source : Source) (start : Position) (address : String) :
    (∃ bs answer,
      (∀ bs' answer', Reads { inner := source, start, address } bs' answer' ↔
        bs' = bs ∧ answer' = answer) ∧
      Serves source start bs ∧ Concludes source start address answer) ∧
    (next { inner := source, start, address }).2.inner =
      (source.dropWhile Fetch.isEmpty).tail := by
  obtain ⟨bs, answer, hreads, hserves, hconcludes⟩ := exists_reads source start address
  refine ⟨⟨bs, answer, fun bs' answer' => ⟨hreads.unique, ?_⟩, hserves, hconcludes⟩,
    inner_next rfl⟩
  rintro ⟨rfl, rfl⟩
  exact hreads

/-! ## Windows as sources -/

/-- A call that answers a batch leaves less of the source. -/
theorem length_inner_lt {late : Bool} (h : w.next = (.batch b late, w')) :
    w'.inner.length < w.inner.length := by
  cases hverified : w.verified with
  | true =>
    rw [next, if_pos hverified] at h
    cases hinner : w.inner with
    | nil =>
      rw [hinner] at h
      cases h
    | cons f rest =>
      rw [hinner] at h
      obtain ⟨-, rfl⟩ := Prod.mk.inj h
      exact Nat.lt_succ_self _
  | false =>
    have hinner := inner_next hverified
    rw [h] at hinner
    rw [next_of_unverified hverified] at h
    cases hrest : w.inner.dropWhile Fetch.isEmpty with
    | nil =>
      rw [hrest] at h
      cases h
    | cons f rest =>
      calc w'.inner.length = rest.length := by rw [hinner, hrest, List.tail_cons]
        _ < (w.inner.dropWhile Fetch.isEmpty).length := by rw [hrest]; exact Nat.lt_succ_self _
        _ ≤ w.inner.length := List.length_dropWhile_le ..

/-- Reading a window takes no more calls than its source has answers, and one. -/
theorem reads_answers {fuel : Nat} (hfuel : w.inner.length < fuel) :
    w.Reads (Source.delivered (answers fuel w)) (Source.ending (answers fuel w)) := by
  induction fuel generalizing w with
  | zero => exact absurd hfuel (Nat.not_lt_zero _)
  | succ fuel ih =>
    rcases hnext : w.next with ⟨answer, w'⟩
    rw [answers, hnext]
    cases answer with
    | batch b late =>
      have hless := length_inner_lt hnext
      exact .batch hnext (ih (by omega))
    | finish | failure | lost => exact .last hnext trivial

/-- The source that a window is taken for delivers what is read of it. -/
theorem reads_toSource (w : Window) : w.Reads w.toSource.delivered w.toSource.ending :=
  reads_answers (Nat.lt_succ_self _)

/-- A window that comes to its end has the entry at its start in front, and delivers what follows
it. -/
theorem of_endsWell (entries : List Entry) (size : Nat) (start : Position) (address : String)
    (h : (toSource { inner := .ofEntries entries size, start, address }).EndsWell) :
    ∃ first rest, entries = first :: rest ∧ first.position = start ∧ ∃ bs,
      (toSource { inner := .ofEntries entries size, start, address }).delivered = bs ∧
      bs.flatMap RawBatch.entries = rest ∧ ∀ b ∈ bs, b = .ofEntries b.entries b.ready := by
  obtain ⟨bs, hinner, hentries, hbs⟩ := Source.exists_ofEntries entries size
  have hdelivered : (Source.ofEntries entries size).delivered = bs := by
    rw [hinner, Source.delivered_serving]
  have hsource : (Source.ofEntries entries size).entries = entries := by
    rw [Source.entries, hdelivered, hentries]
  have hreads := reads_toSource { inner := .ofEntries entries size, start, address }
  rw [Source.endsWell_iff.1 h] at hreads
  -- Reading ends with a failure where there is no first entry, and where it sits elsewhere.
  cases entries with
  | nil =>
    obtain ⟨hmissing, hpassed⟩ := reads_of_void start address hsource
    by_cases hends : (Source.ofEntries [] size).ending = .finish
    · cases ((hmissing hends).unique hreads).2
    · exact absurd ((hpassed hends).unique hreads).2.symm hends
  | cons first rest =>
    by_cases hstart : first.position = start
    · obtain ⟨skipped, b, others, later, hsplit, -, -, hrest, hstarts⟩ :=
        exists_reads_of_start address hsource hstart
      have hlater : ∀ b ∈ later, b = .ofEntries b.entries b.ready := by
        intro b' hb'
        refine (hbs b' ?_).1
        rw [← hdelivered, hsplit]
        exact List.mem_append_right _ (List.mem_cons_of_mem _ hb')
      exact ⟨first, rest, rfl, hstart, _, (hstarts.unique hreads).1, hrest,
        List.forall_mem_cons.2 ⟨rfl, hlater⟩⟩
    · cases ((reads_of_elsewhere address hsource hstart).unique hreads).2

end Window

end Replica
