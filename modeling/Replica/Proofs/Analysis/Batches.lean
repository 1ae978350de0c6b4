import Replica.Proofs.Analysis.Gathering

/-!
# Batches of entries

What the next entry does to the gathering is one of four things: it is a command and closes it
(`gather_command`), it has no operation (`gather_none`), its operation is added (`gather_added`), or
that is not possible and a new gathering begins with it (`gather_closed`). Proofs about all batches
follow these steps (`Gathers`, `forall_mem_gather`).

A command is a barrier: nothing is left in the gathering behind it, so the entries before and behind
it are analyzed as if there were no others (`ofEntries_append_command`).
-/

namespace Replica.Batch

variable {c : Context} {g : Gathering} {e : Entry} {es fs : List Entry} {bs : List Batch}

/-! ## The next entry -/

/-- A command closes what was gathered. -/
theorem gather_command (he : e.isCommand = true) : gather c g (e :: es) =
    (gather c [] es).map fun later => g.close ++ .command e :: later := by
  rw [gather, if_pos he]
  cases gather c [] es <;> rfl

theorem gather_command_eq_ok (he : e.isCommand = true) : gather c g (e :: es) = .ok bs ↔
    ∃ later, gather c [] es = .ok later ∧ bs = g.close ++ .command e :: later := by
  rw [gather_command he]
  cases gather c [] es <;> simp [Except.map, eq_comm]

theorem gather_error {err : EntryError} (he : e.isCommand = false)
    (hop : NetOp.ofEntry? c e = .error err) : gather c g (e :: es) = .error err := by
  rw [gather, he, hop]
  rfl

theorem gather_none (he : e.isCommand = false) (hop : NetOp.ofEntry? c e = .ok none) :
    gather c g (e :: es) = gather c g es := by
  rw [gather, he, hop]
  rfl

theorem gather_added {g' : Gathering} {op : NetOp} (he : e.isCommand = false)
    (hop : NetOp.ofEntry? c e = .ok (some op)) (hadd : g.add e.ns op = some g') :
    gather c g (e :: es) = gather c g' es := by
  rw [gather, he, hop]
  simp only [bind, Except.bind, hadd]
  rfl

theorem gather_closed {op : NetOp} (he : e.isCommand = false)
    (hop : NetOp.ofEntry? c e = .ok (some op)) (hadd : g.add e.ns op = none) :
    gather c g (e :: es) =
      (gather c [⟨e.ns, [op]⟩] es).map fun later => g.close ++ later := by
  rw [gather, he, hop]
  simp only [bind, Except.bind, hadd]
  cases gather c [⟨e.ns, [op]⟩] es <;> rfl

/-- How an entry without a command is gathered before others: it has no operation, or its operation
is added, or what was gathered is closed and a new gathering begins with its operation. -/
inductive Gathers (c : Context) (g : Gathering) (e : Entry) (es : List Entry) : List Batch → Prop
  /-- The entry has no operation. -/
  | none {bs : List Batch} (read : NetOp.ofEntry? c e = .ok none)
      (rest : gather c g es = .ok bs) : Gathers c g e es bs
  /-- The operation is added to what was gathered. -/
  | added {g' : Gathering} {op : NetOp} {bs : List Batch}
      (read : NetOp.ofEntry? c e = .ok (some op)) (add : g.add e.ns op = some g')
      (rest : gather c g' es = .ok bs) : Gathers c g e es bs
  /-- The operation cannot be added, and a new gathering begins with it. -/
  | closed {op : NetOp} {later : List Batch} (read : NetOp.ofEntry? c e = .ok (some op))
      (full : g.add e.ns op = none) (rest : gather c [⟨e.ns, [op]⟩] es = .ok later) :
      Gathers c g e es (g.close ++ later)

theorem gathers_of_gather (he : e.isCommand = false) (h : gather c g (e :: es) = .ok bs) :
    Gathers c g e es bs := by
  cases hop : NetOp.ofEntry? c e with
  | error err =>
    rw [gather_error he hop] at h
    cases h
  | ok op? =>
    cases op? with
    | none =>
      rw [gather_none he hop] at h
      exact .none hop h
    | some op =>
      cases hadd : g.add e.ns op with
      | some g' =>
        rw [gather_added he hop hadd] at h
        exact .added hop hadd h
      | none =>
        rw [gather_closed he hop hadd] at h
        cases hlater : gather c [⟨e.ns, [op]⟩] es with
        | error err =>
          rw [hlater] at h
          cases h
        | ok later =>
          rw [hlater] at h
          obtain rfl := Except.ok.inj h
          exact .closed hop hadd hlater

/-! ## All batches -/

/-- What holds of the commands, and of all batches that are closed over what is gathered step by
step, holds of all batches of entries. -/
theorem forall_mem_gather {P : Batch → Prop} {Q : Gathering → Prop} (hempty : Q [])
    (hadd : ∀ g g' e op, e ∈ es → NetOp.ofEntry? c e = .ok (some op) → Q g →
      g.add e.ns op = some g' → Q g')
    (hclose : ∀ g, Q g → ∀ b ∈ g.close, P b)
    (hcommand : ∀ e ∈ es, e.isCommand = true → P (.command e)) (hg : Q g)
    (h : gather c g es = .ok bs) : ∀ b ∈ bs, P b := by
  induction es generalizing g bs with
  | nil =>
    obtain rfl := Except.ok.inj h
    exact hclose g hg
  | cons e es ih =>
    obtain ⟨hcommand, hcommands⟩ := List.forall_mem_cons.1 hcommand
    have hlater {g : Gathering} {bs : List Batch} (hg : Q g)
        (h : gather c g es = .ok bs) : ∀ b ∈ bs, P b :=
      ih (fun g g' e' op he => hadd g g' e' op (List.mem_cons_of_mem _ he)) hcommands hg h
    cases he : e.isCommand with
    | true =>
      -- A command closes what was gathered.
      obtain ⟨later, hgather, rfl⟩ := (gather_command_eq_ok he).1 h
      exact List.forall_mem_append.2
        ⟨hclose g hg, List.forall_mem_cons.2 ⟨hcommand he, hlater hempty hgather⟩⟩
    | false =>
      cases gathers_of_gather he h with
      | none _ rest => exact hlater hg rest
      | added read add rest => exact hlater (hadd _ _ e _ List.mem_cons_self read hg add) rest
      | closed read _ rest =>
        -- An operation that cannot be folded closes what was gathered and starts anew.
        have hfresh := hadd [] _ e _ List.mem_cons_self read hempty rfl
        exact List.forall_mem_append.2 ⟨hclose g hg, hlater hfresh rest⟩

/-- What holds of all batches that entries are gathered into, and of the batch that does nothing,
holds of all analyzed batches. -/
theorem forall_mem_ofEntries {P : Batch → Prop} (hnoop : P .noop)
    (hgather : ∀ bs, gather c [] es = .ok bs → ∀ b ∈ bs, P b) (h : ofEntries c es = .ok bs) :
    ∀ b ∈ bs, P b := by
  obtain ⟨gathered, hgathered, h⟩ := bind_eq_ok h
  split_ifs at h
  · obtain rfl := Except.ok.inj h
    exact List.forall_mem_singleton.2 hnoop
  · obtain rfl := Except.ok.inj h
    exact hgather _ hgathered

/-! ## Commands are barriers -/

/-- A command closes what was gathered before it, and a new gathering begins behind it. -/
theorem gather_append_command (he : e.isCommand = true) : gather c g (es ++ e :: fs) =
    (gather c g es).bind fun before =>
      (gather c [] fs).map fun later => before ++ .command e :: later := by
  induction es generalizing g with
  | nil =>
    rw [List.nil_append, gather_command he]
    rfl
  | cons a es ih =>
    rw [List.cons_append]
    cases ha : a.isCommand with
    | true =>
      rw [gather_command ha, gather_command ha, ih]
      cases gather c [] es with
      | error err => rfl
      | ok before => cases gather c [] fs <;> simp [Except.map, Except.bind]
    | false =>
      cases hop : NetOp.ofEntry? c a with
      | error err =>
        rw [gather_error ha hop, gather_error ha hop]
        rfl
      | ok op? =>
        cases op? with
        | none => rw [gather_none ha hop, gather_none ha hop, ih]
        | some op =>
          cases hadd : g.add a.ns op with
          | some g' => rw [gather_added ha hop hadd, gather_added ha hop hadd, ih]
          | none =>
            rw [gather_closed ha hop hadd, gather_closed ha hop hadd, ih]
            cases gather c [⟨a.ns, [op]⟩] es with
            | error err => rfl
            | ok before => cases gather c [] fs <;> simp [Except.map, Except.bind]

theorem gather_append_command_eq_ok (he : e.isCommand = true) :
    gather c g (es ++ e :: fs) = .ok bs ↔ ∃ before later, gather c g es = .ok before ∧
      gather c [] fs = .ok later ∧ bs = before ++ .command e :: later := by
  rw [gather_append_command he]
  cases gather c g es with
  | error err => simp [Except.bind]
  | ok before => cases gather c [] fs <;> simp [Except.bind, Except.map, eq_comm]

/-- Gathering makes no batch for entries that do nothing. -/
theorem ne_noop_of_gather (h : gather c g es = .ok bs) : ∀ b ∈ bs, b ≠ .noop := by
  refine forall_mem_gather (Q := fun _ => True) trivial (fun _ _ _ _ _ _ _ _ => trivial) ?_
    (fun _ _ _ => by simp) trivial h
  intro g _ b hb
  rw [Gathering.close_eq] at hb
  split_ifs at hb
  · cases hb
  · rw [List.mem_singleton.1 hb]
    simp

/-- Entries are gathered into what they are analyzed into, without the batch that does nothing. -/
theorem gather_eq_map (c : Context) (es : List Entry) :
    gather c [] es = (ofEntries c es).map fun bs => bs.filter (· ≠ .noop) := by
  unfold ofEntries
  cases hgather : gather c [] es with
  | error err => rfl
  | ok bs =>
    simp only [bind, Except.bind, pure, Except.pure]
    split_ifs with hempty
    · rw [Bool.and_eq_true, List.isEmpty_iff] at hempty
      rw [hempty.1]
      rfl
    · have hall : bs.filter (· ≠ .noop) = bs :=
        List.filter_eq_self.2 fun b hb => decide_eq_true (ne_noop_of_gather hgather b hb)
      rw [Except.map, hall]

/-- A command is a barrier: entries with a command among them can be analyzed exactly when those
before it and those behind it can be, with the first failure of these. Then there are the batches of
those before it, the command, and the batches of those behind it, a batch that does nothing left
out. -/
theorem ofEntries_append_command (he : e.isCommand = true) : ofEntries c (es ++ [e] ++ fs) = do
    let before ← ofEntries c es
    let later ← ofEntries c fs
    return before.filter (· ≠ .noop) ++ [.command e] ++ later.filter (· ≠ .noop) := by
  rw [ofEntries, List.append_assoc, List.singleton_append, gather_append_command he,
    gather_eq_map c es, gather_eq_map c fs]
  cases ofEntries c es with
  | error err => rfl
  | ok before =>
    cases ofEntries c fs with
    | error err => rfl
    | ok later => simp [bind, Except.bind, Except.map, pure, Except.pure]

theorem ofEntries_append_command_drop :
    let orders : Namespace := ⟨"shop", "orders"⟩
    let quiet : Entry := ⟨⟨1, 1⟩, 1, orders, .noop⟩
    let drop : Entry := ⟨⟨1, 2⟩, 2, orders, .command .drop⟩
    let entered : Entry := ⟨⟨1, 3⟩, 3, orders, .insert (.obj [("_id", .str "o-1")])⟩
    drop.isCommand = true ∧ ofEntries .steady [quiet] = .ok [.noop] ∧
      ofEntries .steady ([quiet] ++ [drop] ++ [entered]) = .ok [.command drop,
        .jobs [⟨orders, [⟨.str "o-1", .insert (.obj [("_id", .str "o-1")]), false⟩]⟩]] := by
  intro orders quiet drop entered
  have hquiet : ofEntries .steady [quiet] = .ok [.noop] := by decide +kernel
  have hentered : ofEntries .steady [entered] = .ok
      [.jobs [⟨orders, [⟨.str "o-1", .insert (.obj [("_id", .str "o-1")]), false⟩]⟩]] := by
    decide +kernel
  refine ⟨rfl, hquiet, ?_⟩
  rw [ofEntries_append_command rfl, hquiet, hentered]
  rfl

end Replica.Batch
