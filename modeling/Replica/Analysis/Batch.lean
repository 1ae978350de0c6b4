import Replica.Analysis.Fold

/-!
# Executable batches

`Batch.ofEntries` turns a run of entries into batches that are executed in order. Entries that
change documents are gathered into one batch with a job for each collection and one operation for
each document. A batch is closed where an operation cannot be folded into the one before it, and at
every command, which is a batch of its own.
-/

namespace Replica

/-- The operations on one collection, one for each document. -/
structure Job where
  /-- The collection. -/
  ns : Namespace
  /-- The operations. -/
  ops : List NetOp
  deriving DecidableEq

namespace Job

/-- Cuts a list into pieces of a given size; `fuel` bounds their number. -/
def pieces (size : Nat) : Nat → List α → List (List α)
  | 0, _ => []
  | _, [] => []
  | fuel + 1, l => l.take size :: pieces size fuel (l.drop size)

/-- Splits a job into jobs of at most `size` operations, and of one at least. -/
def split (job : Job) (size : Nat) : List Job :=
  let size := max size 1
  if job.ops.length ≤ size then [job]
  else (pieces size job.ops.length job.ops).map fun ops => ⟨job.ns, ops⟩

end Job

/-- What is executed as one step. -/
inductive Batch where
  /-- Jobs on different collections, in the order in which the collections were met. -/
  | jobs (jobs : List Job)
  /-- A command. -/
  | command (entry : Entry)
  /-- Entries were received, but they do nothing. -/
  | noop
  deriving DecidableEq

/-- The number of operations of some jobs. -/
def Job.count : List Job → Nat
  | [] => 0
  | job :: rest => job.ops.length + Job.count rest

/-- The jobs of the batch that is being gathered. -/
abbrev Gathering := List Job

namespace Gathering

/-- Puts an operation behind those of its job, or folds it into the one on the same document;
nothing if that is not possible. -/
def addOp (op : NetOp) : List NetOp → Option (List NetOp)
  | [] => some [op]
  | first :: rest =>
    if first.key = op.key then (first.fold? op).map (· :: rest)
    else (addOp op rest).map (first :: ·)

/-- Adds an operation to the job of its collection; nothing if it cannot be folded. -/
def add (ns : Namespace) (op : NetOp) : Gathering → Option Gathering
  | [] => some [⟨ns, [op]⟩]
  | job :: rest =>
    if job.ns = ns then (addOp op job.ops).map fun ops => ⟨ns, ops⟩ :: rest
    else (add ns op rest).map (job :: ·)

/-- The batch of what was gathered, if anything of it has an effect: operations that do nothing and
jobs without operations are left out. -/
def close (g : Gathering) : List Batch :=
  let jobs := g.map fun job => { job with ops := job.ops.filter fun op => op.effect ≠ .noop }
  let jobs := jobs.filter fun job => !job.ops.isEmpty
  if jobs.isEmpty then [] else [.jobs jobs]

end Gathering

namespace Batch

/-- The batches of the entries, `g` being what was gathered before them. -/
def gather (c : Context) : Gathering → List Entry → Except EntryError (List Batch)
  | g, [] => .ok g.close
  | g, e :: es =>
    if e.isCommand then do
      let later ← gather c [] es
      return g.close ++ .command e :: later
    else do
      match ← NetOp.ofEntry? c e with
      | none => gather c g es
      | some op =>
        match g.add e.ns op with
        | some g => gather c g es
        | none =>
          let later ← gather c [⟨e.ns, [op]⟩] es
          return g.close ++ later

/-- The batches of a run of entries. Entries that do nothing make a batch only if there is no
other. -/
def ofEntries (c : Context) (entries : List Entry) : Except EntryError (List Batch) := do
  let batches ← gather c [] entries
  if batches.isEmpty && entries.any fun e => e.action == .noop then return [.noop]
  else return batches

end Batch

end Replica
