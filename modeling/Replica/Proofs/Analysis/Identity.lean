import Replica.Proofs.Analysis.Fold

/-!
# The identity of documents

Whatever an operation inserts is a document with the key of the operation
(`NetOp.Analyzed.identified_result`), be it the operation of an entry or one that several were
folded into. The identifier gets into the document by the entry itself, by the document that is
modified or by the bare one, and modifiers leave it alone; folding puts together operations on one
key, and what it keeps of either of them carries that key. Hence no job inserts over another
document.
-/

namespace Replica.NetOp

/-- What the analysis of entries leads to: what an entry is read into, and what two operations on
one document are folded into. -/
inductive Analyzed : NetOp → Prop
  /-- An entry is read into the operation. -/
  | read {c : Context} {e : Entry} {op : NetOp} (read : ofEntry? c e = .ok (some op)) : Analyzed op
  /-- Two operations on one document are folded into the operation. -/
  | folded {first next op : NetOp} (hfirst : Analyzed first) (hnext : Analyzed next)
      (hkey : first.key = next.key) (folded : first.fold? next = some op) : Analyzed op

variable {op : NetOp}

theorem Analyzed.wellFormed (h : op.Analyzed) : op.WellFormed := by
  induction h with
  | read read => exact (NetOp.fresh_of_ofEntry? read).wellFormed
  | folded _ _ hkey folded hfirst hnext => exact hfirst.fold folded hkey hnext

/-- What an operation inserts is an object with the identifier, and hence with the key, of the
operation, whether a target was found or not, if a document that was loaded has this key. -/
theorem Analyzed.identified_result (h : op.Analyzed) {found : Bool} {prior : Option Json}
    {doc : Json} (hprior : ∀ d, prior = some d → DocKey.ofDocument d = .ok op.key)
    (hresult : op.result found prior = .ok (some doc)) :
    ∃ members, doc = .obj members ∧ documentId doc = .ok op.id ∧
      DocKey.ofDocument doc = .ok op.key := by
  have hkeyed := h.wellFormed.result_keyed hprior hresult
  obtain ⟨id, hid, hkey⟩ := exists_documentId hkeyed
  obtain rfl : op.id = id := DocKey.ofId_injective hkey
  cases doc with
  | obj members => exact ⟨members, rfl, hid, hkeyed⟩
  | _ => cases hid

/-- An order that is entered by an upsert and then paid. -/
def paidOrder : NetOp :=
  ⟨.str "o-1", .update [.set "total" (.int 3), .set "paid" (.bool true)] true, false⟩

theorem Analyzed.identified_result_paid :
    let prior : Json := .obj [("_id", .str "o-1"), ("total", .int 9)]
    let doc : Json := .obj [("_id", .str "o-1"), ("paid", .bool true), ("total", .int 3)]
    paidOrder.Analyzed ∧ DocKey.ofDocument prior = .ok paidOrder.key ∧
      paidOrder.result true (some prior) = .ok (some doc) ∧
      ∃ members, doc = .obj members ∧ documentId doc = .ok paidOrder.id ∧
        DocKey.ofDocument doc = .ok paidOrder.key := by
  intro prior doc
  have hentered : ofEntry? .recovery ⟨⟨1, 1⟩, 1, ⟨"shop", "orders"⟩,
      .update (.str "o-1") (.obj [("$set", .obj [("total", .int 3)])]) false⟩ =
        .ok (some ⟨.str "o-1", .update [.set "total" (.int 3)] true, false⟩) := by decide +kernel
  have hpaid : ofEntry? .steady ⟨⟨1, 2⟩, 2, ⟨"shop", "orders"⟩,
      .update (.str "o-1") (.obj [("$set", .obj [("paid", .bool true)])]) false⟩ =
        .ok (some ⟨.str "o-1", .update [.set "paid" (.bool true)] false, true⟩) := by decide +kernel
  have hanalyzed : paidOrder.Analyzed :=
    .folded (.read hentered) (.read hpaid) rfl (by decide +kernel)
  have hprior : DocKey.ofDocument prior = .ok paidOrder.key := by decide +kernel
  have hresult : paidOrder.result true (some prior) = .ok (some doc) := by decide +kernel
  refine ⟨hanalyzed, hprior, hresult, hanalyzed.identified_result (fun d hd => ?_) hresult⟩
  exact Option.some.inj hd ▸ hprior

end Replica.NetOp
