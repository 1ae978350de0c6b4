import Replica.Analysis.NetOp

/-!
# Folding two operations on one document

`NetOp.fold?` merges an operation with a later one on the same document if one operation has the
effect of both in order. Where no single operation has it, the two are executed apart. What decides
is that nothing is hidden: an insert keeps its check for a document that is already there, and a
target that is required at some point stays required.
-/

namespace Replica.NetOp

/-- The document that modifiers make of a document, if they can be applied. -/
def modified? (modifiers : List Modifier) (doc : Json) : Option Json :=
  (Modifier.applyAll modifiers doc).toOption

/-- The effect of two operations in order, and whether it requires its target. -/
def foldEffects? (first next : NetOp) : Option (Effect × Bool) :=
  let required := first.requiresMatch
  let requiredByEither := first.requiresMatch || next.requiresMatch
  match first.effect, next.effect with
  | effect, .noop => some (effect, required)
  | .noop, effect => some (effect, next.requiresMatch)
  -- One operation would not notice that the inserted document was already there.
  | .insert _, .deleteCreate _ => none
  | _, .deleteCreate doc => some (.deleteCreate doc, required)
  | .insert _, .delete => some (.noop, required)
  | .deleteCreate _, .delete | .update _ true, .delete => some (.delete, required)
  | .replace _, .delete | .update _ false, .delete => some (.delete, requiredByEither)
  -- Behind a delete nothing is found, so only what requires nothing can follow.
  | .delete, .delete | .delete, .replace _ | .delete, .update _ false =>
    if next.requiresMatch then none else some (.delete, required)
  | .delete, .insert doc => some (.deleteCreate doc, required)
  | .insert _, .replace doc => some (.insert doc, required)
  | .deleteCreate _, .replace doc | .update _ true, .replace doc =>
    some (.deleteCreate doc, required)
  | .replace _, .replace doc | .update _ false, .replace doc =>
    some (.replace doc, requiredByEither)
  | .insert doc, .update modifiers _ =>
    (modified? modifiers doc).map fun doc => (.insert doc, required)
  | .deleteCreate doc, .update modifiers _ =>
    (modified? modifiers doc).map fun doc => (.deleteCreate doc, required)
  | .replace doc, .update modifiers false =>
    (modified? modifiers doc).map fun doc => (.replace doc, requiredByEither)
  | .delete, .update modifiers true =>
    (modified? modifiers (bareDocument first.id)).map fun doc => (.deleteCreate doc, required)
  | .update earlier true, .update later _ => some (.update (earlier ++ later) true, required)
  | .update earlier false, .update later false =>
    some (.update (earlier ++ later) false, requiredByEither)
  | _, _ => none

/-- One operation with the effect of two operations on one document in order, if there is one. -/
def fold? (first next : NetOp) : Option NetOp :=
  (foldEffects? first next).map fun (effect, required) => ⟨first.id, effect, required⟩

end Replica.NetOp
