import MergeOnRead.Error

/-!
# Steps in place

An operation that changes something works on it in place. What it has done before it fails is not
taken back, so an operation that may fail has to make its checks before its changes.
-/

namespace MergeOnRead

/-- A step that works on a state in place. If it fails, then the state is left as it was at the
failure. -/
abbrev InPlace (σ α : Type) := EStateM Error σ α

namespace InPlace

variable {σ τ α : Type}

/-- Takes over the result of a check, which leaves the state alone. -/
def ofExcept (result : Except Error α) : InPlace σ α :=
  match result with
  | .ok a => pure a
  | .error e => throw e

/-- What a step gives and leaves, if it succeeds. -/
def result (step : InPlace σ α) (s : σ) : Except Error (α × σ) :=
  match step.run s with
  | .ok a s' => .ok (a, s')
  | .error e _ => .error e

/-- A step on one part of a state. What the step leaves is put back, also when it fails. -/
def onPart (part : σ → τ) (put : σ → τ → σ) (step : InPlace τ α) : InPlace σ α := fun s =>
  match step.run (part s) with
  | .ok a t => .ok a (put s t)
  | .error e t => .error e (put s t)

end InPlace

end MergeOnRead
