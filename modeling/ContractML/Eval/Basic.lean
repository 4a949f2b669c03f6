import ContractML.Arithmetic
import ContractML.Store

/-!
# Evaluations

An evaluation gives a value or fails with a fault. It keeps two counters: the identities given out
to closures, and the calls that are open. Both survive a failure.

## Main definitions

* `Counters`, `Eval` — the counters, and evaluations that keep them.
* `Eval.fresh` — a new identity.
* `Eval.locate` — gives a fault a place.
* `Eval.deeper` — an evaluation inside one more call.
-/

namespace ContractML

/-- What an evaluation counts. -/
structure Counters where
  /-- The next identity of a closure. -/
  identity : Nat
  /-- The number of open calls. -/
  depth : Nat
  deriving DecidableEq, Repr, Inhabited

/-- An evaluation. -/
abbrev Eval := EStateM Fault Counters

namespace Eval

variable {α : Type}

/-- A new identity. -/
def fresh : Eval Nat :=
  modifyGet fun c => (c.identity, { c with identity := c.identity + 1 })

/-- Fails at a place. -/
def fail (cause : Fault.Cause) (span : Span) : Eval α := throw ⟨cause, some span⟩

/-- Gives a value or fails. -/
def ofExcept : Except Fault α → Eval α
  | .ok a => pure a
  | .error f => throw f

/-- Gives the fault of an evaluation a place unless it has one. -/
def locate (span : Span) (x : Eval α) : Eval α := fun c =>
  match x c with
  | .ok a c => .ok a c
  | .error f c => .error (f.locate span) c

/-- Evaluates inside one more call, unless too many calls are open. The call is closed again
whether or not the evaluation fails. -/
def deeper (x : Eval α) : Eval α := fun c =>
  if maxCallDepth ≤ c.depth then .error ⟨.callDepthExceeded, none⟩ c
  else
    match x { c with depth := c.depth + 1 } with
    | .ok a c => .ok a { c with depth := c.depth - 1 }
    | .error f c => .error f { c with depth := c.depth - 1 }

/-- An evaluation inside one more call fails at once if the limit is reached. -/
theorem deeper_of_le (x : Eval α) {c : Counters} (h : maxCallDepth ≤ c.depth) :
    x.deeper c = .error ⟨.callDepthExceeded, none⟩ c := by
  simp [deeper, h]

/-- The truth value of a value. -/
def expectBool (v : Value) (span : Span) : Eval Bool :=
  match v with
  | .bool b => pure b
  | v => throw (.mismatch .bool v.type span)

end Eval

end ContractML
