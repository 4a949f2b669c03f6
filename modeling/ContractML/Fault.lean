import ContractML.Parser.Stream
import ContractML.Ty

/-!
# Failures

What can go wrong when a program runs, and what the report says about it.

A fault may be raised where its place in the program is not known; the innermost call around it
then gives it one.

## Main definitions

* `Fault.Cause`, `Fault` — what goes wrong in an evaluation, and where.
* `Fault.locate` — gives a fault a place unless it has one.
* `Failure` — a syntax error or a fault, with its `kind`, `message` and `span?`.
-/

namespace ContractML

/-- The greatest number of calls that may be open at once. -/
def maxCallDepth : Nat := 1000

/-- Why an evaluation fails. -/
inductive Fault.Cause where
  /-- A variable is bound nowhere. -/
  | unboundName (name : String)
  /-- A closure is applied to the wrong number of arguments. -/
  | arity (expected found : Nat)
  /-- A value breaks a contract; `party` is to blame. -/
  | contractViolation (party contract value : String)
  /-- A value has a type that is not accepted. -/
  | typeMismatch (expected found : Ty)
  /-- An integer is divided by zero. -/
  | divisionByZero
  /-- A value that is no closure is applied. -/
  | notCallable (type : Ty)
  /-- Closures are compared by value. -/
  | functionalComparison
  /-- Too many calls are open. -/
  | callDepthExceeded
  deriving Repr, Inhabited

/-- The text of a cause. -/
def Fault.Cause.message : Fault.Cause → String
  | unboundName name => "Unbound value " ++ name
  | arity expected found =>
    "This function expects " ++ toString expected ++ " argument(s) but is applied to " ++
      toString found
  | contractViolation party _ _ => "Contract violated by " ++ party
  | typeMismatch expected found =>
    "This expression has type " ++ found.render ++
      " but an expression was expected of type " ++ expected.render
  | divisionByZero => "Division_by_zero"
  | notCallable type =>
    "This expression has type " ++ type.render ++
      "; it is not a function and cannot be applied"
  | functionalComparison => "compare: functional value"
  | callDepthExceeded =>
    "maximum call depth exceeded (limit: " ++ toString maxCallDepth ++ " calls)"

/-- The word by which a report names the kind of a cause. -/
def Fault.Cause.kind : Fault.Cause → String
  | unboundName _ => "unbound_name"
  | arity _ _ => "arity"
  | contractViolation _ _ _ => "contract_violation"
  | typeMismatch _ _ => "type_mismatch"
  | divisionByZero => "division_by_zero"
  | notCallable _ => "not_callable"
  | functionalComparison => "functional_comparison"
  | callDepthExceeded => "call_depth_exceeded"

/-- What went wrong in an evaluation, and where if that is known. -/
structure Fault where
  /-- Why the evaluation failed. -/
  cause : Fault.Cause
  /-- Where it failed. -/
  span? : Option Span
  deriving Repr, Inhabited

/-- Gives a fault a place unless it has one. -/
def Fault.locate (span : Span) (f : Fault) : Fault :=
  { f with span? := f.span?.or (some span) }

@[simp] theorem Fault.cause_locate (span : Span) (f : Fault) : (f.locate span).cause = f.cause :=
  rfl

/-- A failure of a statement. -/
inductive Failure where
  /-- The statement is malformed. -/
  | malformed (error : SyntaxError)
  /-- The statement went wrong. -/
  | fault (fault : Fault)
  deriving Repr, Inhabited

namespace Failure

/-- The word by which a report names the kind of a failure. -/
def kind : Failure → String
  | malformed _ => "syntax"
  | fault f => f.cause.kind

/-- The text of a failure. -/
def message : Failure → String
  | malformed e => "Syntax error: " ++ e.message
  | fault f => f.cause.message

/-- Where a failure was noticed. -/
def span? : Failure → Option Span
  | malformed e => some e.span
  | fault f => f.span?

end Failure

end ContractML
