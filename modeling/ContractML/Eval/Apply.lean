import ContractML.Eval.Basic
import ContractML.Primitive.Run

/-!
# Applying closures and checking contracts

A closure is applied to as many arguments as it takes. A wrapped closure first checks the arguments
against the contracts of its domain, with the parties swapped, so that a bad argument is blamed on
the user; then it applies what it wraps, and checks the result.

A predicate is checked at once. A closure under a function contract is wrapped, and checked with
every later call; another value passes a function contract.

How a function of the language is called is a parameter here. Applying is then a recursion on the
wrappers of the closure.

## Main definitions

* `Closure.applyWith` — the result of a closure on arguments.
* `Contract.enforceWith` — a value that has passed a contract.
-/

namespace ContractML

/-- How a function of the language, given by parameters, body and environment, is called. -/
abbrev CallUser := List String → Expr → Env → List Value → Eval Value

namespace Eval

/-- Fails unless the number of arguments is the expected one. -/
def checkArity (expected found : Nat) (span : Span) : Eval Unit :=
  if found = expected then pure () else fail (.arity expected found) span

/-- Fails unless every argument has a type that its parameter accepts. -/
def checkTypes : List Ty → List Value → Span → Eval Unit
  | t :: ts, v :: vs, span =>
    if t.accepts v.type then checkTypes ts vs span else throw (.mismatch t v.type span)
  | _, _, _ => pure ()

end Eval

/-- The types of the parameters of a function type. -/
def Ty.params : Ty → List Ty
  | .fn params _ => params
  | _ => []

/-- The fault of a value that breaks a contract. -/
def Contract.violation (label party : String) (v : Value) (span : Span) : Fault :=
  ⟨.contractViolation party label v.render, some span⟩

/-- Wraps a closure by a function contract, if it takes as many arguments as the contract has
domains. -/
def Contract.wrap (domain : List Contract) (range : Contract) (label : String) (c : Closure)
    (pos neg : String) (span : Span) : Eval Value :=
  if c.arity = domain.length then do
    return .closure (.monitored (← Eval.fresh) c domain range pos neg)
  else throw (Contract.violation label pos (.closure c) span)

mutual

/-- Applies a closure; `span` is the place of the call. -/
def Closure.applyWith [Host] (call : CallUser) : Closure → List Value → Span → Eval Value
  | .native _ _ type body, args, span => do
    Eval.checkArity (type.arity?.getD 0) args.length span
    Eval.checkTypes type.params args span
    Eval.locate span (Eval.ofExcept (body.run args))
  | .user _ params body env, args, span => do
    Eval.checkArity params.length args.length span
    Eval.locate span (call params body env args)
  | .monitored _ inner domain range pos neg, args, span => do
    Eval.checkArity inner.arity args.length span
    let args ← Contract.enforceAllWith call domain args neg pos span
    let result ← inner.applyWith call args span
    range.enforceWith call result pos neg span
termination_by structural c => c

/-- Checks a value against a contract. A value that a predicate rejects is blamed on `pos`. -/
def Contract.enforceWith [Host] (call : CallUser) :
    Contract → Value → (pos neg : String) → Span → Eval Value
  | .base predicate label, v, pos, _, span => do
    match ← predicate.applyWith call [v] span with
    | .bool true => return v
    | .bool false => throw (Contract.violation label pos v span)
    | other => throw (.mismatch .bool other.type span)
  | .function domain range label, v, pos, neg, span =>
    match v with
    | .closure c => Contract.wrap domain range label c pos neg span
    | v => pure v
termination_by structural c => c

/-- Checks values against contracts, one by one. -/
def Contract.enforceAllWith [Host] (call : CallUser) :
    List Contract → List Value → (pos neg : String) → Span → Eval (List Value)
  | c :: cs, v :: vs, pos, neg, span => do
    let v ← c.enforceWith call v pos neg span
    let vs ← Contract.enforceAllWith call cs vs pos neg span
    return v :: vs
  | _, _, _, _, _ => pure []
termination_by structural c => c

end

end ContractML
