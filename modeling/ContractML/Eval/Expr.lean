import ContractML.Eval.Apply

/-!
# Evaluating expressions

Operands, callees and arguments are evaluated from left to right. A variable is looked up when it
is reached, so a function sees the global bindings of the time of its call.

A monitored expression is evaluated, its contract is evaluated in the global frame, and the value
is checked.

How a closure is applied is a parameter of `Expr.evalWith`, which makes evaluating a recursion on
the expression. The two recursions are tied together by a number of levels: a call at one level
evaluates the body of the function with calls at the level below. Every level is one more open
call, so with as many levels as there may be open calls the limit on calls is met first.

## Main definitions

* `Expr.evalWith`, `ContractExpr.resolveWith` — evaluating, given how to apply a closure.
* `callUser` — calling a function of the language.
* `Expr.eval`, `Closure.apply`, `ContractExpr.resolve`, `Contract.enforce` — the evaluator.
-/

namespace ContractML

/-- The party that uses a value at the top level. -/
def topLevel : String := "top-level"

/-- How a closure is applied at a place. -/
abbrev Apply := Closure → List Value → Span → Eval Value

/-- How a contract is checked at a place, the supplier of the value before its user. -/
abbrev Enforce := Contract → Value → (pos neg : String) → Span → Eval Value

/-- What evaluating an expression needs. -/
structure Machine where
  /-- The frames. -/
  store : Store
  /-- How a closure is applied. -/
  apply : Apply
  /-- How a contract is checked. -/
  enforce : Enforce

/-- The type of a predicate. -/
def predicateType : Ty := .fn [.var 0] .bool

/-- A contract from the value of its predicate, which has to be a closure of one argument. -/
def Contract.ofPredicate (label : String) (v : Value) (span : Span) : Except Fault Contract :=
  match v with
  | .closure c =>
    if c.arity = 1 then .ok (.base c label) else .error (.mismatch predicateType c.type span)
  | v => .error (.mismatch predicateType v.type span)

mutual

/-- The value of an expression in an environment. -/
def Expr.evalWith (m : Machine) : Expr → Env → Eval Value
  | .lit v _, _ => pure v.toValue
  | .var x, env =>
    match env.get? m.store x.text with
    | some v => pure v
    | none => Eval.fail (.unboundName x.text) x.span
  | .unary op e span, env => do
    let v ← e.evalWith m env
    Eval.ofExcept (op.eval v span)
  | .binary op l r span, env => do
    let v ← l.evalWith m env
    let w ← r.evalWith m env
    Eval.ofExcept (op.eval v w span)
  | .logical op l r _, env => do
    let b ← Eval.expectBool (← l.evalWith m env) l.span
    match op, b with
    | .and, false => return .bool false
    | .or, true => return .bool true
    | _, _ => return .bool (← Eval.expectBool (← r.evalWith m env) r.span)
  | .cond c t e _, env => do
    if ← Eval.expectBool (← c.evalWith m env) c.span then t.evalWith m env else e.evalWith m env
  | .lambda params body _, env => do
    return .closure (.user (← Eval.fresh) (params.map Ident.text) body env)
  | .call f args span, env => do
    let callee ← f.evalWith m env
    let vs ← Expr.evalAllWith m args env
    match callee with
    | .closure c => m.apply c vs span
    | other => Eval.fail (.notCallable other.type) f.span
  | .letIn x v b _, env => do
    let value ← v.evalWith m env
    b.evalWith m (.bind x.text value env)
  | .seq es span, env => do
    match (← Expr.evalAllWith m es env).getLast? with
    | some v => return v
    | none => throw (.mismatch (.var 0) (.var 0) span)
  | .monitored e c pos neg, env => do
    let v ← e.evalWith m env
    let contract ← c.resolveWith m env.root
    m.enforce contract v pos (neg.getD topLevel) e.span
termination_by structural e => e

/-- The values of expressions, evaluated from left to right. -/
def Expr.evalAllWith (m : Machine) : List Expr → Env → Eval (List Value)
  | [], _ => pure []
  | e :: es, env => do
    let v ← e.evalWith m env
    let vs ← Expr.evalAllWith m es env
    return v :: vs
termination_by structural es => es

/-- A contract with its predicates evaluated. -/
def ContractExpr.resolveWith (m : Machine) : ContractExpr → Env → Eval Contract
  | .flat e, env => do
    let v ← e.evalWith m env
    Eval.ofExcept (Contract.ofPredicate e.render v e.span)
  | .arrow domain range span, env => do
    let ds ← ContractExpr.resolveAllWith m domain env
    let r ← range.resolveWith m env
    return .function ds r (ContractExpr.arrow domain range span).render
termination_by structural c => c

/-- Contracts with their predicates evaluated, from left to right. -/
def ContractExpr.resolveAllWith (m : Machine) : List ContractExpr → Env → Eval (List Contract)
  | [], _ => pure []
  | c :: cs, env => do
    let d ← c.resolveWith m env
    let ds ← ContractExpr.resolveAllWith m cs env
    return d :: ds
termination_by structural cs => cs

end

/-- The machine that calls functions of the language by `call`. -/
def Machine.ofCall [Host] (store : Store) (call : CallUser) : Machine where
  store := store
  apply := Closure.applyWith call
  enforce := Contract.enforceWith call

/-- Calls a function of the language: its body is evaluated with the parameters bound over the
environment of the function. Calls inside it are made at the level below. -/
def callUser [Host] (store : Store) : (level : Nat) → CallUser
  | 0 => fun _ _ _ _ => throw ⟨.callDepthExceeded, none⟩
  | level + 1 => fun params body env args =>
    Eval.deeper (body.evalWith (.ofCall store (callUser store level)) (env.bindAll params args))

/-- The machine over a store. -/
def Machine.over [Host] (store : Store) : Machine := .ofCall store (callUser store maxCallDepth)

/-- The value of an expression in an environment. -/
def Expr.eval [Host] (store : Store) (e : Expr) (env : Env) : Eval Value :=
  e.evalWith (.over store) env

/-- The result of a closure on arguments. -/
def Closure.apply [Host] (store : Store) : Apply := (Machine.over store).apply

/-- The contract that a written contract denotes in an environment. -/
def ContractExpr.resolve [Host] (store : Store) (c : ContractExpr) (env : Env) : Eval Contract :=
  c.resolveWith (.over store) env

/-- A value checked against a contract. -/
def Contract.enforce [Host] (store : Store) : Enforce := (Machine.over store).enforce

end ContractML
