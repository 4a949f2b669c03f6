import ContractML.Eval.Expr
import ContractML.Frames.Act

/-!
# Evaluating on frames

The evaluator as it works on frames. An environment is a chain of frames. A local variable, and the
parameters of a function, are bound in a new frame, which is opened inside the chain in which they
are visible; a function keeps the chain in which it was made. All frames are in one store that is
read and written by every step.

The shape of the evaluator is that of the one that keeps local variables in environments: applying
is a recursion on the wrappers of a closure, evaluating a recursion on the expression, and the two
are tied together by levels.

## Main definitions

* `Closure.applyFramed`, `Contract.enforceFramed` — applying and checking, given how to call.
* `Expr.evalFramed`, `ContractExpr.resolveFramed` — evaluating, given how to apply.
* `callFramed` — calling a function of the language.
* `FramedMachine.top` — the evaluator on frames.
-/

namespace ContractML

/-! ### Applying and checking -/

/-- How a function of the language, given by parameters, body and environment, is called. -/
abbrev CallFramed := List String → Expr → Env → List Value → Act Value

mutual

/-- Applies a closure; `span` is the place of the call. -/
def Closure.applyFramed [Host] (call : CallFramed) : Closure → List Value → Span → Act Value
  | .native _ _ type body, args, span => do
    Act.ofEval (Eval.checkArity (type.arity?.getD 0) args.length span)
    Act.ofEval (Eval.checkTypes type.params args span)
    Act.ofEval (Eval.locate span (Eval.ofExcept (body.run args)))
  | .user _ params body env, args, span => do
    Act.ofEval (Eval.checkArity params.length args.length span)
    Act.locate span (call params body env args)
  | .monitored _ inner domain range pos neg, args, span => do
    Act.ofEval (Eval.checkArity inner.arity args.length span)
    let args ← Contract.enforceAllFramed call domain args neg pos span
    let result ← inner.applyFramed call args span
    range.enforceFramed call result pos neg span
termination_by structural c => c

/-- Checks a value against a contract. A value that a predicate rejects is blamed on `pos`. -/
def Contract.enforceFramed [Host] (call : CallFramed) :
    Contract → Value → (pos neg : String) → Span → Act Value
  | .base predicate label, v, pos, _, span => do
    match ← predicate.applyFramed call [v] span with
    | .bool true => return v
    | .bool false => throw (Contract.violation label pos v span)
    | other => throw (.mismatch .bool other.type span)
  | .function domain range label, v, pos, neg, span =>
    match v with
    | .closure c => Act.ofEval (Contract.wrap domain range label c pos neg span)
    | v => pure v
termination_by structural c => c

/-- Checks values against contracts, one by one. -/
def Contract.enforceAllFramed [Host] (call : CallFramed) :
    List Contract → List Value → (pos neg : String) → Span → Act (List Value)
  | c :: cs, v :: vs, pos, neg, span => do
    let v ← c.enforceFramed call v pos neg span
    let vs ← Contract.enforceAllFramed call cs vs pos neg span
    return v :: vs
  | _, _, _, _, _ => pure []
termination_by structural c => c

end

/-! ### Evaluating -/

/-- What evaluating on frames needs. -/
structure FramedMachine where
  /-- How a closure is applied. -/
  apply : Closure → List Value → Span → Act Value
  /-- How a contract is checked. -/
  enforce : Contract → Value → (pos neg : String) → Span → Act Value

mutual

/-- The value of an expression in a chain of frames. -/
def Expr.evalFramed (m : FramedMachine) : Expr → Chain → Act Value
  | .lit v _, _ => pure v.toValue
  | .var x, c => do
    match ← Act.get? c x.text with
    | some v => pure v
    | none => Act.ofEval (Eval.fail (.unboundName x.text) x.span)
  | .unary op e span, c => do
    let v ← e.evalFramed m c
    Act.ofEval (Eval.ofExcept (op.eval v span))
  | .binary op l r span, c => do
    let v ← l.evalFramed m c
    let w ← r.evalFramed m c
    Act.ofEval (Eval.ofExcept (op.eval v w span))
  | .logical op l r _, c => do
    let b ← Act.ofEval (Eval.expectBool (← l.evalFramed m c) l.span)
    match op, b with
    | .and, false => return .bool false
    | .or, true => return .bool true
    | _, _ => return .bool (← Act.ofEval (Eval.expectBool (← r.evalFramed m c) r.span))
  | .cond i t e _, c => do
    if ← Act.ofEval (Eval.expectBool (← i.evalFramed m c) i.span) then t.evalFramed m c
    else e.evalFramed m c
  | .lambda params body _, c => do
    return .closure (.user (← Act.ofEval Eval.fresh) (params.map Ident.text) body (.frames c))
  | .call f args span, c => do
    let callee ← f.evalFramed m c
    let vs ← Expr.evalAllFramed m args c
    match callee with
    | .closure g => m.apply g vs span
    | other => Act.ofEval (Eval.fail (.notCallable other.type) f.span)
  | .letIn x v b _, c => do
    let value ← v.evalFramed m c
    let child ← Act.enclose c [x.text] [value]
    b.evalFramed m child
  | .seq es span, c => do
    match (← Expr.evalAllFramed m es c).getLast? with
    | some v => return v
    | none => throw (.mismatch (.var 0) (.var 0) span)
  | .monitored e k pos neg, c => do
    let v ← e.evalFramed m c
    let contract ← k.resolveFramed m c.root
    m.enforce contract v pos (neg.getD topLevel) e.span
termination_by structural e => e

/-- The values of expressions, evaluated from left to right. -/
def Expr.evalAllFramed (m : FramedMachine) : List Expr → Chain → Act (List Value)
  | [], _ => pure []
  | e :: es, c => do
    let v ← e.evalFramed m c
    let vs ← Expr.evalAllFramed m es c
    return v :: vs
termination_by structural es => es

/-- A contract with its predicates evaluated. -/
def ContractExpr.resolveFramed (m : FramedMachine) : ContractExpr → Chain → Act Contract
  | .flat e, c => do
    let v ← e.evalFramed m c
    Act.ofEval (Eval.ofExcept (Contract.ofPredicate e.render v e.span))
  | .arrow domain range span, c => do
    let ds ← ContractExpr.resolveAllFramed m domain c
    let r ← range.resolveFramed m c
    return .function ds r (ContractExpr.arrow domain range span).render
termination_by structural k => k

/-- Contracts with their predicates evaluated, from left to right. -/
def ContractExpr.resolveAllFramed (m : FramedMachine) :
    List ContractExpr → Chain → Act (List Contract)
  | [], _ => pure []
  | k :: ks, c => do
    let d ← k.resolveFramed m c
    let ds ← ContractExpr.resolveAllFramed m ks c
    return d :: ds
termination_by structural ks => ks

end

/-! ### Calling -/

/-- The machine that calls functions of the language by `call`. -/
def FramedMachine.ofCall [Host] (call : CallFramed) : FramedMachine where
  apply := Closure.applyFramed call
  enforce := Contract.enforceFramed call

/-- Calls a function of the language: its body is evaluated in a new frame, which binds the
parameters inside the frames of the function. Calls inside it are made at the level below. -/
def callFramed [Host] : (level : Nat) → CallFramed
  | 0 => fun _ _ _ _ => throw ⟨.callDepthExceeded, none⟩
  | level + 1 => fun params body env args => Act.deeper do
    let c ← Act.enter env
    let child ← Act.enclose c params args
    body.evalFramed (.ofCall (callFramed level)) child

/-- The machine on frames. -/
def FramedMachine.top [Host] : FramedMachine := .ofCall (callFramed maxCallDepth)

end ContractML
