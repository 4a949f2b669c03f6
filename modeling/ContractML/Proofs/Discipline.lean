import ContractML.Proofs.Regime

/-!
# Disciplines of the evaluator

A discipline is a regime in which places do not matter and routine faults may always be raised, so
that what remains to be said is which expressions may be evaluated in which environments, and which
values, contracts and other faults may turn up.

## Main definitions

* `Discipline` — what may be evaluated and what may turn up, and the laws.
* `Discipline.regime` — a discipline as a regime.
* `Discipline.Calls`, `Discipline.Runs` — calls and machines that do the same under a discipline.

## Main results

* `Discipline.agree_applyWith`, `Discipline.agree_enforceWith` — applying and checking.
* `Discipline.agree_evalWith`, `Discipline.agree_resolveWith` — evaluating.
* `Discipline.spec_eval`, `Discipline.spec_resolve` — **the evaluator keeps every discipline**.
-/

namespace ContractML

open Eval (Agree Spec)

/-- What may be evaluated over a store, and what may turn up in an evaluation. -/
structure Discipline [Host] (store : Store) where
  /-- The expressions that may be evaluated in an environment. -/
  fit : Expr → Env → Prop
  /-- The values that may turn up. -/
  value : Value → Prop
  /-- The contracts that may turn up, with the supplier and the user of what they check. -/
  contract : Contract → (pos neg : String) → Prop
  /-- The faults that may be raised. -/
  fault : Fault → Prop
  /-- The operands of an expression are evaluated. -/
  operands : ∀ e env, fit e env → ∀ p ∈ e.operands, fit p env
  /-- A variable is looked up. -/
  found : ∀ x env v, fit (.var x) env → env.get? store x.text = some v → value v
  /-- A variable is not found. -/
  unbound : ∀ x env, fit (.var x) env → env.get? store x.text = none →
    fault ⟨.unboundName x.text, some x.span⟩
  /-- A function is made. -/
  lambda : ∀ id ps b s env, fit (.lambda ps b s) env →
    value (.closure (.user id (ps.map Ident.text) b env))
  /-- A variable is bound. -/
  bind : ∀ x v b s env w, fit (.letIn x v b s) env → value w → fit b (.bind x.text w env)
  /-- A contract is evaluated in the outermost frame. -/
  predicates : ∀ e k pos neg env, fit (.monitored e k pos neg) env →
    ∀ p ∈ k.predicates, fit p env.root
  /-- A contract has been evaluated for a monitored expression. -/
  resolved : ∀ e k pos neg env c, fit (.monitored e k pos neg) env → k.Denotes value c →
    contract c pos (neg.getD topLevel)
  /-- A function of the language is called with as many arguments as it has parameters. -/
  body : ∀ id params b env args, value (.closure (.user id params b env)) →
    (∀ a ∈ args, value a) → args.length = params.length → fit b (env.bindAll params args)
  /-- Primitive values may turn up. -/
  primitive : ∀ v, v.isClosure = false → value v
  /-- A closure is wrapped by a function contract. -/
  wrap : ∀ id c domain range label pos neg, contract (.function domain range label) pos neg →
    value (.closure c) → c.arity = domain.length →
      value (.closure (.monitored id c domain range pos neg))
  /-- A wrapper takes the contracts of the arguments with the parties swapped. -/
  unwrap : ∀ id c domain range pos neg, value (.closure (.monitored id c domain range pos neg)) →
    value (.closure c) ∧ (∀ d ∈ domain, contract d neg pos) ∧ contract range pos neg
  /-- A predicate is applied. -/
  predicate : ∀ p label pos neg, contract (.base p label) pos neg → value (.closure p)
  /-- A value is rejected, and its supplier blamed. -/
  rejected : ∀ k pos neg v span, contract k pos neg → value v →
    fault (Contract.violation k.label pos v span)
  /-- Routine faults may be raised. -/
  routine : ∀ f, f.isRoutine = true → fault f
  /-- A function of the embedding program is applied. -/
  host : ∀ code args, (∀ a ∈ args, value a) →
    match Host.run code args with
    | .ok v => value v
    | .error f => fault f
  /-- A fault is given a place. -/
  locate : ∀ span f, fault f → fault (f.locate span)

namespace Discipline

variable [Host] {store : Store} (D : Discipline store)

/-- A discipline is a regime that allows every place and every routine fault. -/
def regime : Regime store where
  fit := D.fit
  value := D.value
  contract := D.contract
  place _ := True
  fault := D.fault
  escape := D.fault
  span _ _ _ := trivial
  operands := D.operands
  found := D.found
  unbound := D.unbound
  lambda := D.lambda
  bind := D.bind
  hollow _ _ _ := D.routine _ rfl
  predicates := D.predicates
  resolved := D.resolved
  body := D.body
  primitive := D.primitive
  wrap := D.wrap
  unwrap := D.unwrap
  predicate := D.predicate
  rejected k pos neg v span hk hv _ := D.rejected k pos neg v span hk hv
  arises _ f _ h := D.routine f h.isRoutine
  misses _ f _ h := D.routine f h.isRoutine
  host := D.host
  limit := D.routine _ rfl
  escapes _ h := h
  locate span f _ h := D.locate span f h

/-- Two ways of calling that do the same with what may turn up. -/
def Calls (call call' : CallUser) : Prop :=
  ∀ id params body env args, D.value (.closure (.user id params body env)) →
    (∀ a ∈ args, D.value a) → args.length = params.length →
      Agree (call params body env args) (call' params body env args) D.value D.fault

/-- Two machines over the store that do the same with what may turn up. -/
structure Runs (m m' : Machine) : Prop where
  store_eq : m.store = store
  store_eq' : m'.store = store
  apply : ∀ c args span, D.value (.closure c) → (∀ a ∈ args, D.value a) →
    Agree (m.apply c args span) (m'.apply c args span) D.value D.fault
  enforce : ∀ k v pos neg span, D.contract k pos neg → D.value v →
    Agree (m.enforce k v pos neg span) (m'.enforce k v pos neg span) D.value D.fault

variable {D} in
theorem Runs.regime {m m' : Machine} (h : D.Runs m m') : D.regime.Runs m m' where
  store_eq := h.store_eq
  store_eq' := h.store_eq'
  apply c args span hc hargs _ := h.apply c args span hc hargs
  enforce k v pos neg span hk hv _ := h.enforce k v pos neg span hk hv

theorem spec_checkArity (expected found : Nat) (span : Span) :
    Spec (Eval.checkArity expected found span) (fun _ => found = expected) D.fault :=
  D.regime.spec_checkArity trivial expected found

theorem spec_checkTypes (types : List Ty) (args : List Value) (span : Span) :
    Spec (Eval.checkTypes types args span) (fun _ => True) D.fault :=
  D.regime.spec_checkTypes trivial types args

theorem spec_run (p : Primitive) {args : List Value} (hargs : ∀ a ∈ args, D.value a) :
    Spec (Eval.ofExcept (p.run args)) D.value D.fault :=
  D.regime.spec_run p hargs

/-- Applying a closure keeps a discipline that calling keeps. -/
theorem agree_applyWith {call call' : CallUser} (hcall : D.Calls call call') (c : Closure)
    (args : List Value) (span : Span) (hc : D.value (.closure c)) (hargs : ∀ a ∈ args, D.value a) :
    Agree (c.applyWith call args span) (c.applyWith call' args span) D.value D.fault :=
  D.regime.agree_applyWith hcall c args span hc hargs trivial

/-- Checking a value keeps a discipline that calling keeps. -/
theorem agree_enforceWith {call call' : CallUser} (hcall : D.Calls call call') (k : Contract)
    (v : Value) (pos neg : String) (span : Span) (hk : D.contract k pos neg) (hv : D.value v) :
    Agree (k.enforceWith call v pos neg span) (k.enforceWith call' v pos neg span)
      D.value D.fault :=
  D.regime.agree_enforceWith hcall k v pos neg span hk hv trivial

theorem runs_ofCall {call call' : CallUser} (hcall : D.Calls call call') :
    D.Runs (.ofCall store call) (.ofCall store call') where
  store_eq := rfl
  store_eq' := rfl
  apply := D.agree_applyWith hcall
  enforce := D.agree_enforceWith hcall

section Evaluating

variable {m m' : Machine} {env : Env}

/-- A contract denotes what it should if its predicates keep the discipline. -/
theorem agree_resolveWith {k : ContractExpr}
    (h : ∀ p ∈ k.predicates, Agree (p.evalWith m env) (p.evalWith m' env) D.value D.fault) :
    Agree (k.resolveWith m env) (k.resolveWith m' env) (fun c => k.Denotes D.value c) D.fault :=
  D.regime.agree_resolveWith fun p hp => ⟨trivial, h p hp⟩

/-- Evaluating an expression keeps a discipline that the machines keep. -/
theorem agree_evalWith (hm : D.Runs m m') {e : Expr} (he : D.fit e env) :
    Agree (e.evalWith m env) (e.evalWith m' env) D.value D.fault :=
  D.regime.agree_evalWith hm.regime he

end Evaluating

/-- The machine over the store keeps every discipline. -/
theorem runs_over : D.Runs (.over store) (.over store) :=
  D.runs_ofCall (D.regime.calls_callUser maxCallDepth)

/-- **Evaluating an expression keeps every discipline.** -/
theorem spec_eval {e : Expr} {env : Env} (he : D.fit e env) :
    Spec (e.eval store env) D.value D.fault :=
  D.regime.spec_eval he

/-- **Evaluating a contract keeps every discipline.** -/
theorem spec_resolve {k : ContractExpr} {env : Env} (hk : ∀ p ∈ k.predicates, D.fit p env) :
    Spec (k.resolve store env) (fun c => k.Denotes D.value c) D.fault :=
  D.regime.spec_resolve hk

end Discipline

end ContractML
