import ContractML.Proofs.Discipline

/-!
# Invariants of the evaluator

An evaluation handles nodes of trees, values, environments and contracts, and may raise a fault. An
invariant gives a property of each, with one law for each way in which the evaluator makes one of
them out of others. It is a discipline under which an expression may be evaluated if all its nodes
and the environment have the property, so evaluating goes from things with the property to things
with the property.

## Main definitions

* `Invariant` — properties of nodes, values, environments, contracts and faults, and their laws.
* `Invariant.Calls` — a way of calling that keeps an invariant.
* `Invariant.discipline` — the discipline of an invariant.
* `Invariant.trivial` — the invariant that says nothing but that all calls are closed.

## Main results

* `Invariant.spec_applyWith`, `Invariant.spec_evalWith`, `Invariant.spec_resolveWith` — applying and
  evaluating keep it, if calling does.
* `Invariant.calls_callUser` — calling keeps it, at every level.
* `Invariant.spec_eval`, `Invariant.spec_resolve` — **the evaluator keeps every invariant**.
-/

namespace ContractML

open Eval (Spec)

/-! ### Invariants -/

/-- Properties of all that an evaluation over a store handles. -/
structure Invariant [Host] (store : Store) where
  /-- The property of the nodes of trees. -/
  node : Expr → Prop
  /-- The property of values. -/
  value : Value → Prop
  /-- The property of environments. -/
  env : Env → Prop
  /-- The property of contracts together with the supplier and the user of what they check. -/
  contract : Contract → (pos neg : String) → Prop
  /-- The property of faults. -/
  fault : Fault → Prop
  /-- Primitive values have the property. -/
  primitive : ∀ v, v.isClosure = false → value v
  /-- A function of the language is made of a body and an environment. -/
  user : ∀ id params body e, value (.closure (.user id params body e)) ↔ body.All node ∧ env e
  /-- A closure is wrapped by a function contract. -/
  wrap : ∀ id c domain range label pos neg, contract (.function domain range label) pos neg →
    value (.closure c) → c.arity = domain.length →
      value (.closure (.monitored id c domain range pos neg))
  /-- A wrapper takes the contracts of the arguments with the parties swapped. -/
  unwrap : ∀ id c domain range pos neg, value (.closure (.monitored id c domain range pos neg)) →
    value (.closure c) ∧ (∀ d ∈ domain, contract d neg pos) ∧ contract range pos neg
  /-- A predicate is applied. -/
  predicate : ∀ p label pos neg, contract (.base p label) pos neg → value (.closure p)
  /-- A contract is evaluated for a monitored expression. -/
  resolved : ∀ e k pos neg c, node (.monitored e k pos neg) → k.Denotes value c →
    contract c pos (neg.getD topLevel)
  /-- A variable is looked up. -/
  lookup : ∀ e name v, env e → e.get? store name = some v → value v
  /-- A variable is bound. -/
  bind : ∀ name v e, value v → env e → env (.bind name v e)
  /-- The outermost frame of an environment is taken. -/
  root : ∀ e, env e → env e.root
  /-- A value is rejected, and its supplier blamed. -/
  rejected : ∀ k pos neg v span, contract k pos neg → value v →
    fault (Contract.violation k.label pos v span)
  /-- Faults that are no violations have the property. -/
  other : ∀ f, f.isViolation = false → fault f
  /-- A function of the embedding program is applied. -/
  host : ∀ code args, (∀ a ∈ args, value a) →
    match Host.run code args with
    | .ok v => value v
    | .error f => fault f
  /-- A fault is given a place. -/
  locate : ∀ span f, fault f → fault (f.locate span)

namespace Invariant

variable [Host] {store : Store} (I : Invariant store)

/-- Functions of the language are called with values that have the property. -/
def Calls (call : CallUser) : Prop :=
  ∀ params body env args, body.All I.node → I.env env → (∀ a ∈ args, I.value a) →
    Spec (call params body env args) I.value I.fault

theorem env_bindAll {env : Env} (henv : I.env env) (params : List String) {args : List Value}
    (hargs : ∀ a ∈ args, I.value a) : I.env (env.bindAll params args) :=
  Env.bindAll_of_bind I.bind henv params hargs

/-- Under an invariant an expression may be evaluated if all its nodes and the environment have the
property. -/
def discipline : Discipline store where
  fit e env := e.All I.node ∧ I.env env
  value := I.value
  contract := I.contract
  fault := I.fault
  operands _ _ he p hp := ⟨he.1.operands p hp, he.2⟩
  found x env v he hv := I.lookup env x.text v he.2 hv
  unbound _ _ _ _ := I.other _ rfl
  lambda id _ b _ env he := (I.user id _ b env).mpr ⟨(Expr.all_lambda.mp he.1).2, he.2⟩
  bind x _ _ _ env w he hw := ⟨(Expr.all_letIn.mp he.1).2.2, I.bind x.text w env hw he.2⟩
  predicates _ _ _ _ env he _ hp :=
    ⟨(Expr.all_monitored.mp he.1).2.2.predicates hp, I.root env he.2⟩
  resolved e k pos neg _ c he hc := I.resolved e k pos neg c (Expr.all_monitored.mp he.1).1 hc
  body id params b env _ hc hargs _ := by
    obtain ⟨hb, henv⟩ := (I.user id params b env).mp hc
    exact ⟨hb, I.env_bindAll henv params hargs⟩
  primitive := I.primitive
  wrap := I.wrap
  unwrap := I.unwrap
  predicate := I.predicate
  rejected := I.rejected
  routine f hf := I.other f (Fault.isViolation_of_isRoutine hf)
  host := I.host
  locate := I.locate

theorem Calls.discipline {I : Invariant store} {call : CallUser} (hcall : I.Calls call) :
    I.discipline.Calls call call := by
  intro id params body env args hc hargs _
  obtain ⟨hbody, henv⟩ := (I.user id params body env).mp hc
  exact .refl (hcall params body env args hbody henv hargs)

/-- Applying a closure keeps an invariant that calling keeps. -/
theorem spec_applyWith {call : CallUser} (hcall : I.Calls call) (c : Closure) (args : List Value)
    (span : Span) (hc : I.value (.closure c)) (hargs : ∀ a ∈ args, I.value a) :
    Spec (c.applyWith call args span) I.value I.fault :=
  (I.discipline.agree_applyWith hcall.discipline c args span hc hargs).spec

/-- Evaluating an expression keeps an invariant that calling keeps. -/
theorem spec_evalWith {call : CallUser} (hcall : I.Calls call) {e : Expr} (he : e.All I.node)
    {env : Env} (henv : I.env env) :
    Spec (e.evalWith (.ofCall store call) env) I.value I.fault :=
  (I.discipline.agree_evalWith (I.discipline.runs_ofCall hcall.discipline) ⟨he, henv⟩).spec

/-- A contract denotes what it should if its predicates keep the invariant. -/
theorem spec_resolveWith {m : Machine} {k : ContractExpr} {env : Env}
    (h : ∀ p ∈ k.predicates, Spec (p.evalWith m env) I.value I.fault) :
    Spec (k.resolveWith m env) (fun c => k.Denotes I.value c) I.fault :=
  (I.discipline.agree_resolveWith fun p hp => .refl (h p hp)).spec

/-- Calling keeps every invariant, at every level, also with the wrong number of arguments. -/
theorem calls_callUser (level : Nat) : I.Calls (callUser store level) := by
  induction level with
  -- The induction is not that of the discipline, since here the arguments need not be as many as
  -- the parameters.
  | zero => exact fun _ _ _ _ _ _ _ => Spec.throw (I.other _ rfl)
  | succ level ih =>
    intro params body env args hbody henv hargs
    rw [callUser]
    refine Spec.deeper (I.other _ rfl) ?_
    exact I.spec_evalWith ih hbody (I.env_bindAll henv params hargs)

/-- **Evaluating an expression keeps every invariant.** -/
theorem spec_eval {e : Expr} (he : e.All I.node) {env : Env} (henv : I.env env) :
    Spec (e.eval store env) I.value I.fault :=
  I.discipline.spec_eval ⟨he, henv⟩

/-- **Evaluating a contract keeps every invariant.** -/
theorem spec_resolve {k : ContractExpr} (hk : k.All I.node) {env : Env} (henv : I.env env) :
    Spec (k.resolve store env) (fun c => k.Denotes I.value c) I.fault :=
  I.discipline.spec_resolve fun _ hp => ⟨hk.predicates hp, henv⟩

/-! ### The trivial invariant -/

/-- The invariant that says nothing: what is left of it is that every evaluation closes the calls
that it opens. -/
def trivial (store : Store) : Invariant store where
  node _ := True
  value _ := True
  env _ := True
  contract _ _ _ := True
  fault _ := True
  primitive _ _ := True.intro
  user _ _ _ _ := ⟨fun _ => ⟨fun _ _ => True.intro, True.intro⟩, fun _ => True.intro⟩
  wrap _ _ _ _ _ _ _ _ _ _ := True.intro
  unwrap _ _ _ _ _ _ _ := ⟨True.intro, fun _ _ => True.intro, True.intro⟩
  predicate _ _ _ _ _ := True.intro
  resolved _ _ _ _ _ _ _ := True.intro
  lookup _ _ _ _ _ := True.intro
  bind _ _ _ _ _ := True.intro
  root _ _ := True.intro
  rejected _ _ _ _ _ _ _ := True.intro
  other _ _ := True.intro
  host _ _ _ := by split <;> exact True.intro
  locate _ _ _ := True.intro

end Invariant

end ContractML
