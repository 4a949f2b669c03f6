import ContractML.Proofs.Logic
import ContractML.Proofs.Operators
import ContractML.Proofs.Tree

/-!
# Regimes of the evaluator

A regime says which expressions may be evaluated in which environments, at which places they stand,
and which values, contracts and faults may turn up, with one law for each way in which the evaluator
makes one of them out of others. What is proved here once for all regimes is that evaluating an
expression that may be evaluated goes from things that may turn up to things that may turn up:
applying and checking by recursion on the wrappers of a closure, evaluating by induction on the
expression, and calling by induction on the levels.

A fault that leaves the body of a function or a primitive function need not have a place yet, so
there may be more of them; the application around it gives it the place of the call.

Everything is said of two machines at once. If they do the same with the closures and the contracts
that may turn up, then evaluating is the same on both, whatever they do with others.

A written contract denotes a contract with the same shape and the same written forms, whose
predicates are closures of one argument.

## Main definitions

* `Eval.Agree` — two evaluations that are the same, with properties of what they give and raise.
* `ContractExpr.Denotes` — what a written contract denotes.
* `Regime` — what may be evaluated and what may turn up, and the laws.
* `Regime.Calls`, `Regime.Runs` — calls and machines that do the same under a regime.

## Main results

* `Regime.agree_applyWith`, `Regime.agree_enforceWith` — applying and checking.
* `Regime.agree_evalWith`, `Regime.agree_resolveWith` — evaluating.
* `Regime.calls_callUser` — calling, at every level.
* `Regime.spec_eval`, `Regime.spec_resolve` — **the evaluator keeps every regime**.
-/

namespace ContractML

open Eval (Spec)

/-! ### Evaluations that agree -/

namespace Eval

variable {α β : Type}

/-- The evaluations are the same, the value has the property `P` or the fault the property `Q`, and
as many calls are open after the evaluation as before. -/
structure Agree (x y : Eval α) (P : α → Prop) (Q : Fault → Prop) : Prop where
  spec : Spec x P Q
  eq : y = x

namespace Agree

variable {x y : Eval α} {P : α → Prop} {R : β → Prop} {Q : Fault → Prop}

theorem refl (h : Spec x P Q) : Agree x x P Q := ⟨h, rfl⟩

/-- What follows need to agree only on the values that may turn up. -/
protected theorem bind {k l : α → Eval β} (hx : Agree x y P Q)
    (hk : ∀ a, P a → Agree (k a) (l a) R Q) : Agree (x >>= k) (y >>= l) R Q := by
  obtain ⟨hspec, rfl⟩ := hx
  refine ⟨hspec.bind fun a ha => (hk a ha).spec, ?_⟩
  funext c
  cases hc : y c with
  | error f d => rw [bind_of_error hc, bind_of_error hc]
  | ok a d =>
    have ha := (hspec.of_ok hc).1
    rw [bind_of_ok hc, bind_of_ok hc, (hk a ha).eq]

theorem mono {Q' : Fault → Prop} (h : Agree x y P Q) (hQ : ∀ f, Q f → Q' f) : Agree x y P Q' :=
  ⟨h.spec.mono (fun _ ha => ha) hQ, h.eq⟩

protected theorem locate {Q' : Fault → Prop} {span : Span} (hQ : ∀ f, Q f → Q' (f.locate span))
    (h : Agree x y P Q) : Agree (locate span x) (locate span y) P Q' :=
  ⟨h.spec.locate hQ, by rw [h.eq]⟩

protected theorem deeper (hQ : Q ⟨.callDepthExceeded, none⟩) (h : Agree x y P Q) :
    Agree (deeper x) (deeper y) P Q :=
  ⟨h.spec.deeper hQ, by rw [h.eq]⟩

end Agree

end Eval

open Eval (Agree)

/-! ### What written contracts denote -/

mutual

/-- The contract has the shape and the written forms of the written one, and its predicates are
closures of one argument with the property `V`. -/
def ContractExpr.Denotes (V : Value → Prop) : ContractExpr → Contract → Prop
  | .flat e, .base c label => V (.closure c) ∧ c.arity = 1 ∧ label = e.render
  | .arrow ds r s, .function cs c label =>
    ContractExpr.DenotesAll V ds cs ∧ r.Denotes V c ∧ label = (ContractExpr.arrow ds r s).render
  | _, _ => False

/-- Written contracts denote contracts one by one. -/
def ContractExpr.DenotesAll (V : Value → Prop) : List ContractExpr → List Contract → Prop
  | [], [] => True
  | d :: ds, c :: cs => d.Denotes V c ∧ ContractExpr.DenotesAll V ds cs
  | _, _ => False

end

theorem ContractExpr.DenotesAll.exists_denotes {V : Value → Prop} {ds : List ContractExpr}
    {cs : List Contract} (h : ContractExpr.DenotesAll V ds cs) {c : Contract} (hc : c ∈ cs) :
    ∃ d ∈ ds, d.Denotes V c := by
  induction ds generalizing cs with
  | nil =>
    cases cs with
    | nil => simp at hc
    | cons c' cs => simp [ContractExpr.DenotesAll] at h
  | cons d ds ih =>
    cases cs with
    | nil => simp at hc
    | cons c' cs =>
      rw [ContractExpr.DenotesAll] at h
      rcases List.mem_cons.mp hc with rfl | hc
      · exact ⟨d, List.mem_cons_self, h.1⟩
      · obtain ⟨d', hd', hden⟩ := ih h.2 hc
        exact ⟨d', List.mem_cons_of_mem d hd', hden⟩

/-! ### Single steps -/

/-- A predicate with the property gives what it denotes, or the fault of a bad predicate. -/
theorem Contract.spec_ofPredicate {V : Value → Prop} {e : Expr} {v : Value} (hv : V v)
    (span : Span) :
    Spec (Eval.ofExcept (Contract.ofPredicate e.render v span))
      (fun c => (ContractExpr.flat e).Denotes V c) (Fault.Arises V span) := by
  cases v with
  | closure c =>
    simp only [Contract.ofPredicate]
    by_cases harity : c.arity = 1
    · rw [if_pos harity]
      exact Spec.pure ⟨hv, harity, rfl⟩
    · rw [if_neg harity]
      refine Spec.throw (.predicate hv ?_)
      rintro d ⟨⟩
      exact harity
  | _ => exact Spec.throw (.predicate hv nofun)

/-- A call gets past the check of its arguments exactly if they are as many as expected. -/
theorem Eval.spec_checkArity (expected found : Nat) (span : Span) :
    Spec (Eval.checkArity expected found span) (fun _ => found = expected)
      fun f => f = ⟨.arity expected found, some span⟩ := by
  unfold Eval.checkArity
  by_cases h : found = expected
  · rw [if_pos h]
    exact Spec.pure h
  · rw [if_neg h]
    exact Spec.throw rfl

/-- What is checked for its type is rejected only if its type is. -/
theorem Eval.spec_checkTypes (V : Value → Prop) (types : List Ty) (args : List Value)
    (span : Span) :
    Spec (Eval.checkTypes types args span) (fun _ => True) (Fault.Arises V span) := by
  fun_induction Eval.checkTypes types args span with
  | case1 t ts v vs span haccepts ih => exact ih
  | case2 t ts v vs span haccepts =>
    exact Spec.throw (.argument (Bool.eq_false_iff.mpr haccepts))
  | case3 => exact Spec.pure trivial

theorem Eval.spec_expectBool {V : Value → Prop} {v : Value} (hv : V v) (span : Span) :
    Spec (Eval.expectBool v span) (fun _ => True) (Fault.Arises V span) := by
  cases v with
  | bool b => exact Spec.pure trivial
  | _ => exact Spec.throw (.primitive hv nofun)

/-- A closure that takes as many arguments as the contract has domains is wrapped, and any other one
is rejected. -/
theorem Contract.spec_wrap {P : Value → Prop} {Q : Fault → Prop} {domain : List Contract}
    {range : Contract} {label pos neg : String} {c : Closure} {span : Span}
    (hok : ∀ id, c.arity = domain.length → P (.closure (.monitored id c domain range pos neg)))
    (herr : Q (Contract.violation label pos (.closure c) span)) :
    Spec (Contract.wrap domain range label c pos neg span) P Q := by
  unfold Contract.wrap
  by_cases harity : c.arity = domain.length
  · rw [if_pos harity]
    exact Spec.bind Spec.fresh fun id _ => Spec.pure (hok id harity)
  · rw [if_neg harity]
    exact Spec.throw herr

/-- What binding keeps, binding parameters to arguments keeps. -/
theorem Env.bindAll_of_bind {P : Env → Prop} {V : Value → Prop}
    (hbind : ∀ x a env, V a → P env → P (.bind x a env)) {env : Env} (henv : P env)
    (params : List String) {args : List Value} (hargs : ∀ a ∈ args, V a) :
    P (env.bindAll params args) := by
  induction params generalizing env args with
  | nil => exact henv
  | cons x params ih =>
    cases args with
    | nil => exact henv
    | cons a args =>
      rw [List.forall_mem_cons] at hargs
      exact ih (hbind x a env hargs.1 henv) hargs.2

/-! ### Regimes -/

/-- The operands of an expression: what it evaluates in its own environment. -/
def Expr.operands : Expr → List Expr
  | .lit _ _ => []
  | .var _ => []
  | .unary _ e _ => [e]
  | .binary _ l r _ => [l, r]
  | .logical _ l r _ => [l, r]
  | .cond c t e _ => [c, t, e]
  | .lambda _ _ _ => []
  | .call f args _ => f :: args
  | .letIn _ v _ _ => [v]
  | .seq es _ => es
  | .monitored e _ _ _ => [e]

/-- What holds of all nodes of an expression holds of all nodes of its operands. -/
theorem Expr.All.operands {P : Expr → Prop} {e : Expr} (h : e.All P) :
    ∀ p ∈ e.operands, p.All P := by
  cases e with
  | lit | var | lambda => simp [Expr.operands]
  | unary | binary | logical | cond | call | letIn | seq | monitored =>
    simp_all [Expr.operands]

/-- What may be evaluated over a store, where it stands, and what may turn up in an evaluation. -/
structure Regime [Host] (store : Store) where
  /-- The expressions that may be evaluated in an environment. -/
  fit : Expr → Env → Prop
  /-- The values that may turn up. -/
  value : Value → Prop
  /-- The contracts that may turn up, with the supplier and the user of what they check. -/
  contract : Contract → (pos neg : String) → Prop
  /-- The places of what may be evaluated. -/
  place : Span → Prop
  /-- The faults that may be raised. -/
  fault : Fault → Prop
  /-- The faults that may leave the body of a function, or a primitive function. -/
  escape : Fault → Prop
  /-- An expression stands at its place. -/
  span : ∀ e env, fit e env → place e.span
  /-- The operands of an expression are evaluated. -/
  operands : ∀ e env, fit e env → ∀ p ∈ e.operands, fit p env
  /-- A variable is looked up. -/
  found : ∀ x env v, fit (.var x) env → env.get? store x.text = some v → value v
  /-- A variable is not found. -/
  unbound : ∀ x env, fit (.var x) env → env.get? store x.text = none →
    fault ⟨.unboundName x.text, some x.span⟩
  /-- A function is made. -/
  lambda : ∀ id ps b s env, fit (.lambda ps b s) env →
    value (.closure (.user id (ps.map Ident.text) b env))
  /-- A variable is bound. -/
  bind : ∀ x v b s env w, fit (.letIn x v b s) env → value w → fit b (.bind x.text w env)
  /-- A sequence is empty. -/
  hollow : ∀ s env, fit (.seq [] s) env → fault (.mismatch (.var 0) (.var 0) s)
  /-- A contract is evaluated in the outermost frame. -/
  predicates : ∀ e k pos neg env, fit (.monitored e k pos neg) env →
    ∀ p ∈ k.predicates, fit p env.root
  /-- A contract has been evaluated for a monitored expression. -/
  resolved : ∀ e k pos neg env c, fit (.monitored e k pos neg) env → k.Denotes value c →
    contract c pos (neg.getD topLevel)
  /-- A function of the language is called with as many arguments as it has parameters. -/
  body : ∀ id params b env args, value (.closure (.user id params b env)) →
    (∀ a ∈ args, value a) → args.length = params.length → fit b (env.bindAll params args)
  /-- Primitive values may turn up. -/
  primitive : ∀ v, v.isClosure = false → value v
  /-- A closure is wrapped by a function contract. -/
  wrap : ∀ id c domain range label pos neg, contract (.function domain range label) pos neg →
    value (.closure c) → c.arity = domain.length →
      value (.closure (.monitored id c domain range pos neg))
  /-- A wrapper takes the contracts of the arguments with the parties swapped. -/
  unwrap : ∀ id c domain range pos neg, value (.closure (.monitored id c domain range pos neg)) →
    value (.closure c) ∧ (∀ d ∈ domain, contract d neg pos) ∧ contract range pos neg
  /-- A predicate is applied. -/
  predicate : ∀ p label pos neg, contract (.base p label) pos neg → value (.closure p)
  /-- A value is rejected, and its supplier blamed. -/
  rejected : ∀ k pos neg v span, contract k pos neg → value v → place span →
    fault (Contract.violation k.label pos v span)
  /-- A step of the evaluator goes wrong. -/
  arises : ∀ span f, place span → Fault.Arises value span f → fault f
  /-- A primitive function goes wrong. -/
  misses : ∀ args f, (∀ a ∈ args, value a) → Primitive.Misses args f → escape f
  /-- A function of the embedding program is applied. -/
  host : ∀ code args, (∀ a ∈ args, value a) →
    match Host.run code args with
    | .ok v => value v
    | .error f => escape f
  /-- Too many calls are open. -/
  limit : escape ⟨.callDepthExceeded, none⟩
  /-- Whatever is raised may leave the body of a function. -/
  escapes : ∀ f, fault f → escape f
  /-- What has left the body of a function is given the place of the call. -/
  locate : ∀ span f, place span → escape f → fault (f.locate span)

namespace Regime

variable [Host] {store : Store} (R : Regime store)

/-- Two ways of calling that do the same with what may turn up. -/
def Calls (call call' : CallUser) : Prop :=
  ∀ id params body env args, R.value (.closure (.user id params body env)) →
    (∀ a ∈ args, R.value a) → args.length = params.length →
      Agree (call params body env args) (call' params body env args) R.value R.escape

/-- Two machines over the store that do the same with what may turn up. -/
structure Runs (m m' : Machine) : Prop where
  store_eq : m.store = store
  store_eq' : m'.store = store
  apply : ∀ c args span, R.value (.closure c) → (∀ a ∈ args, R.value a) → R.place span →
    Agree (m.apply c args span) (m'.apply c args span) R.value R.fault
  enforce : ∀ k v pos neg span, R.contract k pos neg → R.value v → R.place span →
    Agree (m.enforce k v pos neg span) (m'.enforce k v pos neg span) R.value R.fault

variable {span : Span}

theorem spec_arises {α : Type} {x : Eval α} {P : α → Prop} (hspan : R.place span)
    (h : Spec x P (Fault.Arises R.value span)) : Spec x P R.fault :=
  h.mono (fun _ ha => ha) fun f => R.arises span f hspan

theorem spec_stepwise {r : Except Fault Value} (hspan : R.place span)
    (h : Stepwise R.value span r) : Spec (Eval.ofExcept r) R.value R.fault := by
  cases r with
  | ok v => exact Spec.pure (R.primitive v h)
  | error f => exact Spec.throw (R.arises span f hspan h)

theorem spec_checkArity (hspan : R.place span) (expected found : Nat) :
    Spec (Eval.checkArity expected found span) (fun _ => found = expected) R.fault := by
  refine (Eval.spec_checkArity expected found span).mono (fun _ h => h) ?_
  rintro f rfl
  exact R.arises span _ hspan (.arity expected found)

theorem spec_checkTypes (hspan : R.place span) (types : List Ty) (args : List Value) :
    Spec (Eval.checkTypes types args span) (fun _ => True) R.fault :=
  R.spec_arises hspan (Eval.spec_checkTypes R.value types args span)

theorem spec_expectBool {v : Value} (hspan : R.place span) (hv : R.value v) :
    Spec (Eval.expectBool v span) (fun _ => True) R.fault :=
  R.spec_arises hspan (Eval.spec_expectBool hv span)

theorem spec_run (p : Primitive) {args : List Value} (hargs : ∀ a ∈ args, R.value a) :
    Spec (Eval.ofExcept (p.run args)) R.value R.escape := by
  by_cases hp : ∃ code, p = .host code
  · obtain ⟨code, rfl⟩ := hp
    have hhost := R.host code args hargs
    rw [Primitive.run]
    cases hr : Host.run code args with
    | ok v =>
      rw [hr] at hhost
      exact Spec.pure hhost
    | error f =>
      rw [hr] at hhost
      exact Spec.throw hhost
  · have hreads := p.reads_run_of_ne fun code h => hp ⟨code, h⟩
    exact Spec.ofExcept (fun v hv => R.primitive v (hreads.value args v hv))
      fun f hf => R.misses args f hargs (hreads.fault args f hf)

/-! ### Applying and checking -/

mutual

/-- Applying a closure keeps a regime that calling keeps. -/
theorem agree_applyWith {call call' : CallUser} (hcall : R.Calls call call') : ∀ (c : Closure)
    (args : List Value) (span : Span), R.value (.closure c) → (∀ a ∈ args, R.value a) →
      R.place span →
        Agree (c.applyWith call args span) (c.applyWith call' args span) R.value R.fault
  | .native _ _ type body, args, span, _, hargs, hspan => by
    rw [Closure.applyWith, Closure.applyWith]
    refine Agree.refl ?_
    refine Spec.bind (R.spec_checkArity hspan _ _) fun _ _ => ?_
    refine Spec.bind (R.spec_checkTypes hspan _ _) fun _ _ => ?_
    exact Spec.locate (fun f => R.locate span f hspan) (R.spec_run body hargs)
  | .user id params body env, args, span, hc, hargs, hspan => by
    rw [Closure.applyWith, Closure.applyWith]
    refine Agree.bind (.refl (R.spec_checkArity hspan _ _)) fun _ hlength => ?_
    exact Agree.locate (fun f => R.locate span f hspan)
      (hcall id params body env args hc hargs hlength)
  | .monitored id inner domain range pos neg, args, span, hc, hargs, hspan => by
    obtain ⟨hinner, hdomain, hrange⟩ := R.unwrap id inner domain range pos neg hc
    rw [Closure.applyWith, Closure.applyWith]
    refine Agree.bind (.refl (R.spec_checkArity hspan _ _)) fun _ _ => ?_
    -- The user supplies the arguments, so the parties are swapped for them.
    refine Agree.bind (agree_enforceAllWith hcall domain args neg pos span hdomain hargs hspan)
      fun args' hargs' => ?_
    refine Agree.bind (agree_applyWith hcall inner args' span hinner hargs' hspan) fun v hv => ?_
    exact agree_enforceWith hcall range v pos neg span hrange hv hspan
termination_by structural c => c

/-- Checking a value keeps a regime that calling keeps. -/
theorem agree_enforceWith {call call' : CallUser} (hcall : R.Calls call call') : ∀ (k : Contract)
    (v : Value) (pos neg : String) (span : Span), R.contract k pos neg → R.value v →
      R.place span → Agree (k.enforceWith call v pos neg span)
        (k.enforceWith call' v pos neg span) R.value R.fault
  | .base p label, v, pos, neg, span, hk, hv, hspan => by
    rw [Contract.enforceWith, Contract.enforceWith]
    have hp := agree_applyWith hcall p [v] span (R.predicate p label pos neg hk)
      (by simpa using hv) hspan
    refine Agree.bind hp fun answer hanswer => Agree.refl ?_
    split
    next => exact Spec.pure hv
    next => exact Spec.throw (R.rejected _ pos neg v span hk hv hspan)
    next hyes hno =>
      refine Spec.throw (R.arises span _ hspan (.primitive hanswer fun hbool => ?_))
      -- An answer of the type of truth values is one of the two that are dealt with above.
      cases answer <;> cases hbool
      rename_i b
      cases b
      · exact hno rfl
      · exact hyes rfl
  | .function domain range label, v, pos, neg, span, hk, hv, hspan => by
    rw [Contract.enforceWith.eq_def, Contract.enforceWith.eq_def]
    refine Agree.refl ?_
    cases v with
    | closure c =>
      exact Contract.spec_wrap (fun id => R.wrap id c domain range label pos neg hk hv)
        (R.rejected _ pos neg _ span hk hv hspan)
    | _ => exact Spec.pure hv
termination_by structural k => k

/-- Checking several values keeps a regime that calling keeps. -/
theorem agree_enforceAllWith {call call' : CallUser} (hcall : R.Calls call call') :
    ∀ (ks : List Contract) (vs : List Value) (pos neg : String) (span : Span),
      (∀ k ∈ ks, R.contract k pos neg) → (∀ v ∈ vs, R.value v) → R.place span →
        Agree (Contract.enforceAllWith call ks vs pos neg span)
          (Contract.enforceAllWith call' ks vs pos neg span) (fun ws => ∀ w ∈ ws, R.value w)
          R.fault
  | k :: ks, v :: vs, pos, neg, span, hks, hvs, hspan => by
    rw [List.forall_mem_cons] at hks hvs
    rw [Contract.enforceAllWith, Contract.enforceAllWith]
    refine Agree.bind (agree_enforceWith hcall k v pos neg span hks.1 hvs.1 hspan) fun w hw => ?_
    refine Agree.bind (agree_enforceAllWith hcall ks vs pos neg span hks.2 hvs.2 hspan)
      fun ws hws => ?_
    exact .refl (Spec.pure (List.forall_mem_cons.mpr ⟨hw, hws⟩))
  | [], _, _, _, _, _, _, _ => .refl (Spec.pure (by simp))
  | _ :: _, [], _, _, _, _, _, _ => .refl (Spec.pure (by simp))
termination_by structural ks => ks

end

theorem runs_ofCall {call call' : CallUser} (hcall : R.Calls call call') :
    R.Runs (.ofCall store call) (.ofCall store call') where
  store_eq := rfl
  store_eq' := rfl
  apply := R.agree_applyWith hcall
  enforce := R.agree_enforceWith hcall

/-! ### Evaluating -/

section Evaluating

variable {m m' : Machine} {env : Env}

/-- Evaluating several expressions, each of which keeps the regime. -/
theorem agree_evalAllWith {es : List Expr}
    (h : ∀ e ∈ es, Agree (e.evalWith m env) (e.evalWith m' env) R.value R.fault) :
    Agree (Expr.evalAllWith m es env) (Expr.evalAllWith m' es env)
      (fun vs => (∀ v ∈ vs, R.value v) ∧ vs.length = es.length) R.fault := by
  induction es with
  | nil => exact .refl (Spec.pure (by simp))
  | cons e es ih =>
    rw [List.forall_mem_cons] at h
    rw [Expr.evalAllWith, Expr.evalAllWith]
    refine Agree.bind h.1 fun v hv => Agree.bind (ih h.2) fun vs hvs => ?_
    exact .refl (Spec.pure ⟨List.forall_mem_cons.mpr ⟨hv, hvs.1⟩, congrArg Nat.succ hvs.2⟩)

/-- Evaluating several contracts, each of which denotes what it should. -/
theorem agree_resolveAllWith {ks : List ContractExpr}
    (h : ∀ k ∈ ks, Agree (k.resolveWith m env) (k.resolveWith m' env)
      (fun c => k.Denotes R.value c) R.fault) :
    Agree (ContractExpr.resolveAllWith m ks env) (ContractExpr.resolveAllWith m' ks env)
      (fun cs => ContractExpr.DenotesAll R.value ks cs) R.fault := by
  induction ks with
  | nil => exact .refl (Spec.pure trivial)
  | cons k ks ih =>
    rw [List.forall_mem_cons] at h
    rw [ContractExpr.resolveAllWith, ContractExpr.resolveAllWith]
    refine Agree.bind h.1 fun c hc => Agree.bind (ih h.2) fun cs hcs => ?_
    exact .refl (Spec.pure ⟨hc, hcs⟩)

/-- A contract denotes what it should if its predicates keep the regime. -/
theorem agree_resolveWith {k : ContractExpr}
    (h : ∀ p ∈ k.predicates, R.place p.span ∧
      Agree (p.evalWith m env) (p.evalWith m' env) R.value R.fault) :
    Agree (k.resolveWith m env) (k.resolveWith m' env) (fun c => k.Denotes R.value c) R.fault := by
  induction k with
  | flat e =>
    rw [ContractExpr.resolveWith, ContractExpr.resolveWith]
    obtain ⟨hspan, he⟩ := h e (by simp [ContractExpr.predicates])
    refine Agree.bind he fun v hv => ?_
    exact .refl (R.spec_arises hspan (Contract.spec_ofPredicate hv e.span))
  | arrow ds r s ihds ihr =>
    simp only [ContractExpr.mem_predicates_arrow] at h
    have hds : Agree (ContractExpr.resolveAllWith m ds env) (ContractExpr.resolveAllWith m' ds env)
        (fun cs => ContractExpr.DenotesAll R.value ds cs) R.fault :=
      R.agree_resolveAllWith fun d hd => ihds d hd fun p hp => h p (.inl ⟨d, hd, hp⟩)
    rw [ContractExpr.resolveWith, ContractExpr.resolveWith]
    refine Agree.bind hds fun cs hcs => ?_
    refine Agree.bind (ihr fun p hp => h p (.inr hp)) fun c hc => ?_
    exact .refl (Spec.pure ⟨hcs, hc, rfl⟩)

/-- Evaluating an expression keeps a regime that the machines keep. -/
theorem agree_evalWith (hm : R.Runs m m') {e : Expr} (he : R.fit e env) :
    Agree (e.evalWith m env) (e.evalWith m' env) R.value R.fault := by
  induction e generalizing env with
  | lit l s => exact .refl (Spec.pure (R.primitive _ l.isClosure_toValue))
  | var x =>
    rw [Expr.evalWith, Expr.evalWith, hm.store_eq, hm.store_eq']
    refine .refl ?_
    cases hv : env.get? store x.text with
    | some v => exact Spec.pure (R.found x env v he hv)
    | none => exact Spec.throw (R.unbound x env he hv)
  | unary op e s ih =>
    have he' := R.operands _ env he e (by simp [Expr.operands])
    rw [Expr.evalWith, Expr.evalWith]
    refine Agree.bind (ih he') fun v hv => ?_
    exact .refl (R.spec_stepwise (R.span _ env he) (op.stepwise_eval hv s))
  | binary op l r s ihl ihr =>
    have hl := R.operands _ env he l (by simp [Expr.operands])
    have hr := R.operands _ env he r (by simp [Expr.operands])
    rw [Expr.evalWith, Expr.evalWith]
    refine Agree.bind (ihl hl) fun v hv => ?_
    refine Agree.bind (ihr hr) fun w hw => ?_
    exact .refl (R.spec_stepwise (R.span _ env he) (op.stepwise_eval s hv hw))
  | logical op l r s ihl ihr =>
    have hl := R.operands _ env he l (by simp [Expr.operands])
    have hr := R.operands _ env he r (by simp [Expr.operands])
    -- Whatever the operator, the right operand is evaluated last, so it is dealt with once.
    have hright : Agree (do return .bool (← Eval.expectBool (← r.evalWith m env) r.span))
        (do return .bool (← Eval.expectBool (← r.evalWith m' env) r.span)) R.value R.fault := by
      refine Agree.bind (ihr hr) fun w hw => .refl ?_
      refine Spec.bind (R.spec_expectBool (R.span r env hr) hw) fun b _ => ?_
      exact Spec.pure (R.primitive _ rfl)
    rw [Expr.evalWith, Expr.evalWith]
    refine Agree.bind (ihl hl) fun v hv => ?_
    refine Agree.bind (.refl (R.spec_expectBool (R.span l env hl) hv)) fun b _ => ?_
    split
    · exact .refl (Spec.pure (R.primitive _ rfl))
    · exact .refl (Spec.pure (R.primitive _ rfl))
    · exact hright
  | cond c t e s ihc iht ihe =>
    have hc := R.operands _ env he c (by simp [Expr.operands])
    have ht := R.operands _ env he t (by simp [Expr.operands])
    have he' := R.operands _ env he e (by simp [Expr.operands])
    rw [Expr.evalWith, Expr.evalWith]
    refine Agree.bind (ihc hc) fun v hv => ?_
    refine Agree.bind (.refl (R.spec_expectBool (R.span c env hc) hv)) fun b _ => ?_
    split
    · exact iht ht
    · exact ihe he'
  | lambda ps b s _ =>
    rw [Expr.evalWith, Expr.evalWith]
    -- The body is not evaluated yet. That it will fit is part of what is known of the function.
    refine .refl (Spec.bind Spec.fresh fun id _ => Spec.pure ?_)
    exact R.lambda id ps b s env he
  | call f args s ihf ihargs =>
    have hf := R.operands _ env he f (by simp [Expr.operands])
    have hargs : ∀ a ∈ args, R.fit a env := fun a ha =>
      R.operands _ env he a (List.mem_cons_of_mem f ha)
    rw [Expr.evalWith, Expr.evalWith]
    refine Agree.bind (ihf hf) fun callee hcallee => ?_
    refine Agree.bind (R.agree_evalAllWith fun a ha => ihargs a ha (hargs a ha)) fun vs hvs => ?_
    split
    · rename_i c
      exact hm.apply c vs s hcallee hvs.1 (R.span _ env he)
    · -- A callee that is no function is a fault at its own place, not at that of the call.
      exact .refl (Spec.throw (R.arises _ _ (R.span f env hf) (.notCallable _)))
  | letIn x v b s ihv ihb =>
    have hv := R.operands _ env he v (by simp [Expr.operands])
    rw [Expr.evalWith, Expr.evalWith]
    refine Agree.bind (ihv hv) fun w hw => ?_
    -- The body sees one more variable, so it fits another environment than the whole.
    have hb := R.bind x v b s env w he hw
    exact ihb hb
  | seq es s ih =>
    rw [Expr.evalWith, Expr.evalWith]
    refine Agree.bind (R.agree_evalAllWith fun e hmem => ih e hmem (R.operands _ env he e hmem))
      fun vs hvs => .refl ?_
    split
    · rename_i v hv
      exact Spec.pure (hvs.1 v (List.mem_of_getLast? hv))
    · rename_i hnone
      -- Only an empty sequence has no last value.
      rw [List.getLast?_eq_none_iff] at hnone
      rw [hnone, List.length_nil, eq_comm, List.length_eq_zero_iff] at hvs
      rw [hvs.2] at he
      exact Spec.throw (R.hollow s env he)
  | monitored e k pos neg ih ihk =>
    have he' := R.operands _ env he e (by simp [Expr.operands])
    rw [Expr.evalWith, Expr.evalWith]
    refine Agree.bind (ih he') fun v hv => ?_
    -- The predicates do not see the variables that are bound around the expression.
    have hk : ∀ p ∈ k.predicates, R.place p.span ∧
        Agree (p.evalWith m env.root) (p.evalWith m' env.root) R.value R.fault := by
      intro p hp
      have hfit := R.predicates e k pos neg env he p hp
      exact ⟨R.span p env.root hfit, ihk p hp hfit⟩
    refine Agree.bind (R.agree_resolveWith hk) fun c hc => ?_
    exact hm.enforce c v pos _ _ (R.resolved e k pos neg env c he hc) hv (R.span e env he')

end Evaluating

/-! ### Calling -/

/-- Calling keeps every regime, at every level. -/
theorem calls_callUser (level : Nat) : R.Calls (callUser store level) (callUser store level) := by
  induction level with
  | zero => exact fun _ _ _ _ _ _ _ _ => .refl (Spec.throw R.limit)
  | succ level ih =>
    intro id params body env args hc hargs hlength
    rw [callUser]
    -- The body is evaluated with calls at the level below, which the induction hypothesis is about.
    refine Agree.deeper R.limit (Agree.mono ?_ R.escapes)
    exact R.agree_evalWith (R.runs_ofCall ih) (R.body id params body env args hc hargs hlength)

/-- The machine over the store keeps every regime. -/
theorem runs_over : R.Runs (.over store) (.over store) :=
  R.runs_ofCall (R.calls_callUser maxCallDepth)

/-- **Evaluating an expression keeps every regime.** -/
theorem spec_eval {e : Expr} {env : Env} (he : R.fit e env) :
    Spec (e.eval store env) R.value R.fault :=
  (R.agree_evalWith R.runs_over he).spec

/-- **Evaluating a contract keeps every regime.** -/
theorem spec_resolve {k : ContractExpr} {env : Env} (hk : ∀ p ∈ k.predicates, R.fit p env) :
    Spec (k.resolve store env) (fun c => k.Denotes R.value c) R.fault :=
  (R.agree_resolveWith fun p hp =>
    ⟨R.span p env (hk p hp), R.agree_evalWith R.runs_over (hk p hp)⟩).spec

end Regime

end ContractML
