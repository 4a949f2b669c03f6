import ContractML.Eval.Expr
import ContractML.Proofs.Invariant

/-!
# Evaluating as a plain recursion

Evaluating, applying, resolving and enforcing call each other, and nothing in the definitions below
says that this ends: no recursion is on a tree, and a call of a function evaluates its body by the
same recursion again. So every step takes fuel, and without fuel there is no result.

There is fuel enough for every evaluation. Expressions, closures and contracts are trees, and steps
that stay at one number of open calls go down in a tree. A step that leaves the tree opens a call,
and when too many are open the step fails at once. The proof is an induction on how many more calls
may be open, and for each number an induction on the trees.

## Main definitions

* `Timed` — evaluations that may run out of fuel.
* `Expr.evalIn`, `Closure.applyIn`, `ContractExpr.resolveIn`, `Contract.enforceIn` — the recursion.
* `Terminates` — there is fuel enough for a result.
* `Timed.Settles` — with fuel enough, the recursion gives the outcome of an evaluation.

## Main results

* `Timed.Settles.bind`, `Timed.Settles.locate`, `Timed.Settles.deeper` — one rule for each way in
  which evaluations are put together.
* `settles_applyIn`, `settles_enforceIn`, `settles_evalIn`, `settles_resolveIn` — the recursion
  settles if calling does.
* `settles_callUser` — calling settles.
-/

namespace ContractML

/-- An evaluation that may run out of fuel, and then has no outcome. -/
structure Timed (α : Type) where
  run : Counters → Option (EStateM.Result Fault Counters α)

namespace Timed

variable {α β : Type}

def outOfFuel : Timed α := ⟨fun _ => none⟩

/-- An evaluation that takes no fuel. -/
def lift (x : Eval α) : Timed α := ⟨fun c => some (x c)⟩

instance : Monad Timed where
  pure a := lift (pure a)
  bind x k := ⟨fun c =>
    match x.run c with
    | none => none
    | some (.ok a d) => (k a).run d
    | some (.error f d) => some (.error f d)⟩

/-- Gives the fault of an evaluation a place unless it has one. -/
def locate (span : Span) (x : Timed α) : Timed α := ⟨fun c =>
  match x.run c with
  | none => none
  | some (.ok a d) => some (.ok a d)
  | some (.error f d) => some (.error (f.locate span) d)⟩

/-- Evaluates inside one more call, unless too many calls are open. The call is closed again
whether or not the evaluation fails. -/
def deeper (x : Timed α) : Timed α := ⟨fun c =>
  if maxCallDepth ≤ c.depth then some (.error ⟨.callDepthExceeded, none⟩ c)
  else
    match x.run { c with depth := c.depth + 1 } with
    | none => none
    | some (.ok a d) => some (.ok a { d with depth := d.depth - 1 })
    | some (.error f d) => some (.error f { d with depth := d.depth - 1 })⟩

theorem run_bind {x : Timed α} {k : α → Timed β} {y : Eval α} {l : α → Eval β} {c : Counters}
    (hx : x.run c = some (y c))
    (hk : ∀ a d, y c = .ok a d → (k a).run d = some (l a d)) :
    (x >>= k).run c = some ((y >>= l) c) := by
  have hrun : (x >>= k).run c = match x.run c with
    | none => none
    | some (.ok a d) => (k a).run d
    | some (.error f d) => some (.error f d) := rfl
  rw [hrun, hx]
  cases hy : y c with
  | ok a d => rw [Eval.bind_of_ok hy]; exact hk a d hy
  | error f d => rw [Eval.bind_of_error hy]

theorem run_locate {x : Timed α} {y : Eval α} {c : Counters} (span : Span)
    (hx : x.run c = some (y c)) : (locate span x).run c = some (Eval.locate span y c) := by
  unfold locate Eval.locate
  dsimp only
  rw [hx]
  cases y c <;> rfl

theorem run_deeper_of_le {x : Timed α} {c : Counters} (h : maxCallDepth ≤ c.depth) :
    (deeper x).run c = some (.error ⟨.callDepthExceeded, none⟩ c) := by
  unfold deeper
  dsimp only
  rw [if_pos h]

theorem run_deeper {x : Timed α} {y : Eval α} {c : Counters}
    (hx : x.run { c with depth := c.depth + 1 } = some (y { c with depth := c.depth + 1 })) :
    (deeper x).run c = some (Eval.deeper y c) := by
  by_cases hlimit : maxCallDepth ≤ c.depth
  · rw [run_deeper_of_le hlimit, Eval.deeper_of_le y hlimit]
  · unfold deeper Eval.deeper
    dsimp only
    rw [if_neg hlimit, if_neg hlimit, hx]
    cases y { c with depth := c.depth + 1 } <;> rfl

end Timed

open Timed (lift)

/-! ### The recursion -/

mutual

/-- The value of an expression in an environment. -/
def Expr.evalIn (store : Store) : (fuel : Nat) → Expr → Env → Timed Value
  | 0, _, _ => .outOfFuel
  | _ + 1, .lit v _, _ => pure v.toValue
  | _ + 1, .var x, env =>
    match env.get? store x.text with
    | some v => pure v
    | none => lift (Eval.fail (.unboundName x.text) x.span)
  | n + 1, .unary op e span, env => do
    let v ← e.evalIn store n env
    lift (Eval.ofExcept (op.eval v span))
  | n + 1, .binary op l r span, env => do
    let v ← l.evalIn store n env
    let w ← r.evalIn store n env
    lift (Eval.ofExcept (op.eval v w span))
  | n + 1, .logical op l r _, env => do
    let v ← l.evalIn store n env
    let b ← lift (Eval.expectBool v l.span)
    match op, b with
    | .and, false => return .bool false
    | .or, true => return .bool true
    | _, _ =>
      let w ← r.evalIn store n env
      let b ← lift (Eval.expectBool w r.span)
      return .bool b
  | n + 1, .cond c t e _, env => do
    let v ← c.evalIn store n env
    let b ← lift (Eval.expectBool v c.span)
    if b then t.evalIn store n env else e.evalIn store n env
  | _ + 1, .lambda params body _, env => do
    let id ← lift Eval.fresh
    return .closure (.user id (params.map Ident.text) body env)
  | n + 1, .call f args span, env => do
    let callee ← f.evalIn store n env
    let vs ← Expr.evalAllIn store n args env
    match callee with
    | .closure c => c.applyIn store n vs span
    | other => lift (Eval.fail (.notCallable other.type) f.span)
  | n + 1, .letIn x v b _, env => do
    let value ← v.evalIn store n env
    b.evalIn store n (.bind x.text value env)
  | n + 1, .seq es span, env => do
    let vs ← Expr.evalAllIn store n es env
    match vs.getLast? with
    | some v => return v
    | none => lift (throw (.mismatch (.var 0) (.var 0) span))
  | n + 1, .monitored e c pos neg, env => do
    let v ← e.evalIn store n env
    let contract ← c.resolveIn store n env.root
    contract.enforceIn store n v pos (neg.getD topLevel) e.span
termination_by structural n => n

/-- The values of expressions, evaluated from left to right. -/
def Expr.evalAllIn (store : Store) : (fuel : Nat) → List Expr → Env → Timed (List Value)
  | 0, _, _ => .outOfFuel
  | _ + 1, [], _ => pure []
  | n + 1, e :: es, env => do
    let v ← e.evalIn store n env
    let vs ← Expr.evalAllIn store n es env
    return v :: vs
termination_by structural n => n

/-- A contract with its predicates evaluated. -/
def ContractExpr.resolveIn (store : Store) : (fuel : Nat) → ContractExpr → Env → Timed Contract
  | 0, _, _ => .outOfFuel
  | n + 1, .flat e, env => do
    let v ← e.evalIn store n env
    lift (Eval.ofExcept (Contract.ofPredicate e.render v e.span))
  | n + 1, .arrow domain range span, env => do
    let ds ← ContractExpr.resolveAllIn store n domain env
    let r ← range.resolveIn store n env
    return .function ds r (ContractExpr.arrow domain range span).render
termination_by structural n => n

/-- Contracts with their predicates evaluated, from left to right. -/
def ContractExpr.resolveAllIn (store : Store) :
    (fuel : Nat) → List ContractExpr → Env → Timed (List Contract)
  | 0, _, _ => .outOfFuel
  | _ + 1, [], _ => pure []
  | n + 1, c :: cs, env => do
    let d ← c.resolveIn store n env
    let ds ← ContractExpr.resolveAllIn store n cs env
    return d :: ds
termination_by structural n => n

/-- Applies a closure. A function of the language evaluates its body inside one more call. -/
def Closure.applyIn (store : Store) : (fuel : Nat) → Closure → List Value → Span → Timed Value
  | 0, _, _, _ => .outOfFuel
  | _ + 1, .native _ _ type body, args, span => do
    lift (Eval.checkArity (type.arity?.getD 0) args.length span)
    lift (Eval.checkTypes type.params args span)
    lift (Eval.locate span (Eval.ofExcept (body.run args)))
  | n + 1, .user _ params body env, args, span => do
    lift (Eval.checkArity params.length args.length span)
    .locate span (.deeper (body.evalIn store n (env.bindAll params args)))
  | n + 1, .monitored _ inner domain range pos neg, args, span => do
    lift (Eval.checkArity inner.arity args.length span)
    let args ← Contract.enforceAllIn store n domain args neg pos span
    let result ← inner.applyIn store n args span
    range.enforceIn store n result pos neg span
termination_by structural n => n

/-- Checks a value against a contract. -/
def Contract.enforceIn (store : Store) :
    (fuel : Nat) → Contract → Value → (pos neg : String) → Span → Timed Value
  | 0, _, _, _, _, _ => .outOfFuel
  | n + 1, .base predicate label, v, pos, _, span => do
    let answer ← predicate.applyIn store n [v] span
    match answer with
    | .bool true => return v
    | .bool false => lift (throw (Contract.violation label pos v span))
    | other => lift (throw (.mismatch .bool other.type span))
  | _ + 1, .function domain range label, v, pos, neg, span =>
    match v with
    | .closure c => lift (Contract.wrap domain range label c pos neg span)
    | v => pure v
termination_by structural n => n

/-- Checks values against contracts, one by one. -/
def Contract.enforceAllIn (store : Store) :
    (fuel : Nat) → List Contract → List Value → (pos neg : String) → Span → Timed (List Value)
  | 0, _, _, _, _, _ => .outOfFuel
  | n + 1, c :: cs, v :: vs, pos, neg, span => do
    let v ← c.enforceIn store n v pos neg span
    let vs ← Contract.enforceAllIn store n cs vs pos neg span
    return v :: vs
  | _ + 1, _, _, _, _, _ => pure []
termination_by structural n => n

end

/-! ### Fuel enough -/

/-- With fuel enough `x` gives `a`, and more fuel makes no difference. -/
def Terminates {α : Type} (x : Nat → Option α) (a : α) : Prop := ∃ n, ∀ m, n ≤ m → x m = some a

namespace Terminates

variable {α β : Type} {x : Nat → Option α} {a : α}

protected theorem some (a : α) : Terminates (fun _ => some a) a := ⟨0, fun _ _ => rfl⟩

/-- It is enough to look at recursions that have taken their first step. -/
theorem succ (h : Terminates (fun n => x (n + 1)) a) : Terminates x a := by
  obtain ⟨n, hn⟩ := h
  refine ⟨n + 1, ?_⟩
  intro m hm
  obtain ⟨m, rfl⟩ := Nat.exists_eq_add_one_of_ne_zero (by omega : m ≠ 0)
  exact hn m (by omega)

/-- Two recursions after each other: there is fuel enough for both. -/
protected theorem bind {k : Nat → α → Option β} {b : β} (hx : Terminates x a)
    (hk : Terminates (fun n => k n a) b) : Terminates (fun n => (x n).bind (k n)) b := by
  obtain ⟨n, hn⟩ := hx
  obtain ⟨n', hn'⟩ := hk
  refine ⟨max n n', ?_⟩
  intro m hm
  dsimp only
  rw [hn m (by omega)]
  exact hn' m (by omega)

/-- What has an outcome keeps it. -/
theorem imp {y : Nat → Option β} {b : β} (hx : Terminates x a)
    (h : ∀ n, x n = some a → y n = some b) : Terminates y b := by
  obtain ⟨n, hn⟩ := hx
  exact ⟨n, fun m hm => h m (hn m hm)⟩

end Terminates

namespace Timed

variable {α β : Type}

/-- When `d` or more calls are open, there is fuel enough for `x` to give the outcome of `y`. All
calls that `y` opens are closed again. -/
structure Settles (d : Nat) (x : Nat → Timed α) (y : Eval α) : Prop where
  enough : ∀ c, d ≤ c.depth → Terminates (fun n => (x n).run c) (y c)
  closes : Eval.Spec y (fun _ => True) fun _ => True

namespace Settles

variable {d : Nat} {x : Nat → Timed α} {y : Eval α}

theorem succ (h : Settles d (fun n => x (n + 1)) y) : Settles d x y :=
  ⟨fun c hc => (h.enough c hc).succ, h.closes⟩

protected theorem lift {P : α → Prop} {Q : Fault → Prop} (h : Eval.Spec y P Q) :
    Settles d (fun _ => lift y) y where
  enough c _ := Terminates.some (y c)
  closes := h.mono (fun _ _ => trivial) fun _ _ => trivial

protected theorem pure (a : α) : Settles d (fun _ => pure a) (pure a) :=
  Settles.lift (Eval.Spec.pure (P := fun _ => True) (Q := fun _ => True) trivial)

protected theorem throw (f : Fault) : Settles d (fun _ => lift (throw f : Eval α)) (throw f) :=
  Settles.lift (Eval.Spec.throw (P := fun _ => True) (Q := fun _ => True) trivial)

protected theorem ofExcept (r : Except Fault α) :
    Settles d (fun _ => lift (Eval.ofExcept r)) (Eval.ofExcept r) :=
  Settles.lift (Eval.Spec.ofExcept (P := fun _ => True) (Q := fun _ => True)
    (fun _ _ => trivial) fun _ _ => trivial)

protected theorem bind {k : Nat → α → Timed β} {l : α → Eval β} (hx : Settles d x y)
    (hk : ∀ a, Settles d (fun n => k n a) (l a)) :
    Settles d (fun n => x n >>= k n) (y >>= l) := by
  refine ⟨?_, hx.closes.bind fun a _ => (hk a).closes⟩
  intro c hc
  cases hy : y c with
  | error f e =>
    refine (hx.enough c hc).imp fun n hn => run_bind hn ?_
    intro a e' ha
    rw [hy] at ha
    cases ha
  | ok a e =>
    -- The calls of the first part are closed, so the second part begins where it is known to end.
    have he : e.depth = c.depth := (hx.closes.of_ok hy).2
    -- The larger of the two amounts is enough for both parts.
    obtain ⟨n, hn⟩ := hx.enough c hc
    obtain ⟨n', hn'⟩ := (hk a).enough e (by rw [he]; exact hc)
    refine ⟨max n n', fun m hm => run_bind (hn m (by omega)) ?_⟩
    intro a' e' ha
    rw [hy] at ha
    cases ha
    exact hn' m (by omega)

protected theorem locate (span : Span) (hx : Settles d x y) :
    Settles d (fun n => locate span (x n)) (Eval.locate span y) := by
  refine ⟨?_, hx.closes.locate fun _ _ => trivial⟩
  intro c hc
  exact (hx.enough c hc).imp fun n hn => run_locate span hn

/-- Inside one more call, one more call is open. -/
protected theorem deeper (hx : Settles (d + 1) x y) :
    Settles d (fun n => deeper (x n)) (Eval.deeper y) := by
  refine ⟨?_, hx.closes.deeper trivial⟩
  intro c hc
  have hinner := hx.enough { c with depth := c.depth + 1 } (Nat.succ_le_succ hc)
  exact hinner.imp fun n hn => run_deeper hn

/-- When the limit on open calls is reached, a call fails at once. -/
theorem deeper_of_le (hd : maxCallDepth ≤ d) :
    Settles d (fun n => deeper (x n)) (throw ⟨.callDepthExceeded, none⟩ : Eval α) := by
  refine ⟨?_, Eval.Spec.throw trivial⟩
  intro c hc
  exact ⟨0, fun m _ => run_deeper_of_le (Nat.le_trans hd hc)⟩

end Settles

end Timed

/-! ### Applying and enforcing -/

open Timed (Settles)

variable {store : Store} {d : Nat} {call : CallUser}

/-- The way of calling functions of the language is what the recursion comes to. -/
def CallsSettle (store : Store) (d : Nat) (call : CallUser) : Prop :=
  ∀ params body env args,
    Settles d (fun n => .deeper (body.evalIn store n (Env.bindAll env params args)))
      (call params body env args)

mutual

theorem settles_applyIn (hcall : CallsSettle store d call) :
    ∀ (f : Closure) (args : List Value) (span : Span),
      Settles d (fun n => f.applyIn store n args span) (f.applyWith call args span)
  | .native id name type body, args, span => by
    refine Settles.succ ?_
    simp only [Closure.applyIn, Closure.applyWith]
    refine Settles.bind (Settles.lift (Eval.spec_checkArity _ _ _)) fun _ => ?_
    have hrun : Eval.Spec (Eval.ofExcept (body.run args)) (fun _ => True) fun _ => True :=
      (Invariant.trivial store).discipline.spec_run body fun _ _ => trivial
    have hlocated : Eval.Spec (Eval.locate span (Eval.ofExcept (body.run args)))
        (fun _ => True) fun _ => True := hrun.locate fun _ _ => trivial
    have htypes := (Invariant.trivial store).discipline.spec_checkTypes
    refine Settles.bind (Settles.lift (htypes _ _ _)) fun _ => ?_
    exact Settles.lift hlocated
  | .user id params body env, args, span => by
    refine Settles.succ ?_
    simp only [Closure.applyIn, Closure.applyWith]
    refine Settles.bind (Settles.lift (Eval.spec_checkArity _ _ _)) fun _ => ?_
    exact Settles.locate span (hcall params body env args)
  | .monitored id inner domain range pos neg, args, span => by
    refine Settles.succ ?_
    simp only [Closure.applyIn, Closure.applyWith]
    refine Settles.bind (Settles.lift (Eval.spec_checkArity _ _ _)) fun _ => ?_
    refine Settles.bind (settles_enforceAllIn hcall domain args neg pos span) fun args' => ?_
    refine Settles.bind (settles_applyIn hcall inner args' span) fun v => ?_
    exact settles_enforceIn hcall range v pos neg span
termination_by structural f => f

theorem settles_enforceIn (hcall : CallsSettle store d call) :
    ∀ (k : Contract) (v : Value) (pos neg : String) (span : Span),
      Settles d (fun n => k.enforceIn store n v pos neg span) (k.enforceWith call v pos neg span)
  | .base p label, v, pos, neg, span => by
    refine Settles.succ ?_
    simp only [Contract.enforceIn, Contract.enforceWith]
    refine Settles.bind (settles_applyIn hcall p [v] span) fun answer => ?_
    cases answer with
    | bool b =>
      cases b with
      | true => exact Settles.pure v
      | false => exact Settles.throw _
    | _ => exact Settles.throw _
  | .function domain range label, v, pos, neg, span => by
    refine Settles.succ ?_
    rw [Contract.enforceWith.eq_def]
    cases v with
    | closure c =>
      exact Settles.lift (Contract.spec_wrap (P := fun _ => True) (Q := fun _ => True)
        (fun _ _ => trivial) trivial)
    | _ => exact Settles.pure _
termination_by structural k => k

theorem settles_enforceAllIn (hcall : CallsSettle store d call) :
    ∀ (ks : List Contract) (vs : List Value) (pos neg : String) (span : Span),
      Settles d (fun n => Contract.enforceAllIn store n ks vs pos neg span)
        (Contract.enforceAllWith call ks vs pos neg span)
  | k :: ks, v :: vs, pos, neg, span => by
    refine Settles.succ ?_
    simp only [Contract.enforceAllIn, Contract.enforceAllWith]
    refine Settles.bind (settles_enforceIn hcall k v pos neg span) fun w => ?_
    refine Settles.bind (settles_enforceAllIn hcall ks vs pos neg span) fun ws => ?_
    exact Settles.pure (w :: ws)
  | [], _, _, _, _ => Settles.succ (Settles.pure [])
  | _ :: _, [], _, _, _ => Settles.succ (Settles.pure [])
termination_by structural ks => ks

end

/-! ### Evaluating and resolving -/

theorem settles_evalAllIn {m : Machine} {es : List Expr} {env : Env}
    (h : ∀ e ∈ es, Settles d (fun n => e.evalIn store n env) (e.evalWith m env)) :
    Settles d (fun n => Expr.evalAllIn store n es env) (Expr.evalAllWith m es env) := by
  induction es with
  | nil => exact Settles.succ (Settles.pure [])
  | cons e es ih =>
    rw [List.forall_mem_cons] at h
    refine Settles.succ ?_
    simp only [Expr.evalAllIn, Expr.evalAllWith]
    refine Settles.bind h.1 fun v => ?_
    refine Settles.bind (ih h.2) fun vs => ?_
    exact Settles.pure (v :: vs)

theorem settles_resolveAllIn {m : Machine} {ks : List ContractExpr} {env : Env}
    (h : ∀ k ∈ ks, Settles d (fun n => k.resolveIn store n env) (k.resolveWith m env)) :
    Settles d (fun n => ContractExpr.resolveAllIn store n ks env)
      (ContractExpr.resolveAllWith m ks env) := by
  induction ks with
  | nil => exact Settles.succ (Settles.pure [])
  | cons k ks ih =>
    rw [List.forall_mem_cons] at h
    refine Settles.succ ?_
    simp only [ContractExpr.resolveAllIn, ContractExpr.resolveAllWith]
    refine Settles.bind h.1 fun c => ?_
    refine Settles.bind (ih h.2) fun cs => ?_
    exact Settles.pure (c :: cs)

theorem settles_resolveIn {m : Machine} {k : ContractExpr} {env : Env}
    (h : ∀ p ∈ k.predicates, Settles d (fun n => p.evalIn store n env) (p.evalWith m env)) :
    Settles d (fun n => k.resolveIn store n env) (k.resolveWith m env) := by
  induction k with
  | flat e =>
    refine Settles.succ ?_
    simp only [ContractExpr.resolveIn, ContractExpr.resolveWith]
    refine Settles.bind (h e (by simp [ContractExpr.predicates])) fun v => ?_
    exact Settles.ofExcept _
  | arrow ds r s ihds ihr =>
    simp only [ContractExpr.mem_predicates_arrow] at h
    have hds : Settles d (fun n => ContractExpr.resolveAllIn store n ds env)
        (ContractExpr.resolveAllWith m ds env) :=
      settles_resolveAllIn fun k hk => ihds k hk fun p hp => h p (.inl ⟨k, hk, hp⟩)
    refine Settles.succ ?_
    simp only [ContractExpr.resolveIn, ContractExpr.resolveWith]
    refine Settles.bind hds fun cs => ?_
    refine Settles.bind (ihr fun p hp => h p (.inr hp)) fun c => ?_
    exact Settles.pure _

theorem settles_expectBool (v : Value) (span : Span) :
    Settles d (fun _ => lift (Eval.expectBool v span)) (Eval.expectBool v span) :=
  Settles.lift (Eval.Spec.expectBool (Q := fun _ => True) fun _ _ => trivial)

theorem settles_evalIn (hcall : CallsSettle store d call) (e : Expr) (env : Env) :
    Settles d (fun n => e.evalIn store n env) (e.evalWith (.ofCall store call) env) := by
  -- Every node takes one unit of fuel, which `Settles.succ` allows for.
  induction e generalizing env with
  | lit v s => exact Settles.succ (Settles.pure _)
  | var x =>
    refine Settles.succ ?_
    simp only [Expr.evalIn, Expr.evalWith, Machine.ofCall]
    cases env.get? store x.text with
    | some v => exact Settles.pure v
    | none => exact Settles.throw _
  | unary op e s ih =>
    refine Settles.succ ?_
    simp only [Expr.evalIn, Expr.evalWith]
    refine Settles.bind (ih env) fun v => ?_
    exact Settles.ofExcept _
  | binary op l r s ihl ihr =>
    refine Settles.succ ?_
    simp only [Expr.evalIn, Expr.evalWith]
    refine Settles.bind (ihl env) fun v => ?_
    refine Settles.bind (ihr env) fun w => ?_
    exact Settles.ofExcept _
  | logical op l r s ihl ihr =>
    refine Settles.succ ?_
    simp only [Expr.evalIn, Expr.evalWith]
    refine Settles.bind (ihl env) fun v => ?_
    refine Settles.bind (settles_expectBool v _) fun b => ?_
    -- The right operand is evaluated only if the left one does not settle the matter.
    have hright : Settles d (fun n => do
        let w ← r.evalIn store n env
        let b ← lift (Eval.expectBool w r.span)
        return Value.bool b)
        (do
          let w ← r.evalWith (.ofCall store call) env
          return Value.bool (← Eval.expectBool w r.span)) := by
      refine Settles.bind (ihr env) fun w => ?_
      refine Settles.bind (settles_expectBool w _) fun b' => ?_
      exact Settles.pure _
    cases op with
    | and =>
      cases b with
      | false => exact Settles.pure _
      | true => exact hright
    | or =>
      cases b with
      | false => exact hright
      | true => exact Settles.pure _
  | cond c t e s ihc iht ihe =>
    refine Settles.succ ?_
    simp only [Expr.evalIn, Expr.evalWith]
    refine Settles.bind (ihc env) fun v => ?_
    refine Settles.bind (settles_expectBool v _) fun b => ?_
    split
    · exact iht env
    · exact ihe env
  | lambda ps b s _ =>
    refine Settles.succ ?_
    simp only [Expr.evalIn, Expr.evalWith]
    refine Settles.bind (Settles.lift (Eval.Spec.fresh (Q := fun _ => True))) fun id => ?_
    exact Settles.pure _
  | call f args s ihf ihargs =>
    refine Settles.succ ?_
    simp only [Expr.evalIn, Expr.evalWith]
    refine Settles.bind (ihf env) fun callee => ?_
    refine Settles.bind (settles_evalAllIn fun a ha => ihargs a ha env) fun vs => ?_
    -- The arguments are evaluated also if the callee turns out to be no function.
    cases callee with
    | closure c => exact settles_applyIn hcall c vs s
    | _ => exact Settles.throw _
  | letIn x v b s ihv ihb =>
    refine Settles.succ ?_
    simp only [Expr.evalIn, Expr.evalWith]
    refine Settles.bind (ihv env) fun w => ?_
    exact ihb _
  | seq es s ih =>
    refine Settles.succ ?_
    simp only [Expr.evalIn, Expr.evalWith]
    refine Settles.bind (settles_evalAllIn fun e he => ih e he env) fun vs => ?_
    cases vs.getLast? with
    | some v => exact Settles.pure v
    | none => exact Settles.throw _
  | monitored e k pos neg ih ihk =>
    refine Settles.succ ?_
    simp only [Expr.evalIn, Expr.evalWith]
    refine Settles.bind (ih env) fun v => ?_
    -- Value, contract and check share the fuel, so what is enough for each of them is enough.
    refine Settles.bind (settles_resolveIn fun p hp => ihk p hp env.root) fun c => ?_
    exact settles_enforceIn hcall c v pos _ _

/-! ### Calling -/

/-- With as many levels as there may be more open calls, calling settles. -/
theorem settles_callUser {level : Nat} (h : maxCallDepth ≤ level + d) :
    CallsSettle store d (callUser store level) := by
  induction level generalizing d with
  | zero =>
    intro params body env args
    exact Settles.deeper_of_le (by omega)
  | succ level ih =>
    intro params body env args
    -- The body is evaluated with one more open call, at the level below.
    have hcalls : CallsSettle store (d + 1) (callUser store level) := ih (by omega)
    exact Settles.deeper (settles_evalIn hcalls body _)

theorem callsSettle (store : Store) : CallsSettle store 0 (callUser store maxCallDepth) :=
  settles_callUser (Nat.le_refl _)

end ContractML
