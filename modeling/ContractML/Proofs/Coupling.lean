import ContractML.Proofs.Invariant
import ContractML.Proofs.Relabelling

/-!
# Two runs side by side

A coupling runs two evaluations side by side. The second one works on relabelled values, with other
positions in its trees and other identities for the closures that it makes, and it may have another
number of open calls. What the first one answers the second one answers as well, up to labels: a
value, or a fault with the same cause. Faults with an excused cause are left out of this, and
nothing is said about the second run after one.

The judgement has one rule for each way in which evaluations are put together, and is proved here of
the whole evaluator: for applying and checking by recursion on the wrappers of a closure, for
evaluating by induction on the expression, and for calling by induction on the levels. How many
calls may be open is a parameter of the two runs, so that runs under different limits can be
compared.

## Main definitions

* `Coupling`, `Coupling.Aligned` — two runs, and how their counters correspond.
* `Coupling.Matches` — the judgement.
* `Eval.deeperWithin`, `callWithin`, `Machine.within` — the evaluator with a limit of its own.

## Main results

* `Coupling.matches_applyWith`, `Coupling.matches_enforceWith` — applying and checking.
* `Coupling.matches_evalWith`, `Coupling.matches_resolveWith` — evaluating.
* `Coupling.calls_callWithin` — calling, at two levels and under two limits.
* `Coupling.runs_within` — **the machines of two runs match**.
* `Coupling.Runs.eval_eq`, `Coupling.Runs.apply_eq` — the same for runs with the same labels.
-/

namespace ContractML

/-! ### Limits -/

/-- Evaluates inside one more call, unless as many calls are open as the limit allows. -/
def Eval.deeperWithin {α : Type} (limit : Nat) (x : Eval α) : Eval α := fun c =>
  if limit ≤ c.depth then .error ⟨.callDepthExceeded, none⟩ c
  else
    match x { c with depth := c.depth + 1 } with
    | .ok a c => .ok a { c with depth := c.depth - 1 }
    | .error f c => .error f { c with depth := c.depth - 1 }

/-- Calls a function of the language under a limit on open calls. -/
def callWithin (store : Store) (limit : Nat) : (level : Nat) → CallUser
  | 0 => fun _ _ _ _ => throw ⟨.callDepthExceeded, none⟩
  | level + 1 => fun params body env args =>
    Eval.deeperWithin limit
      (body.evalWith (.ofCall store (callWithin store limit level)) (env.bindAll params args))

/-- The machine over a store under a limit on open calls. -/
def Machine.within (store : Store) (limit : Nat) : Machine :=
  .ofCall store (callWithin store limit limit)

theorem callWithin_maxCallDepth (store : Store) :
    callWithin store maxCallDepth = callUser store := by
  funext level
  induction level with
  | zero => rfl
  | succ level ih =>
    rw [callWithin, callUser, ih]
    rfl

/-- The evaluator runs under the limit `maxCallDepth`. -/
theorem Machine.within_maxCallDepth (store : Store) :
    within store maxCallDepth = Machine.over store := by
  rw [within, Machine.over, callWithin_maxCallDepth]

/-! ### Couplings -/

/-- Two runs side by side. -/
structure Coupling where
  /-- What the labels of the first run are in the second one. -/
  labels : Relabelling
  /-- The number of calls that are open in the first run. -/
  depth : Nat
  /-- The number of calls that are open in the second run. -/
  depth' : Nat
  /-- The causes after which the second run may go on as it likes. -/
  excused : Fault.Cause → Prop

namespace Coupling

open Eval (bind_apply)

variable {κ : Coupling} {α β γ δ : Type}

/-- The runs inside one more call. -/
def inside (κ : Coupling) : Coupling := { κ with depth := κ.depth + 1, depth' := κ.depth' + 1 }

/-- The counters of the two runs. Both runs give out the identities to come in the same order. -/
structure Aligned (κ : Coupling) (c c' : Counters) : Prop where
  depth : c.depth = κ.depth
  depth' : c'.depth = κ.depth'
  identity : ∀ k, κ.labels.identity (c.identity + k) = c'.identity + k

/-- The second answer is the first one with other labels, if `g` says what becomes of a value. -/
inductive Answers (κ : Coupling) (g : α → β) :
    EStateM.Result Fault Counters α → EStateM.Result Fault Counters β → Prop
  /-- Both runs give a value. -/
  | ok {a : α} {c c' : Counters} : κ.Aligned c c' → Answers κ g (.ok a c) (.ok (g a) c')
  /-- Both runs fail. -/
  | error {f : Fault} {c c' : Counters} : κ.Aligned c c' →
      Answers κ g (.error f c) (.error (f.move κ.labels.place) c')
  /-- The first run fails with an excused cause. -/
  | excused {f : Fault} {c : Counters} {r : EStateM.Result Fault Counters β} :
      κ.excused f.cause → Answers κ g (.error f c) r

/-- From counters that correspond, the second evaluation answers what the first one answers. -/
def Matches (κ : Coupling) (g : α → β) (x : Eval α) (y : Eval β) : Prop :=
  ∀ c c', κ.Aligned c c' → κ.Answers g (x c) (y c')

namespace Matches

variable {g : α → β} {h : γ → δ} {x : Eval α} {y : Eval β}

protected theorem pure {a : α} {b : β} (hb : b = g a) : κ.Matches g (pure a) (pure b) := by
  subst hb
  exact fun c c' hc => .ok hc

protected theorem throw {f f' : Fault} (hf : f' = f.move κ.labels.place) :
    κ.Matches g (throw f) (throw f') := by
  subst hf
  exact fun c c' hc => .error hc

/-- A value of the wrong type is one in both runs. -/
theorem mismatch (expected : Ty) (v : Value) (span : Span) :
    κ.Matches g (throw (.mismatch expected v.type span))
      (throw (.mismatch expected (v.relabel κ.labels).type (span.move κ.labels.place))) := by
  refine Matches.throw ?_
  rw [Value.type_relabel, Fault.move_mismatch]

protected theorem bind {k : α → Eval γ} {l : β → Eval δ} (hx : κ.Matches g x y)
    (hk : ∀ a, κ.Matches h (k a) (l (g a))) : κ.Matches h (x >>= k) (y >>= l) := by
  intro c c' hc
  have hxc := hx c c' hc
  rw [bind_apply, bind_apply]
  generalize x c = r at hxc ⊢
  generalize y c' = r' at hxc ⊢
  cases hxc with
  | ok hd => exact hk _ _ _ hd
  | error hd => exact .error hd
  | excused hf => exact .excused hf

protected theorem ofExcept {r : Except Fault α} {s : Except Fault β}
    (hs : s = κ.labels.outcome g r) : κ.Matches g (Eval.ofExcept r) (Eval.ofExcept s) := by
  subst hs
  cases r with
  | ok a => exact Matches.pure rfl
  | error f => exact Matches.throw rfl

/-- The closures that the two runs make next correspond. -/
protected theorem fresh : κ.Matches κ.labels.identity Eval.fresh Eval.fresh := by
  intro c c' hc
  have hnow : κ.labels.identity c.identity = c'.identity := hc.identity 0
  have hlater : ∀ k, κ.labels.identity (c.identity + 1 + k) = c'.identity + 1 + k := by
    intro k
    rw [Nat.add_assoc, Nat.add_assoc]
    exact hc.identity (1 + k)
  have hok : κ.Answers κ.labels.identity (.ok c.identity { c with identity := c.identity + 1 })
      (.ok (κ.labels.identity c.identity) { c' with identity := c'.identity + 1 }) :=
    .ok ⟨hc.depth, hc.depth', hlater⟩
  rw [hnow] at hok
  exact hok

protected theorem locate (span : Span) (hx : κ.Matches g x y) :
    κ.Matches g (Eval.locate span x) (Eval.locate (span.move κ.labels.place) y) := by
  intro c c' hc
  have hxc := hx c c' hc
  unfold Eval.locate
  generalize x c = r at hxc ⊢
  generalize y c' = r' at hxc ⊢
  cases hxc with
  | ok hd => exact .ok hd
  | error hd =>
    rename_i f d d'
    change κ.Answers g (.error (f.locate span) d)
      (.error ((f.move κ.labels.place).locate (span.move κ.labels.place)) d')
    rw [← Fault.move_locate]
    exact .error hd
  | excused hf => exact .excused hf

/-- An evaluation inside one more call. The second run has to go on where the first one does, and to
stop where it stops unless that is excused. -/
protected theorem deeperWithin {limit limit' : Nat}
    (hgo : κ.depth < limit → κ.depth' < limit' ∧ κ.inside.Matches g x y)
    (hstop : limit ≤ κ.depth → κ.excused .callDepthExceeded ∨ limit' ≤ κ.depth') :
    κ.Matches g (Eval.deeperWithin limit x) (Eval.deeperWithin limit' y) := by
  intro c c' hc
  unfold Eval.deeperWithin
  rw [hc.depth, hc.depth']
  by_cases hlimit : limit ≤ κ.depth
  · rw [if_pos hlimit]
    rcases hstop hlimit with hexcused | hlimit'
    · exact .excused hexcused
    · rw [if_pos hlimit']
      exact .error hc
  · obtain ⟨hlimit', hx⟩ := hgo (Nat.lt_of_not_le hlimit)
    rw [if_neg hlimit, if_neg (Nat.not_le_of_lt hlimit')]
    have hxc := hx { c with depth := κ.depth + 1 } { c' with depth := κ.depth' + 1 }
      ⟨rfl, rfl, hc.identity⟩
    -- The call that was opened is closed again in both runs, also after a fault.
    have hclose : ∀ {d d' : Counters}, κ.inside.Aligned d d' →
        κ.Aligned { d with depth := d.depth - 1 } { d' with depth := d'.depth - 1 } := by
      intro d d' hd
      refine ⟨?_, ?_, hd.identity⟩
      · change d.depth - 1 = κ.depth
        rw [hd.depth]
        rfl
      · change d'.depth - 1 = κ.depth'
        rw [hd.depth']
        rfl
    generalize x { c with depth := κ.depth + 1 } = r at hxc ⊢
    generalize y { c' with depth := κ.depth' + 1 } = r' at hxc ⊢
    cases hxc with
    | ok hd => exact .ok (hclose hd)
    | error hd => exact .error (hclose hd)
    | excused hf => exact .excused hf

end Matches

open Matches

/-! ### Single steps -/

theorem matches_expectBool (v : Value) (span : Span) :
    κ.Matches id (Eval.expectBool v span)
      (Eval.expectBool (v.relabel κ.labels) (span.move κ.labels.place)) := by
  cases v with
  | bool b => exact Matches.pure rfl
  | _ => exact Matches.mismatch .bool _ span

theorem matches_checkArity (expected found : Nat) (span : Span) :
    κ.Matches id (Eval.checkArity expected found span)
      (Eval.checkArity expected found (span.move κ.labels.place)) := by
  unfold Eval.checkArity
  split
  · exact Matches.pure rfl
  · exact Matches.throw rfl

theorem matches_checkTypes (types : List Ty) (args : List Value) (span : Span) :
    κ.Matches id (Eval.checkTypes types args span)
      (Eval.checkTypes types (args.map (Value.relabel κ.labels)) (span.move κ.labels.place)) := by
  fun_induction Eval.checkTypes types args span with
  | case1 t ts v vs span haccepts ih =>
    rw [List.map_cons, Eval.checkTypes, Value.type_relabel, if_pos haccepts]
    exact ih
  | case2 t ts v vs span haccepts =>
    rw [List.map_cons, Eval.checkTypes, Value.type_relabel, if_neg haccepts]
    exact Matches.throw rfl
  | case3 types args span hnone =>
    cases types with
    | nil => exact Matches.pure rfl
    | cons t ts =>
      cases args with
      | nil => exact Matches.pure rfl
      | cons v vs => exact (hnone t ts v vs rfl rfl).elim

theorem matches_wrap (domain : List Contract) (range : Contract) (label : String) (c : Closure)
    (pos neg : String) (span : Span) :
    κ.Matches (Value.relabel κ.labels) (Contract.wrap domain range label c pos neg span)
      (Contract.wrap (Contract.relabelAll κ.labels domain) (range.relabel κ.labels) label
        (c.relabel κ.labels) pos neg (span.move κ.labels.place)) := by
  unfold Contract.wrap
  rw [Closure.arity_relabel, Contract.relabelAll_eq_map, List.length_map]
  split
  · refine Matches.bind Matches.fresh fun id => Matches.pure ?_
    rw [Value.relabel_closure, Closure.relabel, Contract.relabelAll_eq_map]
  · refine Matches.throw ?_
    rw [Contract.move_violation, Value.relabel_closure]

/-! ### Applying and checking -/

/-- Two ways of calling a function of the language that match. -/
def Calls (κ : Coupling) (call call' : CallUser) : Prop :=
  ∀ params body env args, κ.Matches (Value.relabel κ.labels) (call params body env args)
    (call' params (body.move κ.labels.place) (env.relabel κ.labels)
      (args.map (Value.relabel κ.labels)))

mutual

/-- Applying a closure matches if calling does. -/
theorem matches_applyWith {call call' : CallUser} (hcall : κ.Calls call call') : ∀ (c : Closure)
    (args : List Value) (span : Span),
      κ.Matches (Value.relabel κ.labels) (c.applyWith call args span)
        ((c.relabel κ.labels).applyWith call' (args.map (Value.relabel κ.labels))
          (span.move κ.labels.place))
  | .native id name type body, args, span => by
    rw [Closure.relabel, Closure.applyWith, Closure.applyWith, List.length_map]
    refine Matches.bind (matches_checkArity _ _ _) fun _ => ?_
    refine Matches.bind (matches_checkTypes _ _ _) fun _ => ?_
    exact (Matches.ofExcept (body.run_relabel κ.labels args)).locate span
  | .user id params body env, args, span => by
    rw [Closure.relabel, Closure.applyWith, Closure.applyWith, List.length_map]
    refine Matches.bind (matches_checkArity _ _ _) fun _ => ?_
    exact (hcall params body env args).locate span
  | .monitored id inner domain range pos neg, args, span => by
    rw [Closure.relabel, Closure.applyWith, Closure.applyWith, Closure.arity_relabel,
      List.length_map]
    refine Matches.bind (matches_checkArity _ _ _) fun _ => ?_
    refine Matches.bind (matches_enforceAllWith hcall domain args neg pos span) fun args' => ?_
    refine Matches.bind (matches_applyWith hcall inner args' span) fun result => ?_
    exact matches_enforceWith hcall range result pos neg span
termination_by structural c => c

/-- Checking a value matches if calling does. -/
theorem matches_enforceWith {call call' : CallUser} (hcall : κ.Calls call call') :
    ∀ (k : Contract) (v : Value) (pos neg : String) (span : Span),
      κ.Matches (Value.relabel κ.labels) (k.enforceWith call v pos neg span)
        ((k.relabel κ.labels).enforceWith call' (v.relabel κ.labels) pos neg
          (span.move κ.labels.place))
  | .base p label, v, pos, neg, span => by
    rw [Contract.relabel, Contract.enforceWith, Contract.enforceWith]
    refine Matches.bind (matches_applyWith hcall p [v] span) fun answer => ?_
    cases answer with
    | bool b =>
      cases b with
      | true => exact Matches.pure rfl
      | false => exact Matches.throw (Contract.move_violation κ.labels label pos v span).symm
    | _ => exact Matches.mismatch .bool _ span
  | .function domain range label, v, pos, neg, span => by
    cases v with
    | closure c =>
      rw [Contract.relabel, Value.relabel_closure, Contract.enforceWith, Contract.enforceWith]
      exact matches_wrap domain range label c pos neg span
    | _ => exact Matches.pure rfl
termination_by structural k => k

/-- Checking several values matches if calling does. -/
theorem matches_enforceAllWith {call call' : CallUser} (hcall : κ.Calls call call') :
    ∀ (ks : List Contract) (vs : List Value) (pos neg : String) (span : Span),
      κ.Matches (List.map (Value.relabel κ.labels))
        (Contract.enforceAllWith call ks vs pos neg span)
        (Contract.enforceAllWith call' (Contract.relabelAll κ.labels ks)
          (vs.map (Value.relabel κ.labels)) pos neg (span.move κ.labels.place))
  | k :: ks, v :: vs, pos, neg, span => by
    rw [Contract.relabelAll, List.map_cons, Contract.enforceAllWith, Contract.enforceAllWith]
    refine Matches.bind (matches_enforceWith hcall k v pos neg span) fun w => ?_
    refine Matches.bind (matches_enforceAllWith hcall ks vs pos neg span) fun ws => ?_
    exact Matches.pure rfl
  | [], _, _, _, _ => Matches.pure rfl
  | _ :: _, [], _, _, _ => Matches.pure rfl
termination_by structural ks => ks

end

/-! ### Evaluating -/

/-- The machines of the two runs match. -/
structure Runs (κ : Coupling) (m m' : Machine) : Prop where
  /-- The second store is the first one relabelled. -/
  store : m.store.Relabels κ.labels m'.store
  /-- Applying a closure matches. -/
  apply : ∀ c args span, κ.Matches (Value.relabel κ.labels) (m.apply c args span)
    (m'.apply (c.relabel κ.labels) (args.map (Value.relabel κ.labels)) (span.move κ.labels.place))
  /-- Checking a value matches. -/
  enforce : ∀ k v pos neg span, κ.Matches (Value.relabel κ.labels) (m.enforce k v pos neg span)
    (m'.enforce (k.relabel κ.labels) (v.relabel κ.labels) pos neg (span.move κ.labels.place))

theorem runs_ofCall {σ τ : Store} (hστ : σ.Relabels κ.labels τ) {call call' : CallUser}
    (hcall : κ.Calls call call') : κ.Runs (.ofCall σ call) (.ofCall τ call') where
  store := hστ
  apply := matches_applyWith hcall
  enforce := matches_enforceWith hcall

variable {m m' : Machine}

/-- Evaluating several expressions, each of which matches. -/
theorem matches_evalAllWith {es : List Expr} {env : Env}
    (h : ∀ e ∈ es, κ.Matches (Value.relabel κ.labels) (e.evalWith m env)
      ((e.move κ.labels.place).evalWith m' (env.relabel κ.labels))) :
    κ.Matches (List.map (Value.relabel κ.labels)) (Expr.evalAllWith m es env)
      (Expr.evalAllWith m' (Expr.moveAll κ.labels.place es) (env.relabel κ.labels)) := by
  induction es with
  | nil => exact Matches.pure rfl
  | cons e es ih =>
    rw [List.forall_mem_cons] at h
    rw [Expr.moveAll, Expr.evalAllWith, Expr.evalAllWith]
    refine Matches.bind h.1 fun v => Matches.bind (ih h.2) fun vs => ?_
    exact Matches.pure rfl

/-- Evaluating several contracts, each of which matches. -/
theorem matches_resolveAllWith {ks : List ContractExpr} {env : Env}
    (h : ∀ k ∈ ks, κ.Matches (Contract.relabel κ.labels) (k.resolveWith m env)
      ((k.move κ.labels.place).resolveWith m' (env.relabel κ.labels))) :
    κ.Matches (Contract.relabelAll κ.labels) (ContractExpr.resolveAllWith m ks env)
      (ContractExpr.resolveAllWith m' (ContractExpr.moveAll κ.labels.place ks)
        (env.relabel κ.labels)) := by
  induction ks with
  | nil => exact Matches.pure rfl
  | cons k ks ih =>
    rw [List.forall_mem_cons] at h
    rw [ContractExpr.moveAll, ContractExpr.resolveAllWith, ContractExpr.resolveAllWith]
    refine Matches.bind h.1 fun c => Matches.bind (ih h.2) fun cs => ?_
    exact Matches.pure rfl

/-- Evaluating a contract matches if its predicates do. -/
theorem matches_resolveWith {k : ContractExpr} {env : Env}
    (h : ∀ p ∈ k.predicates, κ.Matches (Value.relabel κ.labels) (p.evalWith m env)
      ((p.move κ.labels.place).evalWith m' (env.relabel κ.labels))) :
    κ.Matches (Contract.relabel κ.labels) (k.resolveWith m env)
      ((k.move κ.labels.place).resolveWith m' (env.relabel κ.labels)) := by
  induction k with
  | flat e =>
    rw [ContractExpr.move, ContractExpr.resolveWith, ContractExpr.resolveWith, Expr.render_move,
      Expr.span_move]
    refine Matches.bind (h e (by simp [ContractExpr.predicates])) fun v => ?_
    exact Matches.ofExcept (Contract.ofPredicate_relabel κ.labels _ v _)
  | arrow ds r s ihds ihr =>
    simp only [ContractExpr.mem_predicates_arrow] at h
    have hds : κ.Matches (Contract.relabelAll κ.labels) (ContractExpr.resolveAllWith m ds env)
        (ContractExpr.resolveAllWith m' (ContractExpr.moveAll κ.labels.place ds)
          (env.relabel κ.labels)) :=
      matches_resolveAllWith fun d hd => ihds d hd fun p hp => h p (.inl ⟨d, hd, hp⟩)
    have hrender := ContractExpr.render_move κ.labels.place (.arrow ds r s)
    rw [ContractExpr.move] at hrender
    rw [ContractExpr.move, ContractExpr.resolveWith, ContractExpr.resolveWith, hrender]
    refine Matches.bind hds fun cs => ?_
    refine Matches.bind (ihr fun p hp => h p (.inr hp)) fun c => ?_
    exact Matches.pure rfl

/-- Evaluating an expression matches on machines that match. -/
theorem matches_evalWith (hm : κ.Runs m m') (e : Expr) (env : Env) :
    κ.Matches (Value.relabel κ.labels) (e.evalWith m env)
      ((e.move κ.labels.place).evalWith m' (env.relabel κ.labels)) := by
  induction e generalizing env with
  | lit l s => exact Matches.pure l.relabel_toValue.symm
  | var x =>
    rw [Expr.move, Expr.evalWith, Expr.evalWith, Ident.text_move, Env.get?_relabel hm.store]
    cases env.get? m.store x.text with
    | none => exact Matches.throw rfl
    | some v => exact Matches.pure rfl
  | unary op e s ih =>
    rw [Expr.move, Expr.evalWith, Expr.evalWith]
    refine Matches.bind (ih env) fun v => ?_
    exact Matches.ofExcept (op.eval_relabel κ.labels v s)
  | binary op l r s ihl ihr =>
    rw [Expr.move, Expr.evalWith, Expr.evalWith]
    refine Matches.bind (ihl env) fun v => Matches.bind (ihr env) fun w => ?_
    exact Matches.ofExcept (op.eval_relabel κ.labels v w s)
  | logical op l r s ihl ihr =>
    rw [Expr.move, Expr.evalWith, Expr.evalWith, Expr.span_move, Expr.span_move]
    refine Matches.bind (ihl env) fun v => ?_
    refine Matches.bind (matches_expectBool v l.span) fun b => ?_
    have hright : κ.Matches (Value.relabel κ.labels)
        (do return .bool (← Eval.expectBool (← r.evalWith m env) r.span))
        (do return .bool (← Eval.expectBool
          (← (r.move κ.labels.place).evalWith m' (env.relabel κ.labels))
          (r.span.move κ.labels.place))) := by
      refine Matches.bind (ihr env) fun w => ?_
      exact Matches.bind (matches_expectBool w r.span) fun b => Matches.pure rfl
    cases op <;> cases b
    · exact Matches.pure rfl
    · exact hright
    · exact hright
    · exact Matches.pure rfl
  | cond c t e s ihc iht ihe =>
    rw [Expr.move, Expr.evalWith, Expr.evalWith, Expr.span_move]
    refine Matches.bind (ihc env) fun v => ?_
    refine Matches.bind (matches_expectBool v c.span) fun b => ?_
    cases b with
    | true => exact iht env
    | false => exact ihe env
  | lambda ps b s _ =>
    rw [Expr.move, Expr.evalWith, Expr.evalWith, List.map_map]
    exact Matches.bind Matches.fresh fun id => Matches.pure rfl
  | call f args s ihf ihargs =>
    rw [Expr.move, Expr.evalWith, Expr.evalWith, Expr.span_move]
    refine Matches.bind (ihf env) fun callee => ?_
    refine Matches.bind (matches_evalAllWith fun a ha => ihargs a ha env) fun vs => ?_
    cases callee with
    | closure c => exact hm.apply c vs s
    | _ => exact Matches.throw rfl
  | letIn x v b s ihv ihb =>
    rw [Expr.move, Expr.evalWith, Expr.evalWith]
    refine Matches.bind (ihv env) fun w => ?_
    exact ihb (.bind x.text w env)
  | seq es s ih =>
    rw [Expr.move, Expr.evalWith, Expr.evalWith]
    refine Matches.bind (matches_evalAllWith fun e he => ih e he env) fun vs => ?_
    rw [List.getLast?_map]
    cases vs.getLast? with
    | none => exact Matches.throw rfl
    | some v => exact Matches.pure rfl
  | monitored e k pos neg ih ihk =>
    rw [Expr.move, Expr.evalWith, Expr.evalWith, Expr.span_move,
      Env.root_relabel hm.store.frames_eq]
    refine Matches.bind (ih env) fun v => ?_
    refine Matches.bind (matches_resolveWith fun p hp => ihk p hp env.root) fun c => ?_
    exact hm.enforce c v pos _ e.span

/-! ### Calling -/

/-- The second run has room for every call that the first one makes. It stops where the first one
stops, unless stopping there is excused. -/
structure Room (κ : Coupling) (limit limit' level level' : Nat) : Prop where
  levels : level ≤ level'
  calls : κ.depth' + limit ≤ κ.depth + limit'
  exact : κ.excused .callDepthExceeded ∨ level' ≤ level ∧ κ.depth + limit' ≤ κ.depth' + limit

theorem Room.inside {limit limit' level level' : Nat}
    (h : κ.Room limit limit' (level + 1) (level' + 1)) :
    κ.inside.Room limit limit' level level' where
  levels := Nat.le_of_succ_le_succ h.levels
  calls := by
    have hcalls := h.calls
    simp only [Coupling.inside]
    omega
  exact := by
    refine h.exact.imp_right fun ⟨hlevels, hcalls⟩ => ⟨Nat.le_of_succ_le_succ hlevels, ?_⟩
    simp only [Coupling.inside]
    omega

/-- Calling a function matches at levels and under limits that leave room. -/
theorem calls_callWithin {σ τ : Store} {limit limit' level level' : Nat}
    (hστ : σ.Relabels κ.labels τ) (hroom : κ.Room limit limit' level level') :
    κ.Calls (callWithin σ limit level) (callWithin τ limit' level') := by
  -- Both limits stay, while the levels go down and the open calls go up by one.
  induction level generalizing κ level' with
  | zero =>
    intro params body env args
    rcases hroom.exact with hexcused | ⟨hlevel, -⟩
    · exact fun _ _ _ => .excused hexcused
    · rw [Nat.le_zero.mp hlevel]
      exact Matches.throw rfl
  | succ level ih =>
    cases level' with
    | zero => exact absurd hroom.levels (Nat.not_succ_le_zero level)
    | succ level' =>
      intro params body env args
      simp only [callWithin, Env.bindAll_relabel]
      refine Matches.deeperWithin (fun hgo => ⟨?_, ?_⟩) fun hstop => ?_
      · have hcalls := hroom.calls
        omega
      · have hinside : σ.Relabels κ.inside.labels τ := hστ
        exact matches_evalWith (runs_ofCall hinside (ih hinside hroom.inside)) body _
      · rcases hroom.exact with hexcused | ⟨-, hcalls⟩
        · exact .inl hexcused
        · exact .inr (by omega)

/-- **The machines of two runs match**, if the second run has room for the calls of the first. -/
theorem runs_within {σ τ : Store} {limit limit' : Nat} (hστ : σ.Relabels κ.labels τ)
    (hroom : κ.Room limit limit' limit limit') :
    κ.Runs (.within σ limit) (.within τ limit') :=
  runs_ofCall hστ (calls_callWithin hστ hroom)

/-! ### Runs with the same labels -/

theorem Calls.of_eq {call call' : CallUser} (hκ : κ.labels = .none)
    (h : ∀ params body env args, κ.Matches id (call params body env args)
      (call' params body env args)) : κ.Calls call call' := by
  intro params body env args
  have hmove : body.move Relabelling.none.place = body := Expr.move_id body
  rw [hκ, hmove, Env.relabel_none, Value.relabel_none_eq_id, List.map_id]
  exact h params body env args

namespace Runs

theorem apply_eq (hm : κ.Runs m m') (hκ : κ.labels = .none) (c : Closure) (args : List Value)
    (span : Span) : κ.Matches id (m.apply c args span) (m'.apply c args span) := by
  have happly := hm.apply c args span
  rw [hκ, Closure.relabel_none, Value.relabel_none_eq_id, List.map_id] at happly
  exact happly

theorem enforce_eq (hm : κ.Runs m m') (hκ : κ.labels = .none) (k : Contract) (v : Value)
    (pos neg : String) (span : Span) :
    κ.Matches id (m.enforce k v pos neg span) (m'.enforce k v pos neg span) := by
  have henforce := hm.enforce k v pos neg span
  rw [hκ, Contract.relabel_none, Value.relabel_none_eq_id] at henforce
  exact henforce

theorem eval_eq (hm : κ.Runs m m') (hκ : κ.labels = .none) (e : Expr) (env : Env) :
    κ.Matches id (e.evalWith m env) (e.evalWith m' env) := by
  have heval := matches_evalWith hm e env
  have hmove : e.move Relabelling.none.place = e := Expr.move_id e
  rw [hκ, hmove, Env.relabel_none, Value.relabel_none_eq_id] at heval
  exact heval

theorem resolve_eq (hm : κ.Runs m m') (hκ : κ.labels = .none) (k : ContractExpr) (env : Env) :
    κ.Matches id (k.resolveWith m env) (k.resolveWith m' env) := by
  have hresolve : κ.Matches (Contract.relabel κ.labels) (k.resolveWith m env)
      ((k.move κ.labels.place).resolveWith m' (env.relabel κ.labels)) :=
    matches_resolveWith fun p _ => matches_evalWith hm p env
  have hmove : k.move Relabelling.none.place = k := ContractExpr.move_id k
  rw [hκ, hmove, Env.relabel_none, Contract.relabel_none_eq_id] at hresolve
  exact hresolve

end Runs

end Coupling

end ContractML
