import ContractML.Proofs.Invariant
import ContractML.Proofs.Parsed
import ContractML.Proofs.Statements
import ContractML.Proofs.Wrapping

/-!
# Contracts are transparent

As long as no check fails, a program cannot tell whether contracts are checked, unless it compares
closures by identity. The argument is a simulation. On the side that checks contracts the trees have
annotations and the closures have wrappers; on the other side they have none. Wherever the first
side gives a value, the second one gives the value without wrappers.

The steps that only the first side takes are evaluating a contract and checking it. They give back
the value they were given, or a wrapper around it, and close every call that they open, so the two
sides always have the same number of open calls and meet the limit on calls together.

## Main definitions

* `CallsSimulate` — two ways of calling of which one simulates the other.
* `StatementResult.Agrees` — results that are the same up to wrappers, annotations and identities.
* `Session.Mirrors` — a session that checks contracts, and one that does not.

## Main results

* `Contract.spec_enforceWith_wraps` — a check changes a value by wrappers alone.
* `Closure.Wraps.simulates_applyWith` — applying a closure with and without wrappers.
* `Expr.simulates_evalWith` — evaluating a tree with and without annotations.
* `Session.Mirrors.execute` — one statement in both sessions.
* `Session.contracts_transparent` — **a program whose checks all pass runs the same without them**.
-/

namespace ContractML

open Eval (Spec Simulates)

/-! ### The steps of one side -/

section Checks

variable {store : Store} {call : CallUser}

/-- A check gives back the value, or a wrapper around it. -/
theorem Contract.spec_enforceWith_wraps (hcall : (Invariant.trivial store).Calls call)
    (k : Contract) {v w : Value} (h : v.Wraps w) (pos neg : String) (span : Span) :
    Spec (k.enforceWith call v pos neg span) (fun r => r.Wraps w) fun _ => True := by
  cases k with
  | base p label =>
    rw [Contract.enforceWith]
    have hp := (Invariant.trivial store).spec_applyWith hcall p [v] span True.intro
      fun _ _ => True.intro
    refine Spec.bind hp fun answer _ => ?_
    split
    · exact Spec.pure h
    · exact Spec.throw True.intro
    · exact Spec.throw True.intro
  | function domain range label =>
    rw [Contract.enforceWith.eq_def]
    cases h with
    | primitive hv =>
      cases v with
      | closure c => cases hv
      | _ => exact Spec.pure (.primitive hv)
    | closure hc =>
      exact Contract.spec_wrap (fun id harity => .closure (.monitored harity hc)) True.intro

/-- Checking as many values as there are contracts changes them by wrappers alone. -/
theorem Contract.spec_enforceAllWith_wraps (hcall : (Invariant.trivial store).Calls call)
    (ks : List Contract) {vs ws : List Value} (hlength : vs.length = ks.length)
    (h : List.Forall₂ Value.Wraps vs ws) (pos neg : String) (span : Span) :
    Spec (Contract.enforceAllWith call ks vs pos neg span)
      (fun rs => List.Forall₂ Value.Wraps rs ws) fun _ => True := by
  induction ks generalizing vs ws with
  | nil =>
    rw [List.length_nil, List.length_eq_zero_iff] at hlength
    subst hlength
    cases h
    exact Spec.pure .nil
  | cons k ks ih =>
    cases h with
    | nil => simp at hlength
    | cons hv hvs =>
      rw [List.length_cons, List.length_cons, Nat.add_right_cancel_iff] at hlength
      rw [Contract.enforceAllWith]
      refine Spec.bind (Contract.spec_enforceWith_wraps hcall k hv pos neg span) fun r hr => ?_
      refine Spec.bind (ih hlength hvs) fun rs hrs => ?_
      exact Spec.pure (.cons hr hrs)

end Checks

/-! ### Applying closures -/

theorem Eval.simulates_checkArity (expected found : Nat) (span : Span) :
    Simulates (fun _ _ => True) (Eval.checkArity expected found span)
      (Eval.checkArity expected found span) := by
  unfold Eval.checkArity
  split
  · exact Simulates.pure True.intro
  · exact Simulates.throw

/-- Types do not show wrappers. -/
theorem Eval.simulates_checkTypes (types : List Ty) {vs ws : List Value}
    (h : List.Forall₂ Value.Wraps vs ws) (span : Span) :
    Simulates (fun _ _ => True) (Eval.checkTypes types vs span)
      (Eval.checkTypes types ws span) := by
  induction types generalizing vs ws with
  | nil => exact Simulates.pure True.intro
  | cons t types ih =>
    cases h with
    | nil => exact Simulates.pure True.intro
    | cons hv hvs =>
      rw [Eval.checkTypes, Eval.checkTypes, hv.type_eq]
      split
      · exact ih hvs
      · exact Simulates.throw

/-- Related arguments have the same primitive values among them. -/
theorem Primitive.agree_of_wraps {vs ws : List Value} (h : List.Forall₂ Value.Wraps vs ws) :
    Primitive.Agree vs ws := by
  intro i v hi hv
  induction h generalizing i with
  | nil => simp at hi
  | cons hvw _ ih =>
    cases i with
    | zero =>
      rw [List.getElem?_cons_zero, Option.some.injEq] at hi
      subst hi
      rw [List.getElem?_cons_zero, hvw.eq_of_isClosure hv]
    | succ i =>
      rw [List.getElem?_cons_succ] at hi ⊢
      exact ih i hi

theorem Primitive.simulates_run (p : Primitive) {vs ws : List Value}
    (h : List.Forall₂ Value.Wraps vs ws) :
    Simulates Value.Wraps (Eval.ofExcept (p.run vs)) (Eval.ofExcept (p.run ws)) := by
  refine Simulates.ofExcept fun v hv => ⟨v, ?_, ?_⟩
  · exact p.reads_run.agree vs ws v (Primitive.agree_of_wraps h) hv
  · exact .primitive (p.reads_run.value vs v hv)

/-- Whenever a call of a function with annotations gives a value, the call of the function without
annotations gives that value without wrappers. -/
def CallsSimulate (call call' : CallUser) : Prop :=
  ∀ params (body : Expr) (env env' : Env) (args args' : List Value), body.erase.IdentityFree →
    env.Wraps env' → List.Forall₂ Value.Wraps args args' →
      Simulates Value.Wraps (call params body env args) (call' params body.erase env' args')

/-- Applying a closure with wrappers is simulated by applying it without them. -/
theorem Closure.Wraps.simulates_applyWith {store : Store} {call call' : CallUser}
    (hkeeps : (Invariant.trivial store).Calls call) (hcall : CallsSimulate call call')
    {c d : Closure} (h : c.Wraps d) {args args' : List Value}
    (hargs : List.Forall₂ Value.Wraps args args') (span : Span) :
    Simulates Value.Wraps (c.applyWith call args span) (d.applyWith call' args' span) := by
  -- The induction takes off one wrapper at a time; each adds checks on the first side alone.
  induction c using Closure.arity.induct generalizing args with
  | case1 id name type body =>
    cases h
    rw [Closure.applyWith, Closure.applyWith, hargs.length_eq]
    refine Simulates.bind (Eval.simulates_checkArity _ _ _) fun _ _ _ => ?_
    refine Simulates.bind (Eval.simulates_checkTypes _ hargs span) fun _ _ _ => ?_
    exact Simulates.locate (body.simulates_run hargs)
  | case2 id params body env =>
    cases h with
    | user hbody henv =>
      rw [Closure.applyWith, Closure.applyWith, hargs.length_eq]
      refine Simulates.bind (Eval.simulates_checkArity _ _ _) fun _ _ _ => ?_
      exact Simulates.locate (hcall params body _ _ args args' hbody henv hargs)
  | case3 id inner domain range pos neg ih =>
    cases h with
    | monitored harity hinner =>
      rw [Closure.applyWith]
      refine Simulates.skip (Eval.spec_checkArity inner.arity args.length span)
        fun _ (hlength : args.length = inner.arity) => ?_
      -- There is a contract for each argument, so no argument is dropped.
      have hdomain : args.length = domain.length := hlength.trans harity
      refine Simulates.skip
        (Contract.spec_enforceAllWith_wraps hkeeps domain hdomain hargs neg pos span)
        fun checked hchecked => ?_
      exact Simulates.then_skip (ih hinner hchecked) fun v w hvw =>
        Contract.spec_enforceWith_wraps hkeeps range hvw pos neg span

/-! ### Evaluating -/

theorem Eval.simulates_expectBool {v w : Value} (h : v.Wraps w) (span : Span) :
    Simulates Eq (Eval.expectBool v span) (Eval.expectBool w span) := by
  cases h with
  | closure _ => exact Simulates.throw
  | primitive hv =>
    cases v with
    | bool b => exact Simulates.pure rfl
    | _ => exact Simulates.throw

theorem UnaryOp.simulates_eval (op : UnaryOp) {v w : Value} (h : v.Wraps w) (span : Span) :
    Simulates Value.Wraps (Eval.ofExcept (op.eval v span)) (Eval.ofExcept (op.eval w span)) := by
  refine Simulates.ofExcept fun r hr => ⟨r, ?_, ?_⟩
  · rw [h.eq_of_isClosure (UnaryOp.operand_of_eval_eq_ok hr), hr]
  · have hvalue := op.elementary_eval v span
    rw [hr] at hvalue
    exact .primitive hvalue

theorem BinaryOp.simulates_eval {op : BinaryOp} (hop : op.isIdentity = false) {v v' w w' : Value}
    (hv : v.Wraps v') (hw : w.Wraps w') (span : Span) :
    Simulates Value.Wraps (Eval.ofExcept (op.eval v w span))
      (Eval.ofExcept (op.eval v' w' span)) := by
  refine Simulates.ofExcept fun r hr => ⟨r, ?_, ?_⟩
  · -- Closures are operands of comparisons by identity alone.
    obtain ⟨hvc, hwc⟩ := BinaryOp.operands_of_eval_eq_ok hop hr
    rw [hv.eq_of_isClosure hvc, hw.eq_of_isClosure hwc, hr]
  · have hvalue := op.elementary_eval v w span
    rw [hr] at hvalue
    exact .primitive hvalue

theorem BinaryOp.isIdentity_of_isIdentityTest {op : BinaryOp} {l r : Expr} {s : Span}
    (h : (Expr.binary op l r s).isIdentityTest = false) : op.isIdentity = false := by
  cases op with
  | same | differs => cases h
  | _ => rfl

/-- Expressions are evaluated one by one on both sides. -/
theorem Expr.simulates_evalAllWith {m m' : Machine} {env env' : Env} {es : List Expr}
    (h : ∀ e ∈ es, Simulates Value.Wraps (e.evalWith m env) (e.erase.evalWith m' env')) :
    Simulates (List.Forall₂ Value.Wraps) (Expr.evalAllWith m es env)
      (Expr.evalAllWith m' (Expr.eraseAll es) env') := by
  induction es with
  | nil => exact Simulates.pure .nil
  | cons e es ih =>
    rw [List.forall_mem_cons] at h
    rw [Expr.eraseAll, Expr.evalAllWith, Expr.evalAllWith]
    refine Simulates.bind h.1 fun v w hvw => Simulates.bind (ih h.2) fun vs ws hvs => ?_
    exact Simulates.pure (.cons hvw hvs)

theorem rel_getLast? {vs ws : List Value} (h : List.Forall₂ Value.Wraps vs ws) :
    Option.Rel Value.Wraps vs.getLast? ws.getLast? := by
  induction h with
  | nil => exact .none
  | cons hvw hvs ih =>
    cases hvs with
    | nil => exact .some hvw
    | cons _ _ => exact ih

/-- **Evaluating a tree with annotations is simulated by evaluating it without them.** -/
theorem Expr.simulates_evalWith {σ τ : Store} (hστ : σ.Wraps τ) {call call' : CallUser}
    (hkeeps : (Invariant.trivial σ).Calls call) (hcall : CallsSimulate call call') {e : Expr}
    (he : e.erase.IdentityFree) {env env' : Env} (henv : env.Wraps env') :
    Simulates Value.Wraps (e.evalWith (.ofCall σ call) env)
      (e.erase.evalWith (.ofCall τ call') env') := by
  unfold Expr.IdentityFree at he
  induction e generalizing env env' with
  | lit l s => exact Simulates.pure (.primitive l.isClosure_toValue)
  | var x =>
    rw [Expr.erase, Expr.evalWith, Expr.evalWith]
    have hx : Option.Rel Value.Wraps (env.get? (Machine.ofCall σ call).store x.text)
        (env'.get? (Machine.ofCall τ call').store x.text) := henv.get? hστ x.text
    generalize env.get? (Machine.ofCall σ call).store x.text = v?,
      env'.get? (Machine.ofCall τ call').store x.text = w? at hx ⊢
    cases hx with
    | none => exact Simulates.throw
    | some hvw => exact Simulates.pure hvw
  | unary op e s ih =>
    rw [Expr.erase, Expr.all_unary] at he
    rw [Expr.erase, Expr.evalWith, Expr.evalWith]
    exact Simulates.bind (ih he.2 henv) fun v w hvw => op.simulates_eval hvw s
  | binary op l r s ihl ihr =>
    rw [Expr.erase, Expr.all_binary] at he
    rw [Expr.erase, Expr.evalWith, Expr.evalWith]
    refine Simulates.bind (ihl he.2.1 henv) fun v v' hv => ?_
    refine Simulates.bind (ihr he.2.2 henv) fun w w' hw => ?_
    exact BinaryOp.simulates_eval (BinaryOp.isIdentity_of_isIdentityTest he.1) hv hw s
  | logical op l r s ihl ihr =>
    rw [Expr.erase, Expr.all_logical] at he
    rw [Expr.erase, Expr.evalWith, Expr.evalWith, Expr.span_erase, Expr.span_erase]
    refine Simulates.bind (ihl he.2.1 henv) fun v w hvw => ?_
    refine Simulates.bind (Eval.simulates_expectBool hvw l.span) ?_
    rintro b _ rfl
    split
    · exact Simulates.pure (.primitive rfl)
    · exact Simulates.pure (.primitive rfl)
    · refine Simulates.bind (ihr he.2.2 henv) fun v' w' hvw' => ?_
      refine Simulates.bind (Eval.simulates_expectBool hvw' r.span) ?_
      rintro b' _ rfl
      exact Simulates.pure (.primitive rfl)
  | cond c t e s ihc iht ihe =>
    rw [Expr.erase, Expr.all_cond] at he
    rw [Expr.erase, Expr.evalWith, Expr.evalWith, Expr.span_erase]
    refine Simulates.bind (ihc he.2.1 henv) fun v w hvw => ?_
    refine Simulates.bind (Eval.simulates_expectBool hvw c.span) ?_
    rintro b _ rfl
    split
    · exact iht he.2.2.1 henv
    · exact ihe he.2.2.2 henv
  | lambda ps b s _ =>
    rw [Expr.erase, Expr.all_lambda] at he
    rw [Expr.erase, Expr.evalWith, Expr.evalWith]
    -- The two sides have given out different numbers of identities.
    refine Simulates.bind Simulates.fresh fun id id' _ => ?_
    exact Simulates.pure (.closure (.user he.2 henv))
  | call f args s ihf ihargs =>
    rw [Expr.erase, Expr.all_call, Expr.forall_mem_eraseAll] at he
    rw [Expr.erase, Expr.evalWith, Expr.evalWith, Expr.span_erase]
    refine Simulates.bind (ihf he.2.1 henv) fun callee callee' hcallee => ?_
    have hargs := Expr.simulates_evalAllWith fun a ha => ihargs a ha (he.2.2 a ha) henv
    refine Simulates.bind hargs fun vs ws hvs => ?_
    cases hcallee with
    | closure hc => exact hc.simulates_applyWith hkeeps hcall hvs s
    | primitive hv =>
      -- What is no closure cannot be called on either side.
      cases callee with
      | closure c => cases hv
      | _ => exact Simulates.throw
  | letIn x v b s ihv ihb =>
    rw [Expr.erase, Expr.all_letIn] at he
    rw [Expr.erase, Expr.evalWith, Expr.evalWith]
    refine Simulates.bind (ihv he.2.1 henv) fun v w hvw => ?_
    exact ihb he.2.2 (.bind hvw henv)
  | seq es s ih =>
    rw [Expr.erase, Expr.all_seq, Expr.forall_mem_eraseAll] at he
    rw [Expr.erase, Expr.evalWith, Expr.evalWith]
    have hes := Expr.simulates_evalAllWith fun e hmem => ih e hmem (he.2 e hmem) henv
    refine Simulates.bind hes fun vs ws hvs => ?_
    have hlast := rel_getLast? hvs
    generalize vs.getLast? = v?, ws.getLast? = w? at hlast ⊢
    cases hlast with
    | none => exact Simulates.throw
    | some hvw => exact Simulates.pure hvw
  | monitored e k pos neg ih _ =>
    rw [Expr.erase] at he ⊢
    rw [Expr.evalWith]
    -- The contract is evaluated and checked on the first side alone.
    have hresolve : Spec (k.resolveWith (.ofCall σ call) env.root) (fun _ => True) fun _ => True :=
      ((Invariant.trivial σ).spec_resolveWith fun p _ =>
        (Invariant.trivial σ).spec_evalWith hkeeps (fun _ _ => True.intro) True.intro).mono
          (fun _ _ => True.intro) fun _ h => h
    exact Simulates.then_skip (ih he henv) fun v w hvw => Spec.bind hresolve fun c _ =>
      Contract.spec_enforceWith_wraps hkeeps c hvw pos _ _

/-- Calls at one level are simulated by calls at the same level. -/
theorem callsSimulate_callUser {σ τ : Store} (hστ : σ.Wraps τ) (level : Nat) :
    CallsSimulate (callUser σ level) (callUser τ level) := by
  induction level with
  | zero => exact fun _ _ _ _ _ _ _ _ _ => Simulates.throw
  | succ level ih =>
    intro params body env env' args args' hbody henv hargs
    have hkeeps := (Invariant.trivial σ).calls_callUser level
    rw [callUser, callUser]
    refine Simulates.deeper ?_
    exact Expr.simulates_evalWith hστ hkeeps ih hbody (henv.bindAll params hargs)

theorem Expr.simulates_eval {σ τ : Store} (hστ : σ.Wraps τ) {e : Expr} (he : e.erase.IdentityFree)
    {env env' : Env} (henv : env.Wraps env') :
    Simulates Value.Wraps (e.eval σ env) (e.erase.eval τ env') :=
  Expr.simulates_evalWith hστ ((Invariant.trivial σ).calls_callUser maxCallDepth)
    (callsSimulate_callUser hστ maxCallDepth) he henv

/-! ### Sessions -/

/-- Results of one kind, with the same names and written forms and with values that agree. -/
def StatementResult.Agrees : StatementResult → StatementResult → Prop
  | .bound x v, .bound y w => x = y ∧ v.Agrees w
  | .evaluated v, .evaluated w => v.Agrees w
  | .contract x c, .contract y d => x = y ∧ c = d
  | _, _ => False

theorem StatementResult.Agrees.failure?_eq_none {r r' : StatementResult} (h : r.Agrees r') :
    r'.failure? = none := by
  cases r' with
  | failed f => cases r <;> cases h
  | _ => rfl

namespace Session

/-- The first session checks contracts and the second one does not. They bind the same names to
related values, and have the same number of open calls. -/
structure Mirrors (s t : Session) : Prop where
  on : s.contracts = true
  off : t.contracts = false
  store : s.workspace.store.Wraps t.workspace.store
  depth_eq : s.workspace.counters.depth = t.workspace.counters.depth

variable {s t : Session}

theorem mirrors_start : Mirrors (start true) (start false) where
  on := rfl
  off := rfl
  store := Workspace.wraps_install
  depth_eq := rfl

/-- What a tree with annotations gives in the first session, the tree without them gives in the
second one. -/
theorem Mirrors.eval (h : Mirrors s t) {m e : Expr} (hm : m.erase = e) (he : e.IdentityFree)
    {v : Value} {c : Counters}
    (hv : m.eval s.workspace.store globalEnv s.workspace.counters = .ok v c) :
    ∃ w d, e.eval t.workspace.store globalEnv t.workspace.counters = .ok w d ∧
      c.depth = d.depth ∧ v.Wraps w := by
  subst hm
  exact Expr.simulates_eval h.store he .frames h.depth_eq hv

theorem Mirrors.annotate_eq (h : Mirrors s t) (e : Expr) : t.annotate e = e := by
  rw [annotate, h.off]
  rfl

theorem Mirrors.annotateBinding_eq (h : Mirrors s t) (name : String) (e : Expr) :
    t.annotateBinding name e = e := by
  rw [annotateBinding, h.off]
  rfl

/-- **One statement**: if it succeeds in the first session, it succeeds in the second one with a
result that agrees. -/
theorem Mirrors.execute (h : Mirrors s t) {stmt : Stmt} (hplain : stmt.Plain)
    (hfree : stmt.IdentityFree) {r : StatementResult} (hr : (s.execute stmt).1 = .ok r) :
    ∃ r', (t.execute stmt).1 = .ok r' ∧ r.Agrees r' ∧
      Mirrors (s.execute stmt).2 (t.execute stmt).2 := by
  cases stmt with
  | expr e span =>
    rw [execute_expr] at hr ⊢
    rw [execute_expr, h.annotate_eq]
    cases hv : (s.annotate e).eval s.workspace.store globalEnv s.workspace.counters with
    | error f c =>
      rw [hv] at hr
      cases hr
    | ok v c =>
      rw [hv] at hr
      cases hr
      obtain ⟨w, d, hw, hdepth, hvw⟩ := h.eval (s.erase_annotate hplain) hfree hv
      rw [hw]
      exact ⟨_, rfl, hvw.agrees, h.on, h.off, h.store, hdepth⟩
  | define x e span =>
    rw [execute_define] at hr ⊢
    rw [execute_define, h.annotateBinding_eq]
    cases hv : (s.annotateBinding x.text e).eval s.workspace.store globalEnv
        s.workspace.counters with
    | error f c =>
      rw [hv] at hr
      cases hr
    | ok v c =>
      rw [hv] at hr
      cases hr
      obtain ⟨w, d, hw, hdepth, hvw⟩ := h.eval (s.erase_annotateBinding x.text hplain) hfree hv
      rw [hw]
      have hstore := h.store.define Store.global x.text hvw
      exact ⟨_, rfl, ⟨rfl, hvw.agrees⟩, h.on, h.off, hstore, hdepth⟩
  | contract x k span =>
    -- Only the first session evaluates the predicates, and it closes the calls that it opens.
    have hresolve : Spec (k.resolve s.workspace.store globalEnv) _ _ :=
      (Invariant.trivial s.workspace.store).spec_resolve (fun _ _ => True.intro) True.intro
    rw [execute_contract h.on] at hr ⊢
    rw [execute_contract_off h.off]
    cases hv : k.resolve s.workspace.store globalEnv s.workspace.counters with
    | error f c =>
      rw [hv] at hr
      cases hr
    | ok resolved c =>
      rw [hv] at hr
      cases hr
      have hdepth := (hresolve.of_ok hv).2
      exact ⟨_, rfl, ⟨rfl, rfl⟩, h.on, h.off, h.store, hdepth.trans h.depth_eq⟩

/-- **Any number of statements**: if all succeed in the first session, they succeed in the second
one with results that agree. -/
theorem Mirrors.executeAll (h : Mirrors s t) {stmts : List Stmt}
    (hplain : ∀ stmt ∈ stmts, stmt.Plain) (hfree : ∀ stmt ∈ stmts, stmt.IdentityFree)
    (hok : StatementResult.failures (s.executeAll stmts).1 = []) :
    StatementResult.failures (t.executeAll stmts).1 = [] ∧
      List.Forall₂ StatementResult.Agrees (s.executeAll stmts).1 (t.executeAll stmts).1 ∧
      Mirrors (s.executeAll stmts).2 (t.executeAll stmts).2 := by
  induction stmts generalizing s t with
  | nil => exact ⟨rfl, .nil, h⟩
  | cons stmt stmts ih =>
    rw [List.forall_mem_cons] at hplain hfree
    rw [Session.executeAll] at hok ⊢
    rw [Session.executeAll]
    rw [StatementResult.failures_cons_eq_nil_iff] at hok ⊢
    cases hr : (s.execute stmt).1 with
    | error f =>
      rw [hr] at hok
      cases hok.1
    | ok r =>
      obtain ⟨r', hr', hagrees, hnext⟩ := h.execute hplain.1 hfree.1 hr
      obtain ⟨hoff, hresults, hlast⟩ := ih hnext hplain.2 hfree.2 hok.2
      rw [hr']
      exact ⟨⟨hagrees.failure?_eq_none, hoff⟩, .cons hagrees hresults, hlast⟩

/-- **Contracts are transparent.** Let a parsed program compare nothing by identity, and let no
statement of it fail when contracts are checked. Then no statement fails when they are not checked,
the results agree one by one, and so do the global bindings that the program leaves. -/
theorem contracts_transparent {p : Program} (hp : p.Parsed) (hfree : p.IdentityFree)
    (hok : ((start true).runProgram p).failures = []) :
    ((start false).runProgram p).failures = [] ∧
      List.Forall₂ StatementResult.Agrees ((start true).runProgram p).results
        ((start false).runProgram p).results ∧
      ∀ name, Option.Rel Value.Agrees (((start true).runProgram p).get? name)
        (((start false).runProgram p).get? name) := by
  rw [runProgram_eq] at hok
  obtain ⟨hoff, hresults, hlast⟩ := mirrors_start.executeAll hp.plain hfree hok
  rw [runProgram_eq, runProgram_eq]
  refine ⟨hoff, hresults, fun name => ?_⟩
  exact rel_imp (hlast.store.getIn? (Store.global.frame :: Store.global.outer) name)
    fun _ _ => Value.Wraps.agrees

/-- The call of `keep` gives back its argument in a wrapper. Without contracts it gives back the
argument itself. -/
theorem contracts_transparent_higher_order :
    let p := (Program.recover
      "contract keep = (any -> any) -> any;; let keep f = f;; keep (fun x -> x);;").program
    p.Parsed ∧ p.IdentityFree ∧ ((start true).runProgram p).failures = [] ∧
      ((start false).runProgram p).failures = [] ∧
      List.Forall₂ StatementResult.Agrees ((start true).runProgram p).results
        ((start false).runProgram p).results := by
  intro p
  have hp : p.Parsed := Program.parsed_recover _
  have hfree : p.IdentityFree := by decide +kernel
  have hnone : ((start true).runProgram p).failures.isEmpty = true := by decide +kernel
  have hok : ((start true).runProgram p).failures = [] := List.isEmpty_iff.mp hnone
  obtain ⟨hoff, hresults, -⟩ := contracts_transparent hp hfree hok
  exact ⟨hp, hfree, hok, hoff, hresults⟩

end Session

end ContractML
