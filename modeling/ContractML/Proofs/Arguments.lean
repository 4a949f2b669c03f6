import ContractML.Proofs.Closures
import ContractML.Proofs.Reachable

/-!
# No argument is lost

Arguments meet parameters, and arguments meet the contracts of a domain, one by one, and what is
left over on either side is dropped without a word. A wrapper with too few contracts would lose
arguments, one with too many would skip checks, and a predicate of two arguments would fail in place
of the value that it checks.

None of this happens. Every closure that a session leads to is intact: wrappers have a contract for
each argument of what they wrap, predicates take one argument, primitive functions have the number
of parameters under which they were offered, and environments end in the global frame. Whatever
makes a closure keeps this.

What follows for evaluations is said by a strict evaluator. It does an arbitrary evaluation more
whenever something would be dropped, and whenever what a wrapper wraps or a predicate would be
applied to the wrong number of arguments. It is the same as the evaluator, so it never comes to
that.

## Main definitions

* `Closure.Intact` — a closure that loses no argument.
* `Closure.applyStrict`, `callStrict`, `Machine.strict` — the strict evaluator.

## Main results

* `Invariant.intact` — the evaluator makes only intact closures.
* `Closure.agree_applyStrict`, `Machine.runs_strict` — on intact closures it is strict.
* `Closure.applyWith_of_length_ne` — every closure rejects the wrong number of arguments.
* `Session.Reachable.no_argument_lost` — **no session ever loses an argument**.
-/

namespace ContractML

open Eval (Spec Agree)

/-! ### Intact closures -/

/-- A contract whose predicates take one argument. -/
def Contract.Unary (k : Contract) : Prop := ∀ p ∈ k.predicates, p.arity = 1

/-- A closure that loses no argument: a primitive function stems from an offer that was accepted,
with as many parameters as its type has, and at least one; a function of the language has an
environment that ends in the global frame; and a wrapper has one contract for each argument of what
it wraps, all made of predicates of one argument. -/
def Closure.Intact : Closure → Prop
  | .native _ name type body => ∃ arity, (Builtin.mk name arity type body).check = .ok () ∧
      type.arity? = some arity ∧ 0 < arity
  | .user _ _ _ env => env.root = Session.globalEnv
  | .monitored _ inner domain range _ _ =>
    domain.length = inner.arity ∧ (∀ k ∈ domain, k.Unary) ∧ range.Unary

theorem Contract.unary_function {domain : List Contract} {range : Contract} {label : String} :
    (Contract.function domain range label).Unary ↔ (∀ k ∈ domain, k.Unary) ∧ range.Unary := by
  simp only [Contract.Unary, Contract.predicates, List.forall_mem_append,
    Contract.mem_predicatesAll]
  refine and_congr_left' ⟨fun h k hk p hp => h p ⟨k, hk, hp⟩, ?_⟩
  rintro h p ⟨k, hk, hp⟩
  exact h k hk p hp

/-- An offer that is accepted has a function type with as many parameters as it says, and at least
one. -/
theorem Builtin.arity_of_check {b : Builtin} (h : b.check = .ok ()) :
    b.type.arity? = some b.arity ∧ 0 < b.arity := by
  obtain ⟨harity, hne⟩ := b.check_eq_ok_iff.mp h
  refine ⟨?_, Nat.pos_of_ne_zero hne⟩
  cases htype : b.type.arity? with
  | none =>
    rw [htype] at harity
    exact absurd harity.symm hne
  | some n =>
    rw [htype] at harity
    exact congrArg some harity

theorem Builtin.intact_of_check {b : Builtin} (h : b.check = .ok ()) (id : Nat) :
    (Closure.native id b.name b.type b.body).Intact :=
  ⟨b.arity, h, b.arity_of_check h⟩

/-- The functions that the embedding program brings along make only intact closures: what they give
for intact arguments is intact. -/
def Host.Intact [Host] : Prop :=
  ∀ code args v, (∀ a ∈ args, a.All Closure.Intact) → Host.run code args = .ok v →
    v.All Closure.Intact

variable [Host]

/-- **Evaluations over a store of intact closures make only intact closures**, if the functions of
the embedding program do. -/
def Invariant.intact (hhost : Host.Intact) {store : Store}
    (hstore : store.Each (Value.All Closure.Intact)) : Invariant store where
  node _ := True
  value := Value.All Closure.Intact
  env e := e.root = Session.globalEnv ∧ e.All Closure.Intact
  contract k _ _ := k.All Closure.Intact ∧ k.Unary
  fault _ := True
  primitive _ h := Value.all_of_isClosure h
  user id params body e := by
    rw [Value.all_closure, Closure.all_user]
    exact ⟨fun h => ⟨fun _ _ => True.intro, h⟩, fun h => h.2⟩
  wrap id c domain range label pos neg hk hc harity := by
    rw [Contract.all_function, Contract.unary_function] at hk
    rw [Value.all_closure] at hc ⊢
    exact Closure.all_monitored.mpr ⟨⟨harity.symm, hk.2⟩, hc, hk.1⟩
  unwrap id c domain range pos neg h := by
    rw [Value.all_closure, Closure.all_monitored] at h
    obtain ⟨⟨-, hdomain, hrange⟩, hinner, hdomainAll, hrangeAll⟩ := h
    exact ⟨Value.all_closure.mpr hinner, fun d hd => ⟨hdomainAll d hd, hdomain d hd⟩,
      hrangeAll, hrange⟩
  predicate p label pos neg hk := Value.all_closure.mpr (Contract.all_base.mp hk.1)
  resolved e k pos neg c _ hc := ⟨Contract.all_of_denotes hc, Contract.arity_of_denotes hc⟩
  lookup e name v he hv := he.2.get? hstore hv
  bind name v e hv he := ⟨he.1, Env.all_bind.mpr ⟨hv, he.2⟩⟩
  root e he := by
    rw [he.1]
    exact ⟨rfl, Env.all_frames⟩
  rejected _ _ _ _ _ _ _ := True.intro
  other _ _ := True.intro
  host code args hargs := by
    cases hr : Host.run code args with
    | ok v => exact hhost code args v hargs hr
    | error f => exact True.intro
  locate _ _ _ := True.intro

/-- What is evaluated and called under this invariant. -/
abbrev Discipline.intact (hhost : Host.Intact) {store : Store}
    (hstore : store.Each (Value.All Closure.Intact)) : Discipline store :=
  (Invariant.intact hhost hstore).discipline

/-! ### The strict evaluator -/

/-- Does one more evaluation unless a condition is met. -/
def Eval.insist (lost : Eval Unit) (p : Prop) [Decidable p] : Eval Unit :=
  if p then pure () else lost

omit [Host] in
theorem Eval.insist_of {lost : Eval Unit} {p : Prop} [Decidable p] (h : p) :
    Eval.insist lost p = pure () :=
  if_pos h

mutual

/-- Applies a closure. Does `lost` where arguments and parameters, or arguments and contracts, are
not equally many, and where what is wrapped would be applied to the wrong number of arguments. -/
def Closure.applyStrict (lost : Eval Unit) (call : CallUser) :
    Closure → List Value → Span → Eval Value
  | .native _ _ type body, args, span => do
    Eval.checkArity (type.arity?.getD 0) args.length span
    Eval.insist lost (type.params.length = args.length)
    Eval.checkTypes type.params args span
    Eval.locate span (Eval.ofExcept (body.run args))
  | .user _ params body env, args, span => do
    Eval.checkArity params.length args.length span
    Eval.insist lost (params.length = args.length)
    Eval.locate span (call params body env args)
  | .monitored _ inner domain range pos neg, args, span => do
    Eval.checkArity inner.arity args.length span
    Eval.insist lost (domain.length = args.length)
    let args ← Contract.enforceAllStrict lost call domain args neg pos span
    Eval.insist lost (inner.arity = args.length)
    let result ← inner.applyStrict lost call args span
    range.enforceStrict lost call result pos neg span
termination_by structural c => c

/-- Checks a value against a contract. Does `lost` where a predicate would be applied to the wrong
number of arguments. -/
def Contract.enforceStrict (lost : Eval Unit) (call : CallUser) :
    Contract → Value → (pos neg : String) → Span → Eval Value
  | .base predicate label, v, pos, _, span => do
    Eval.insist lost (predicate.arity = 1)
    match ← predicate.applyStrict lost call [v] span with
    | .bool true => return v
    | .bool false => throw (Contract.violation label pos v span)
    | other => throw (.mismatch .bool other.type span)
  | .function domain range label, v, pos, neg, span =>
    match v with
    | .closure c => Contract.wrap domain range label c pos neg span
    | v => pure v
termination_by structural c => c

/-- Checks values against contracts, one by one. -/
def Contract.enforceAllStrict (lost : Eval Unit) (call : CallUser) :
    List Contract → List Value → (pos neg : String) → Span → Eval (List Value)
  | c :: cs, v :: vs, pos, neg, span => do
    let v ← c.enforceStrict lost call v pos neg span
    let vs ← Contract.enforceAllStrict lost call cs vs pos neg span
    return v :: vs
  | _, _, _, _, _ => pure []
termination_by structural c => c

end

/-- The strict machine that calls functions of the language by `call`. -/
def Machine.strictOf (store : Store) (lost : Eval Unit) (call : CallUser) : Machine where
  store := store
  apply := Closure.applyStrict lost call
  enforce := Contract.enforceStrict lost call

/-- Calls a function of the language. Does `lost` where it would be called with the wrong number of
arguments. -/
def callStrict (store : Store) (lost : Eval Unit) : (level : Nat) → CallUser
  | 0 => fun _ _ _ _ => throw ⟨.callDepthExceeded, none⟩
  | level + 1 => fun params body env args => do
    Eval.insist lost (params.length = args.length)
    Eval.deeper (body.evalWith (.strictOf store lost (callStrict store lost level))
      (env.bindAll params args))

/-- The strict machine over a store. -/
def Machine.strict (store : Store) (lost : Eval Unit) : Machine :=
  .strictOf store lost (callStrict store lost maxCallDepth)

-- A wrapper without contracts around a function of one argument would lose it, and `lost` is done.
example : (Machine.strict .init (throw ⟨.divisionByZero, none⟩)).apply
      (.monitored 1 (.user 0 ["x"] (.var ⟨"x", ⟨9, 10⟩⟩) Session.globalEnv) []
        (.function [] (.base default "p") "p") "f" "g")
      [.bool true] ⟨0, 12⟩ ⟨2, 0⟩ =
    .error ⟨.divisionByZero, none⟩ ⟨2, 0⟩ := rfl

section Strict

variable {store : Store} {lost : Eval Unit} (hhost : Host.Intact)
  (hstore : store.Each (Value.All Closure.Intact))

mutual

/-- Applying an intact closure to intact arguments is strict, if calling is. -/
theorem Closure.agree_applyStrict {call call' : CallUser}
    (hcall : (Discipline.intact hhost hstore).Calls call call') : ∀ (c : Closure)
    (args : List Value) (span : Span), c.All Closure.Intact →
      (∀ a ∈ args, a.All Closure.Intact) →
      Agree (c.applyWith call args span) (c.applyStrict lost call' args span)
        (Value.All Closure.Intact) fun _ => True
  | .native id name type body, args, span, hc, hargs => by
    obtain ⟨arity, -, harity, -⟩ := Closure.all_native.mp hc
    -- The type that was registered has as many parameters as the function takes.
    have hparams : type.params.length = arity := by
      cases type with
      | fn ps r => exact Option.some.inj harity
      | _ => cases harity
    rw [Closure.applyWith, Closure.applyStrict]
    have hcheck := (Discipline.intact hhost hstore).spec_checkArity
    refine Agree.bind (.refl (hcheck _ _ _)) fun _ hlength => ?_
    rw [harity, Option.getD_some] at hlength
    rw [Eval.insist_of (hparams.trans hlength.symm), pure_bind]
    have htypes := (Discipline.intact hhost hstore).spec_checkTypes
    refine .refl (Spec.bind (htypes _ _ _) fun _ _ => ?_)
    exact Spec.locate (fun _ _ => trivial)
      ((Discipline.intact hhost hstore).spec_run body hargs)
  | .user id params body env, args, span, hc, hargs => by
    rw [Closure.applyWith, Closure.applyStrict]
    have hcheck := (Discipline.intact hhost hstore).spec_checkArity
    refine Agree.bind (.refl (hcheck _ _ _)) fun _ hlength => ?_
    rw [Eval.insist_of hlength.symm, pure_bind]
    exact Agree.locate (fun _ _ => trivial)
      (hcall id params body env args (Value.all_closure.mpr hc) hargs hlength)
  | .monitored id inner domain range pos neg, args, span, hc, hargs => by
    obtain ⟨⟨hcount, hdomain, hrange⟩, hinner, hdomainAll, hrangeAll⟩ := Closure.all_monitored.mp hc
    rw [Closure.applyWith, Closure.applyStrict]
    have hcheck := (Discipline.intact hhost hstore).spec_checkArity
    refine Agree.bind (.refl (hcheck _ _ _)) fun _ hlength => ?_
    rw [Eval.insist_of (hcount.trans hlength.symm), pure_bind]
    refine Agree.bind (Contract.agree_enforceAllStrict hcall domain args neg pos span
      (fun k hk => ⟨hdomainAll k hk, hdomain k hk⟩) hargs (hcount.trans hlength.symm))
      fun args' hargs' => ?_
    -- Checking the arguments gives as many values, so what is wrapped gets what it takes.
    rw [Eval.insist_of (hlength.symm.trans hargs'.2.symm), pure_bind]
    refine Agree.bind (Closure.agree_applyStrict hcall inner args' span hinner hargs'.1)
      fun v hv => ?_
    exact Contract.agree_enforceStrict hcall range v pos neg span hrangeAll hrange hv
termination_by structural c => c

/-- Checking an intact value is strict, if calling is. -/
theorem Contract.agree_enforceStrict {call call' : CallUser}
    (hcall : (Discipline.intact hhost hstore).Calls call call') : ∀ (k : Contract) (v : Value)
    (pos neg : String) (span : Span), k.All Closure.Intact → k.Unary → v.All Closure.Intact →
      Agree (k.enforceWith call v pos neg span) (k.enforceStrict lost call' v pos neg span)
        (Value.All Closure.Intact) fun _ => True
  | .base p label, v, pos, neg, span, hk, hunary, hv => by
    -- A predicate takes one argument, which is what it is given.
    have harity : p.arity = 1 := hunary p (by simp [Contract.predicates])
    rw [Contract.enforceWith, Contract.enforceStrict, Eval.insist_of harity, pure_bind]
    refine Agree.bind (Closure.agree_applyStrict hcall p [v] span (Contract.all_base.mp hk)
      (by simpa using hv)) fun answer _ => .refl ?_
    split
    · exact Spec.pure hv
    · exact Spec.throw trivial
    · exact Spec.throw trivial
  | .function domain range label, v, pos, neg, span, hk, hunary, hv => by
    rw [Contract.enforceWith.eq_def, Contract.enforceStrict.eq_def]
    refine .refl ?_
    cases v with
    | closure c =>
      have hwrap := fun id => (Invariant.intact hhost hstore).wrap id c domain range label pos neg
        ⟨hk, hunary⟩ hv
      exact Contract.spec_wrap hwrap trivial
    | _ => exact Spec.pure hv
termination_by structural k => k

/-- Checking as many intact values as there are contracts is strict, and gives as many. -/
theorem Contract.agree_enforceAllStrict {call call' : CallUser}
    (hcall : (Discipline.intact hhost hstore).Calls call call') : ∀ (ks : List Contract)
    (vs : List Value) (pos neg : String) (span : Span),
      (∀ k ∈ ks, k.All Closure.Intact ∧ k.Unary) → (∀ v ∈ vs, v.All Closure.Intact) →
        ks.length = vs.length →
          Agree (Contract.enforceAllWith call ks vs pos neg span)
            (Contract.enforceAllStrict lost call' ks vs pos neg span)
            (fun ws => (∀ w ∈ ws, w.All Closure.Intact) ∧ ws.length = vs.length) fun _ => True
  | k :: ks, v :: vs, pos, neg, span, hks, hvs, hlength => by
    rw [List.forall_mem_cons] at hks hvs
    rw [Contract.enforceAllWith, Contract.enforceAllStrict]
    refine Agree.bind (Contract.agree_enforceStrict hcall k v pos neg span hks.1.1 hks.1.2 hvs.1)
      fun w hw => ?_
    refine Agree.bind (Contract.agree_enforceAllStrict hcall ks vs pos neg span hks.2 hvs.2
      (Nat.succ.inj hlength)) fun ws hws => ?_
    exact .refl (Spec.pure ⟨List.forall_mem_cons.mpr ⟨hw, hws.1⟩, congrArg Nat.succ hws.2⟩)
  | [], [], _, _, _, _, _, _ => .refl (Spec.pure (by simp))
termination_by structural ks => ks

end

theorem Machine.runs_strictOf {call call' : CallUser}
    (hcall : (Discipline.intact hhost hstore).Calls call call') :
    (Discipline.intact hhost hstore).Runs (.ofCall store call)
      (.strictOf store lost call') where
  store_eq := rfl
  store_eq' := rfl
  apply c args span hc hargs :=
    Closure.agree_applyStrict hhost hstore hcall c args span (Value.all_closure.mp hc) hargs
  enforce k v pos neg span hk hv :=
    Contract.agree_enforceStrict hhost hstore hcall k v pos neg span hk.1 hk.2 hv

/-- Calling is strict, at every level. -/
theorem calls_callStrict (level : Nat) :
    (Discipline.intact hhost hstore).Calls (callUser store level)
      (callStrict store lost level) := by
  induction level with
  | zero => exact fun _ _ _ _ _ _ _ _ => .refl (Spec.throw trivial)
  | succ level ih =>
    intro id params body env args hc hargs hlength
    rw [callUser, callStrict]
    simp only [Eval.insist_of hlength.symm, pure_bind]
    refine Agree.deeper trivial ?_
    exact (Discipline.intact hhost hstore).agree_evalWith (Machine.runs_strictOf hhost hstore ih)
      ((Discipline.intact hhost hstore).body id params body env args hc hargs hlength)

/-- **On intact closures the evaluator is strict.** -/
theorem Machine.runs_strict :
    (Discipline.intact hhost hstore).Runs (.over store) (.strict store lost) :=
  Machine.runs_strictOf hhost hstore (calls_callStrict hhost hstore maxCallDepth)

end Strict

/-! ### The wrong number of arguments -/

/-- Every closure, wrapped any number of times, rejects the wrong number of arguments before it does
anything else. -/
theorem Closure.applyWith_of_length_ne (call : CallUser) (c : Closure) {args : List Value}
    (h : args.length ≠ c.arity) (span : Span) (k : Counters) :
    c.applyWith call args span k = .error ⟨.arity c.arity args.length, some span⟩ k := by
  -- All three kinds of closures begin with the same check.
  have hcheck : Eval.checkArity c.arity args.length span k =
      .error ⟨.arity c.arity args.length, some span⟩ k := by
    rw [Eval.checkArity, if_neg h]
    rfl
  cases c with
  | native id name type body =>
    rw [Closure.applyWith]
    exact Eval.bind_of_error hcheck
  | user id params body env =>
    rw [Closure.applyWith]
    exact Eval.bind_of_error hcheck
  | monitored id inner domain range pos neg =>
    rw [Closure.applyWith]
    exact Eval.bind_of_error hcheck

/-- The number of arguments that a wrapper takes, and the number of its contracts for them. -/
def Value.wrapper? : Value → Option (Nat × Nat)
  | .closure (.monitored _ inner domain _ _ _) => some (inner.arity, domain.length)
  | _ => none

omit [Host] in
theorem Value.wrapper?_eq_some {v : Value} {m n : Nat} (h : v.wrapper? = some (m, n)) :
    ∃ id inner domain range pos neg, v = .closure (.monitored id inner domain range pos neg) ∧
      inner.arity = m ∧ domain.length = n := by
  unfold Value.wrapper? at h
  split at h
  · obtain ⟨rfl, rfl⟩ := Prod.mk.inj (Option.some.inj h)
    exact ⟨_, _, _, _, _, _, rfl, rfl, rfl⟩
  · cases h

/-! ### Sessions -/

omit [Host] in
/-- Registering a primitive function keeps everything intact. -/
theorem Workspace.intact_registered {w : Workspace}
    (h : w.store.Each (Value.All Closure.Intact)) (c : Chain) {b : Builtin}
    (hcheck : b.check = .ok ()) : (w.registered c b).store.Each (Value.All Closure.Intact) :=
  h.define c b.name (Value.all_closure.mpr (Closure.all_native.mpr (b.intact_of_check hcheck _)))

/-- An embedding program with two functions: one doubles an integer, and the other one gives back
its argument, which may be a closure. -/
@[reducible] def Host.doubling : Host where
  run code args :=
    match code, args with
    | 0, [.int n] => .ok (.int (n + n))
    | 1, [v] => .ok v
    | _, _ => .error (.mismatch .int .bool .nowhere)

omit [Host] in
/-- They give a primitive value or one of the arguments. -/
theorem Host.doubling_cases {code : Nat} {args : List Value} {v : Value}
    (h : Host.doubling.run code args = .ok v) : v.isClosure = false ∨ v ∈ args := by
  unfold Host.doubling at h
  dsimp only at h
  split at h
  · cases h
    exact .inl rfl
  · cases h
    exact .inr List.mem_cons_self
  · cases h

namespace Session

/-- Every closure that a session leads to is intact. -/
def Intact (s : Session) : Prop := s.Each (Value.All Closure.Intact)

variable {s s' : Session}

omit [Host] in
theorem intact_start (contracts : Bool) : (Session.start contracts).Intact where
  store := Workspace.install_of_register (P := fun w => w.store.Each (Value.All Closure.Intact))
    Store.each_init fun _ _ h hb => Workspace.intact_registered h Store.global hb
  results r hr := by cases hr

/-- One statement makes only intact closures. -/
theorem Intact.execute (hhost : Host.Intact) (h : s.Intact) (stmt : Stmt) :
    (s.execute stmt).2.Intact ∧
      (StatementResult.ofExcept (s.execute stmt).1).Each (Value.All Closure.Intact) := by
  have heval : ∀ e : Expr, Spec (e.eval s.workspace.store globalEnv) (Value.All Closure.Intact)
      fun _ => True := fun e =>
    (Invariant.intact hhost h.store).spec_eval (fun _ _ => trivial) ⟨rfl, Env.all_frames⟩
  have hfailed : ∀ f : Fault, (StatementResult.ofExcept (.error f)).Each
      (Value.All Closure.Intact) := by
    intro f p hp
    cases hp
  cases stmt with
  | expr e span =>
    rw [execute_expr]
    cases hv : (s.annotate e).eval s.workspace.store globalEnv s.workspace.counters with
    | ok v c =>
      refine ⟨⟨h.store, h.results⟩, ?_⟩
      rintro p ⟨⟩
      exact ((heval _).of_ok hv).1
    | error f c => exact ⟨⟨h.store, h.results⟩, hfailed f⟩
  | define x e span =>
    rw [execute_define]
    cases hv : (s.annotateBinding x.text e).eval s.workspace.store globalEnv
        s.workspace.counters with
    | ok v c =>
      have hintact := ((heval _).of_ok hv).1
      refine ⟨⟨h.store.define Store.global x.text hintact, h.results⟩, ?_⟩
      rintro p ⟨⟩
      exact hintact
    | error f c => exact ⟨⟨h.store, h.results⟩, hfailed f⟩
  | contract x k span =>
    have hdeclared : (StatementResult.ofExcept (.ok (.contract x.text k.render))).Each
        (Value.All Closure.Intact) := by
      intro p hp
      cases hp
    cases hon : s.contracts with
    | false =>
      rw [execute_contract_off hon]
      exact ⟨h, hdeclared⟩
    | true =>
      rw [execute_contract hon]
      cases hv : k.resolve s.workspace.store globalEnv s.workspace.counters with
      | ok c counters => exact ⟨⟨h.store, h.results⟩, hdeclared⟩
      | error f counters => exact ⟨⟨h.store, h.results⟩, hfailed f⟩

/-- Any number of statements make only intact closures. -/
theorem Intact.executeAll (hhost : Host.Intact) (h : s.Intact) (stmts : List Stmt) :
    (s.executeAll stmts).2.Intact ∧
      ∀ r ∈ (s.executeAll stmts).1, r.Each (Value.All Closure.Intact) := by
  induction stmts generalizing s with
  | nil => exact ⟨h, by simp [Session.executeAll]⟩
  | cons stmt stmts ih =>
    obtain ⟨hnext, hresult⟩ := h.execute hhost stmt
    obtain ⟨hlast, hresults⟩ := ih hnext
    exact ⟨hlast, List.forall_mem_cons.mpr ⟨hresult, hresults⟩⟩

theorem Intact.runReading (hhost : Host.Intact) (h : s.Intact) (r : Reading) :
    (s.runReading r).Intact := by
  obtain ⟨hlast, hresults⟩ := h.executeAll hhost r.program.body
  rw [runReading_eq]
  refine ⟨hlast.store, fun result hmem => ?_⟩
  rcases mem_interleave hmem with hmem | ⟨e, rfl⟩
  · exact hresults result hmem
  · intro p hp
    cases hp

omit [Host] in
theorem Intact.registerNative (h : s.Intact) (b : Builtin) : (s.registerNative b).2.Intact :=
  registerNative_of_registered h fun hcheck =>
    ⟨Workspace.intact_registered h.store Store.global hcheck, h.results⟩

/-- Every closure that a session leads to is intact, at all times. -/
theorem Reachable.intact (hhost : Host.Intact) (h : s.Reachable) : s.Intact := by
  induction h with
  | start contracts => exact intact_start contracts
  | run source _ ih => exact ih.runReading hhost _
  | runProgram p _ ih => exact ih.runReading hhost _
  | registerNative b _ ih => exact ih.registerNative b

omit [Host] in
/-- A primitive function that is accepted is bound with as many parameters as it says. -/
theorem Ready.get?_registerNative (hs : s.Ready) {b : Builtin}
    (h : s.registerNative b = (.ok (), s')) :
    (∃ id, s'.get? b.name = some (.closure (.native id b.name b.type b.body))) ∧
      b.type.arity? = some b.arity ∧ 0 < b.arity := by
  rw [registerNative_eq] at h
  cases hcheck : b.check with
  | error e =>
    rw [hcheck] at h
    cases h
  | ok _ =>
    rw [hcheck] at h
    cases h
    refine ⟨⟨s.workspace.counters.identity, ?_⟩, b.arity_of_check hcheck⟩
    have hframes := hs.frames
    simp [Session.get?, registered, Workspace.registered, Workspace.fresh, Workspace.define,
      Store.get?, Store.getIn?, Store.global, Store.frame_define, hframes]

/-- **No argument is ever lost.** Let the functions of the embedding program make only intact
closures. In every session that is reached, whatever trees were run in it, every closure that it
leads to is intact, and every primitive function that it accepts has a function type with as many
parameters as were declared, and at least one. So the strict evaluator, which does `lost` wherever
an argument, a parameter or a contract would be dropped, or what a wrapper wraps or a predicate
would be applied to the wrong number of arguments, is the evaluator: on expressions and contracts,
and on the closures of the session applied to intact arguments. And every closure whatever rejects a
number of arguments that is not the number it takes. -/
theorem Reachable.no_argument_lost (hhost : Host.Intact) (h : s.Reachable) :
    (∀ c, s.Holds c → c.Intact) ∧
      (∀ b s', s.registerNative b = (.ok (), s') →
        (∃ id, s'.get? b.name = some (.closure (.native id b.name b.type b.body))) ∧
          b.type.arity? = some b.arity ∧ 0 < b.arity) ∧
      (∀ lost (e : Expr), e.evalWith (.strict s.workspace.store lost) globalEnv =
        e.eval s.workspace.store globalEnv) ∧
      (∀ lost (k : ContractExpr), k.resolveWith (.strict s.workspace.store lost) globalEnv =
        k.resolve s.workspace.store globalEnv) ∧
      (∀ lost c args span, s.Holds c → (∀ a ∈ args, a.All Closure.Intact) →
        (Machine.strict s.workspace.store lost).apply c args span =
          c.apply s.workspace.store args span) ∧
      ∀ (c : Closure) args span k, args.length ≠ c.arity →
        c.apply s.workspace.store args span k =
          .error ⟨.arity c.arity args.length, some span⟩ k := by
  -- All that is held is intact, so the strict machine does not notice a difference.
  have hs := h.intact hhost
  have hglobal : (Invariant.intact hhost hs.store).env globalEnv := ⟨rfl, Env.all_frames⟩
  have heval : ∀ lost (e : Expr), Agree (e.eval s.workspace.store globalEnv)
      (e.evalWith (.strict s.workspace.store lost) globalEnv) (Value.All Closure.Intact)
      fun _ => True := fun lost e =>
    (Discipline.intact hhost hs.store).agree_evalWith (Machine.runs_strict hhost hs.store)
      ⟨fun _ _ => trivial, hglobal⟩
  refine ⟨Session.each_all_iff.mp hs, fun b s' hb => h.ready.get?_registerNative hb,
    fun lost e => (heval lost e).eq, fun lost k => ?_, ?_, ?_⟩
  · exact ((Discipline.intact hhost hs.store).agree_resolveWith fun p _ => heval lost p).eq
  · intro lost c args span hc hargs
    have hvalue : (Value.closure c).All Closure.Intact := Value.all_closure.mpr (hs.closure hc)
    exact ((Machine.runs_strict hhost hs.store).apply c args span hvalue hargs).eq
  · intro c args span k hne
    exact c.applyWith_of_length_ne _ hne span k

omit [Host] in
/-- A function of two arguments is passed through a function of the embedding program before it
comes under a contract: its wrapper has two contracts, and rejects a single argument. -/
theorem Reachable.no_argument_lost_two_contracts :
    let _ : Host := .doubling
    let twice : Builtin := ⟨"twice", 1, .fn [.int] .int, .host 0⟩
    let pass : Builtin := ⟨"pass", 1, .fn [.var 0] (.var 0), .host 1⟩
    let s := (((Session.start true).registerNative twice).2.registerNative pass).2.run
      "contract scale = positive -> any -> positive;; let scale = pass (fun m n -> twice m);;"
    s.Reachable ∧ Host.Intact ∧ ∃ id inner domain range pos neg,
      s.get? "scale" = some (.closure (.monitored id inner domain range pos neg)) ∧
        domain.length = 2 ∧ (Closure.monitored id inner domain range pos neg).Intact ∧
          ∀ v span k, (Closure.monitored id inner domain range pos neg).apply s.workspace.store [v]
            span k = .error ⟨.arity 2 1, some span⟩ k := by
  intro _ twice pass s
  have hreached : s.Reachable := .run _ (.registerNative pass (.registerNative twice (.start true)))
  have hhost : Host.Intact := by
    intro code args v hargs hv
    rcases Host.doubling_cases hv with hprim | hmem
    · exact Value.all_of_isClosure hprim
    · exact hargs v hmem
  have hwrapper : (s.get? "scale").bind Value.wrapper? = some (2, 2) := by decide +kernel
  obtain ⟨hintact, -, -, -, -, hreject⟩ := Reachable.no_argument_lost hhost hreached
  refine ⟨hreached, hhost, ?_⟩
  obtain ⟨v, hget, hv⟩ := Option.bind_eq_some_iff.mp hwrapper
  obtain ⟨id, inner, domain, range, pos, neg, rfl, harity, hdomain⟩ := Value.wrapper?_eq_some hv
  have hheld := holds_of_get? hget (Closure.mem_closures_self _)
  refine ⟨id, inner, domain, range, pos, neg, hget, hdomain, hintact _ hheld, ?_⟩
  intro v span k
  have hcount : (Closure.monitored id inner domain range pos neg).arity = 2 := harity
  have herror := hreject (.monitored id inner domain range pos neg) [v] span k (by simp [hcount])
  rwa [hcount] at herror

end Session

end ContractML
