import ContractML.Proofs.Readback

/-!
# The two evaluators agree

The evaluator on frames does what the evaluator does that keeps local variables in environments. Run
on a store that reads as the global bindings, on a chain that stands for the environment and on
values that read as the arguments, it answers what the other one answers, read back: a value, or the
same fault. Both leave the same counters, and the frames that have been opened on the way extend the
record of what chains stand for.

The judgement has one rule for each way in which acts are put together. The only rule of its own is
the one for opening a frame, where the other evaluator does nothing.

What a function of the embedding program does has to be the same on values that are read back. A
function that looks into no environment and makes no functions of the language is of this kind.

## Main definitions

* `Host.Uniform` — functions of the embedding program that commute with reading back.
* `Act.Mirrors` — the judgement.
* `FramedMachine.Mirrors` — machines that agree.

## Main results

* `Act.Mirrors.bind`, `Act.Mirrors.enclose`, `Act.Mirrors.deeper` — rules.
* `mirrors_applyFramed`, `mirrors_evalFramed`, `mirrors_callFramed` — the evaluator, part by part.
* `FramedMachine.mirrors_top` — **the two evaluators agree**.
-/

namespace ContractML

/-- The functions of the embedding program do the same on values that are read back, and give no
function of the language that they were not given. -/
structure Host.Uniform [Host] : Prop where
  relabel : ∀ env code args, Host.run code (args.map (Value.relabel (.reading env))) =
    (Relabelling.reading env).outcome (Value.relabel (.reading env)) (Host.run code args)
  all : ∀ opened code args v, (∀ a ∈ args, a.All (Closure.OnFrames opened)) →
    Host.run code args = .ok v → v.All (Closure.OnFrames opened)

/-- A program that brings no functions along is of this kind. -/
theorem Host.uniform_none : Host.Uniform where
  relabel _ _ _ := rfl
  all _ _ _ v _ hv := by
    cases hv
    exact Value.all_of_isClosure rfl

/-! ### Acts and evaluations -/

namespace Act

variable {α β γ δ : Type} {globals : Store} {r : Readback}

/-- The answer of the evaluation is the one of the act, read back. -/
inductive Answers (r : Readback) (globals : Store) (R : Readback → α → β → Prop) :
    EStateM.Result Fault Workspace α → EStateM.Result Fault Counters β → Prop
  /-- Both give a value. -/
  | ok {r' : Readback} {a : α} {b : β} {w : Workspace} : r.Extends r' →
      w.store.ReadsAs r' globals → R r' a b → Answers r globals R (.ok a w) (.ok b w.counters)
  /-- Both fail. -/
  | error {r' : Readback} {f : Fault} {w : Workspace} : r.Extends r' →
      w.store.ReadsAs r' globals → Answers r globals R (.error f w) (.error f w.counters)

theorem Answers.of_extends {R : Readback → α → β → Prop} {r' : Readback} (h : r.Extends r')
    {x : EStateM.Result Fault Workspace α} {y : EStateM.Result Fault Counters β}
    (hxy : Answers r' globals R x y) : Answers r globals R x y := by
  cases hxy with
  | ok hext hstore hab => exact .ok (h.trans hext) hstore hab
  | error hext hstore => exact .error (h.trans hext) hstore

/-- On frames that read as the global bindings, the evaluation gives the answer of the act. -/
def Mirrors (r : Readback) (globals : Store) (R : Readback → α → β → Prop) (x : Act α)
    (y : Eval β) : Prop :=
  ∀ w, w.store.ReadsAs r globals → Answers r globals R (x w) (y w.counters)

/-- Placing a fault does not look at frames. -/
theorem ofEval_locate (span : Span) (x : Eval α) :
    ofEval (Eval.locate span x) = locate span (ofEval x) := by
  funext w
  simp only [ofEval, Act.locate, Eval.locate]
  cases x w.counters <;> rfl

namespace Mirrors

variable {R : Readback → α → β → Prop} {S : Readback → γ → δ → Prop} {x : Act α} {y : Eval β}

protected theorem pure {a : α} {b : β} (h : R r a b) :
    Mirrors r globals R (pure a) (pure b) :=
  fun _ hw => .ok (.refl r) hw h

protected theorem throw {f : Fault} : Mirrors r globals R (throw f) (throw f) :=
  fun _ hw => .error (.refl r) hw

protected theorem bind {k : α → Act γ} {l : β → Eval δ} (hx : Mirrors r globals R x y)
    (hk : ∀ r', r.Extends r' → ∀ a b, R r' a b → Mirrors r' globals S (k a) (l b)) :
    Mirrors r globals S (x >>= k) (y >>= l) := by
  intro w hw
  have hxw := hx w hw
  rw [Act.bind_apply, Eval.bind_apply]
  generalize x w = a at hxw ⊢
  generalize y w.counters = b at hxw ⊢
  cases hxw with
  | ok hext hstore hab => exact (hk _ hext _ _ hab _ hstore).of_extends hext
  | error hext hstore => exact .error hext hstore

/-- A step that does not look at frames is the same in both. -/
theorem same (x : Eval α) : Mirrors r globals (fun _ a b => b = a) (ofEval x) x := by
  intro w hw
  unfold ofEval
  cases x w.counters with
  | ok a c => exact .ok (.refl r) hw rfl
  | error f c => exact .error (.refl r) hw

/-- A step that gives a value at once or fails. -/
protected theorem ofExcept {g : α → β} {e : Except Fault α} {e' : Except Fault β}
    (he : e' = r.labels.outcome g e) (hok : ∀ a, e = .ok a → R r a (g a)) :
    Mirrors r globals R (ofEval (Eval.ofExcept e)) (Eval.ofExcept e') := by
  subst he
  cases e with
  | ok a => exact Mirrors.pure (hok a rfl)
  | error f =>
    have hf : f.move r.labels.place = f := f.move_id
    rw [Relabelling.outcome_error, hf]
    exact Mirrors.throw

protected theorem locate (span : Span) (h : Mirrors r globals R x y) :
    Mirrors r globals R (locate span x) (Eval.locate span y) := by
  intro w hw
  have hxw := h w hw
  unfold Act.locate Eval.locate
  generalize x w = a at hxw ⊢
  generalize y w.counters = b at hxw ⊢
  cases hxw with
  | ok hext hstore hab => exact .ok hext hstore hab
  | error hext hstore => exact .error hext hstore

/-- Both reach the limit on open calls at once. -/
protected theorem deeper (h : Mirrors r globals R x y) :
    Mirrors r globals R (deeper x) (Eval.deeper y) := by
  intro w hw
  unfold Act.deeper Eval.deeper
  by_cases hlimit : maxCallDepth ≤ w.counters.depth
  · rw [if_pos hlimit, if_pos hlimit]
    exact .error (.refl r) hw
  · rw [if_neg hlimit, if_neg hlimit]
    have hxw := h { w with counters.depth := w.counters.depth + 1 } hw
    dsimp only at hxw
    generalize x { w with counters.depth := w.counters.depth + 1 } = a at hxw ⊢
    generalize y { w.counters with depth := w.counters.depth + 1 } = b at hxw ⊢
    cases hxw with
    | @ok r' a b w' hext hstore hab =>
      exact .ok (w := { w' with counters.depth := w'.counters.depth - 1 }) hext hstore hab
    | @error r' f w' hext hstore =>
      exact .error (w := { w' with counters.depth := w'.counters.depth - 1 }) hext hstore

/-- A name is looked up in both. -/
theorem lookup {c : Chain} {env : Env} (hc : c.ReadsAs r env) (name : String)
    {k : Option Value → Act γ} {z : Eval δ}
    (hsome : ∀ v w, v.ReadsAs r w → env.get? globals name = some w →
      Mirrors r globals S (k (some v)) z)
    (hnone : env.get? globals name = none → Mirrors r globals S (k none) z) :
    Mirrors r globals S (get? c name >>= k) z := by
  intro w hw
  have hget := hw.lookup hc name
  rw [Act.bind_apply]
  change Answers r globals S (k (w.store.get? c name) w) _
  cases hv : w.store.get? c name with
  | none =>
    rw [hv] at hget
    exact hnone hget w hw
  | some v =>
    rw [hv] at hget
    obtain ⟨u, hu, hread⟩ := hget
    exact hsome v u hread hu w hw

/-- A frame is opened, where the evaluation binds the parameters in its environment. -/
theorem enclose {c : Chain} {env : Env} (hc : c.ReadsAs r env) {args args' : List Value}
    (hargs : Value.AllReadAs r args args') (params : List String) {k : Chain → Act γ} {z : Eval δ}
    (hk : ∀ r', r.Extends r' → ∀ child, child.ReadsAs r' (env.bindAll params args') →
      Mirrors r' globals S (k child) z) :
    Mirrors r globals S (Act.enclose c params args >>= k) z := by
  intro w hw
  obtain ⟨r', hext, hstore, hchild⟩ := Workspace.readsAs_enclose hw hc hargs params
  obtain ⟨hcounters, -⟩ := w.enclose_spec c params args
  have hkw := hk r' hext _ hchild _ hstore
  -- No counter is changed, so the evaluation goes on from where it was.
  rw [hcounters] at hkw
  exact hkw.of_extends hext

end Mirrors

end Act

open Act (Mirrors)

/-! ### Single steps -/

variable {globals : Store} {r : Readback}

/-- An outcome of one step that is the same on values that are read back. -/
theorem mirrors_elementary {e e' : Except Fault Value} (h : Elementary e)
    (he : e' = r.labels.outcome (Value.relabel r.labels) e) :
    Mirrors r globals Value.ReadsAs (Act.ofEval (Eval.ofExcept e)) (Eval.ofExcept e') := by
  refine Mirrors.ofExcept he fun v hv => ⟨?_, rfl⟩
  rw [hv] at h
  exact Value.all_of_isClosure h

theorem mirrors_unary {v w : Value} (hv : v.ReadsAs r w) (op : UnaryOp) (span : Span) :
    Mirrors r globals Value.ReadsAs (Act.ofEval (Eval.ofExcept (op.eval v span)))
      (Eval.ofExcept (op.eval w span)) := by
  obtain ⟨-, rfl⟩ := hv
  exact mirrors_elementary (op.stepwise_eval (V := fun _ => True) trivial span).elementary
    (op.eval_relabel r.labels v span)

theorem mirrors_binary {v w v' w' : Value} (hv : v.ReadsAs r w) (hv' : v'.ReadsAs r w')
    (op : BinaryOp) (span : Span) :
    Mirrors r globals Value.ReadsAs (Act.ofEval (Eval.ofExcept (op.eval v v' span)))
      (Eval.ofExcept (op.eval w w' span)) := by
  obtain ⟨-, rfl⟩ := hv
  obtain ⟨-, rfl⟩ := hv'
  exact mirrors_elementary (op.stepwise_eval (V := fun _ => True) span trivial trivial).elementary
    (op.eval_relabel r.labels v v' span)

/-- A value that is read back has the same truth value. -/
theorem mirrors_expectBool {v w : Value} (hv : v.ReadsAs r w) (span : Span) :
    Mirrors r globals (fun _ a b => b = a) (Act.ofEval (Eval.expectBool v span))
      (Eval.expectBool w span) := by
  obtain ⟨-, rfl⟩ := hv
  have hsame : Eval.expectBool (v.relabel r.labels) span = Eval.expectBool v span := by
    cases v with
    | closure c => simp [Eval.expectBool, Value.relabel_closure, Value.type]
    | _ => rfl
  rw [hsame]
  exact .same _

theorem mirrors_ofPredicate {v w : Value} (hv : v.ReadsAs r w) (label : String) (span : Span) :
    Mirrors r globals Contract.ReadsAs
      (Act.ofEval (Eval.ofExcept (Contract.ofPredicate label v span)))
      (Eval.ofExcept (Contract.ofPredicate label w span)) := by
  obtain ⟨hall, rfl⟩ := hv
  have hrelabel := Contract.ofPredicate_relabel r.labels label v span
  refine Mirrors.ofExcept hrelabel fun k hk => ⟨?_, rfl⟩
  cases v with
  | closure c =>
    simp only [Contract.ofPredicate] at hk
    split at hk
    · cases hk
      exact Contract.all_base.mpr (Value.all_closure.mp hall)
    · cases hk
  | _ => cases hk

/-- Values that are read back have the same types. -/
theorem mirrors_checkTypes {args args' : List Value} (hargs : Value.AllReadAs r args args')
    (types : List Ty) (span : Span) :
    Mirrors r globals (fun _ a b => b = a) (Act.ofEval (Eval.checkTypes types args span))
      (Eval.checkTypes types args' span) := by
  obtain ⟨-, rfl⟩ := hargs
  have hsame : Eval.checkTypes types (args.map (Value.relabel r.labels)) span =
      Eval.checkTypes types args span := by
    induction types generalizing args with
    | nil => rfl
    | cons t ts ih =>
      cases args with
      | nil => rfl
      | cons v vs => rw [List.map_cons, Eval.checkTypes, Eval.checkTypes, Value.type_relabel, ih]
  rw [hsame]
  exact .same _

theorem mirrors_wrap {domain domain' : List Contract}
    (hdomain : Contract.AllReadAs r domain domain') {range range' : Contract}
    (hrange : range.ReadsAs r range') {c d : Closure} (hc : c.ReadsAs r d)
    (label pos neg : String) (span : Span) :
    Mirrors r globals Value.ReadsAs
      (Act.ofEval (Contract.wrap domain range label c pos neg span))
      (Contract.wrap domain' range' label d pos neg span) := by
  obtain ⟨hdomain, rfl⟩ := hdomain
  obtain ⟨hrange, rfl⟩ := hrange
  obtain ⟨hc, rfl⟩ := hc
  unfold Contract.wrap
  rw [Closure.arity_relabel, Contract.relabelAll_eq_map, List.length_map]
  split
  · intro w hw
    refine .ok (.refl r) hw ⟨?_, ?_⟩
    · exact Value.all_closure.mpr (Closure.all_monitored.mpr ⟨trivial, hc, hdomain, hrange⟩)
    · rw [Value.relabel_closure, Closure.relabel, Contract.relabelAll_eq_map]
      rfl
  · exact Mirrors.throw

/-- A value of the wrong type has the same type when it is read back. -/
theorem mirrors_mismatch {α β : Type} {R : Readback → α → β → Prop} {v w : Value}
    (hv : v.ReadsAs r w) (expected : Ty) (span : Span) :
    Mirrors r globals R (throw (.mismatch expected v.type span))
      (throw (.mismatch expected w.type span)) := by
  rw [hv.2, Value.type_relabel]
  exact Mirrors.throw

theorem mirrors_run [Host] (hhost : Host.Uniform) (p : Primitive) {args args' : List Value}
    (hargs : Value.AllReadAs r args args') :
    Mirrors r globals Value.ReadsAs (Act.ofEval (Eval.ofExcept (p.run args)))
      (Eval.ofExcept (p.run args')) := by
  obtain ⟨hall, rfl⟩ := hargs
  have hrelabel := p.run_relabel_of_host (hhost.relabel r.env) args
  refine Mirrors.ofExcept hrelabel fun v hv => ⟨?_, rfl⟩
  -- The default functions look at no closure. For the others the hypothesis on the embedding
  -- program speaks.
  by_cases hp : ∃ code, p = .host code
  · obtain ⟨code, rfl⟩ := hp
    exact hhost.all r.opened code args v hall hv
  · have hreads := p.reads_run_of_ne fun code h => hp ⟨code, h⟩
    exact Value.all_of_isClosure (hreads.value args v hv)

/-! ### Applying and checking -/

/-- Two ways of calling a function of the language that agree. -/
def CallFramed.Mirrors (globals : Store) (call : CallFramed) (call' : CallUser) : Prop :=
  ∀ (r : Readback) params body (c : Chain) env args args', c.ReadsAs r env →
    Value.AllReadAs r args args' → Act.Mirrors r globals Value.ReadsAs
      (call params body (.frames c) args) (call' params body env args')

section Applying

variable [Host] {call : CallFramed} {call' : CallUser}

mutual

/-- Applying a closure agrees if calling does. -/
theorem mirrors_applyFramed (hhost : Host.Uniform) (hcall : call.Mirrors globals call') :
    ∀ (c : Closure) (r : Readback) (d : Closure) (args args' : List Value) (span : Span),
      c.ReadsAs r d → Value.AllReadAs r args args' →
        Act.Mirrors r globals Value.ReadsAs (c.applyFramed call args span)
          (d.applyWith call' args' span)
  | .native id name type body, r, d, args, args', span, hc, hargs => by
    have hlength : args'.length = args.length := by rw [hargs.2, List.length_map]
    obtain ⟨-, rfl⟩ := hc
    rw [Closure.relabel, Closure.applyFramed, Closure.applyWith, hlength, Act.ofEval_locate]
    refine Mirrors.bind (.same _) fun r₁ h₁ _ _ _ => ?_
    refine Mirrors.bind (mirrors_checkTypes (hargs.mono h₁) _ span) fun r₂ h₂ _ _ _ => ?_
    exact (mirrors_run hhost body (hargs.mono (h₁.trans h₂))).locate span
  | .user id params body env, r, d, args, args', span, hc, hargs => by
    have hlength : args'.length = args.length := by rw [hargs.2, List.length_map]
    obtain ⟨hall, rfl⟩ := hc
    -- A function that was made on frames keeps a chain, which stands for the environment of the
    -- other one.
    obtain ⟨⟨chain, rfl, hchain⟩, -⟩ := Closure.all_user.mp hall
    have hread : chain.ReadsAs r ((Env.frames chain).relabel r.labels) := ⟨hchain, rfl⟩
    have hmove : body.move r.labels.place = body := body.move_id
    rw [Closure.relabel, Closure.applyFramed, Closure.applyWith, hlength, hmove]
    refine Mirrors.bind (.same _) fun r₁ h₁ _ _ _ => ?_
    exact (hcall r₁ params body chain _ args args' (hread.mono h₁) (hargs.mono h₁)).locate span
  | .monitored id inner domain range pos neg, r, d, args, args', span, hc, hargs => by
    have hlength : args'.length = args.length := by rw [hargs.2, List.length_map]
    obtain ⟨hall, rfl⟩ := hc
    obtain ⟨-, hinner, hdomain, hrange⟩ := Closure.all_monitored.mp hall
    have hinner : inner.ReadsAs r (inner.relabel r.labels) := ⟨hinner, rfl⟩
    have hdomain : Contract.AllReadAs r domain (Contract.relabelAll r.labels domain) :=
      ⟨hdomain, rfl⟩
    have hrange : range.ReadsAs r (range.relabel r.labels) := ⟨hrange, rfl⟩
    rw [Closure.relabel, Closure.applyFramed, Closure.applyWith, Closure.arity_relabel, hlength]
    refine Mirrors.bind (.same _) fun r₁ h₁ _ _ _ => ?_
    refine Mirrors.bind (mirrors_enforceAllFramed hhost hcall domain r₁ _ args args' neg pos span
      (hdomain.mono h₁) (hargs.mono h₁)) fun r₂ h₂ vs ws hvs => ?_
    -- What the wrapper holds is read back with the chains that were opened while the arguments were
    -- checked.
    have h₁₂ := h₁.trans h₂
    refine Mirrors.bind (mirrors_applyFramed hhost hcall inner r₂ _ vs ws span
      (hinner.mono h₁₂) hvs) fun r₃ h₃ v w hv => ?_
    exact mirrors_enforceFramed hhost hcall range r₃ _ v w pos neg span
      (hrange.mono (h₁₂.trans h₃)) hv
termination_by structural c => c

/-- Checking a value agrees if calling does. -/
theorem mirrors_enforceFramed (hhost : Host.Uniform) (hcall : call.Mirrors globals call') :
    ∀ (k : Contract) (r : Readback) (l : Contract) (v w : Value) (pos neg : String) (span : Span),
      k.ReadsAs r l → v.ReadsAs r w →
        Act.Mirrors r globals Value.ReadsAs (k.enforceFramed call v pos neg span)
          (l.enforceWith call' w pos neg span)
  | .base p label, r, l, v, w, pos, neg, span, hk, hv => by
    obtain ⟨hall, rfl⟩ := hk
    have hp : p.ReadsAs r (p.relabel r.labels) := ⟨Contract.all_base.mp hall, rfl⟩
    rw [Contract.relabel, Contract.enforceFramed, Contract.enforceWith]
    refine Mirrors.bind (mirrors_applyFramed hhost hcall p r _ [v] [w] span hp
      (.cons hv .nil)) fun r₁ h₁ answer answer' hanswer => ?_
    have hmismatch : Act.Mirrors r₁ globals Value.ReadsAs (throw (.mismatch .bool answer.type span))
        (throw (.mismatch .bool answer'.type span)) := mirrors_mismatch hanswer .bool span
    obtain ⟨-, rfl⟩ := hanswer
    cases answer with
    | bool b =>
      cases b with
      | true => exact Mirrors.pure (hv.mono h₁)
      | false =>
        -- The rejected value is written in the same way when it is read back.
        have hviolation : Contract.violation label pos w span =
            Contract.violation label pos v span := by
          rw [Contract.violation, Contract.violation, hv.2, Value.render_relabel]
        change Act.Mirrors r₁ globals _ _ (throw (Contract.violation label pos w span))
        rw [hviolation]
        exact Mirrors.throw
    | _ => exact hmismatch
  | .function domain range label, r, l, v, w, pos, neg, span, hk, hv => by
    obtain ⟨hall, rfl⟩ := hk
    obtain ⟨hdomain, hrange⟩ := Contract.all_function.mp hall
    cases v with
    | closure c =>
      obtain ⟨hc, rfl⟩ := hv
      rw [Contract.relabel, Value.relabel_closure, Contract.enforceFramed, Contract.enforceWith]
      exact mirrors_wrap ⟨hdomain, rfl⟩ ⟨hrange, rfl⟩ ⟨Value.all_closure.mp hc, rfl⟩ label pos neg
        span
    | _ =>
      obtain ⟨hc, rfl⟩ := hv
      exact Mirrors.pure (Value.readsAs_of_isClosure rfl)
termination_by structural k => k

/-- Checking several values agrees if calling does. -/
theorem mirrors_enforceAllFramed (hhost : Host.Uniform) (hcall : call.Mirrors globals call') :
    ∀ (ks : List Contract) (r : Readback) (ls : List Contract) (vs ws : List Value)
      (pos neg : String) (span : Span), Contract.AllReadAs r ks ls → Value.AllReadAs r vs ws →
        Act.Mirrors r globals Value.AllReadAs (Contract.enforceAllFramed call ks vs pos neg span)
          (Contract.enforceAllWith call' ls ws pos neg span)
  | k :: ks, r, ls, v :: vs, ws, pos, neg, span, hks, hvs => by
    obtain ⟨l, ls, rfl, hk, hks⟩ := hks.of_cons
    obtain ⟨w, ws, rfl, hv, hvs⟩ := hvs.of_cons
    rw [Contract.enforceAllFramed, Contract.enforceAllWith]
    refine Mirrors.bind (mirrors_enforceFramed hhost hcall k r l v w pos neg span hk hv)
      fun r₁ h₁ v' w' hv' => ?_
    refine Mirrors.bind (mirrors_enforceAllFramed hhost hcall ks r₁ ls vs ws pos neg span
      (hks.mono h₁) (hvs.mono h₁)) fun r₂ h₂ vs' ws' hvs' => ?_
    exact Mirrors.pure (.cons (hv'.mono h₂) hvs')
  | [], _, _, _, _, _, _, _, hks, _ => by
    obtain ⟨-, rfl⟩ := hks
    exact Mirrors.pure .nil
  | _ :: _, _, _, [], _, _, _, _, hks, hvs => by
    obtain ⟨-, rfl⟩ := hks
    obtain ⟨-, rfl⟩ := hvs
    exact Mirrors.pure .nil
termination_by structural ks => ks

end

end Applying

/-! ### Evaluating -/

/-- Machines that agree. -/
structure FramedMachine.Mirrors (globals : Store) (m : FramedMachine) (m' : Machine) : Prop where
  store_eq : m'.store = globals
  apply : ∀ c r d args args' span, c.ReadsAs r d → Value.AllReadAs r args args' →
    Act.Mirrors r globals Value.ReadsAs (m.apply c args span) (m'.apply d args' span)
  enforce : ∀ k r l v w pos neg span, k.ReadsAs r l → v.ReadsAs r w →
    Act.Mirrors r globals Value.ReadsAs (m.enforce k v pos neg span) (m'.enforce l w pos neg span)

section Evaluating

variable {m : FramedMachine} {m' : Machine}

/-- Evaluating several expressions, each of which agrees. -/
theorem mirrors_evalAllFramed {es : List Expr} {c : Chain} {env : Env} (hc : c.ReadsAs r env)
    (h : ∀ e ∈ es, ∀ (r : Readback), c.ReadsAs r env →
      Mirrors r globals Value.ReadsAs (e.evalFramed m c) (e.evalWith m' env)) :
    Mirrors r globals Value.AllReadAs (Expr.evalAllFramed m es c)
      (Expr.evalAllWith m' es env) := by
  induction es generalizing r with
  | nil => exact Mirrors.pure .nil
  | cons e es ih =>
    rw [List.forall_mem_cons] at h
    rw [Expr.evalAllFramed, Expr.evalAllWith]
    refine Mirrors.bind (h.1 r hc) fun r₁ h₁ v w hv => ?_
    refine Mirrors.bind (ih (hc.mono h₁) h.2) fun r₂ h₂ vs ws hvs => ?_
    exact Mirrors.pure (.cons (hv.mono h₂) hvs)

/-- Evaluating several contracts, each of which agrees. -/
theorem mirrors_resolveAllFramed {ks : List ContractExpr} {c : Chain} {env : Env}
    (hc : c.ReadsAs r env)
    (h : ∀ k ∈ ks, ∀ (r : Readback), c.ReadsAs r env →
      Mirrors r globals Contract.ReadsAs (k.resolveFramed m c) (k.resolveWith m' env)) :
    Mirrors r globals Contract.AllReadAs (ContractExpr.resolveAllFramed m ks c)
      (ContractExpr.resolveAllWith m' ks env) := by
  induction ks generalizing r with
  | nil => exact Mirrors.pure .nil
  | cons k ks ih =>
    rw [List.forall_mem_cons] at h
    rw [ContractExpr.resolveAllFramed, ContractExpr.resolveAllWith]
    refine Mirrors.bind (h.1 r hc) fun r₁ h₁ d l hd => ?_
    refine Mirrors.bind (ih (hc.mono h₁) h.2) fun r₂ h₂ ds ls hds => ?_
    exact Mirrors.pure (.cons (hd.mono h₂) hds)

/-- Evaluating a contract agrees if its predicates do. -/
theorem mirrors_resolveFramed {k : ContractExpr} {c : Chain} {env : Env} (hc : c.ReadsAs r env)
    (h : ∀ p ∈ k.predicates, ∀ (r : Readback), c.ReadsAs r env →
      Mirrors r globals Value.ReadsAs (p.evalFramed m c) (p.evalWith m' env)) :
    Mirrors r globals Contract.ReadsAs (k.resolveFramed m c) (k.resolveWith m' env) := by
  induction k generalizing r with
  | flat e =>
    rw [ContractExpr.resolveFramed, ContractExpr.resolveWith]
    refine Mirrors.bind (h e (by simp [ContractExpr.predicates]) r hc) fun r₁ h₁ v w hv => ?_
    exact mirrors_ofPredicate hv e.render e.span
  | arrow ds range s ihds ihr =>
    simp only [ContractExpr.mem_predicates_arrow] at h
    have hds : Mirrors r globals Contract.AllReadAs (ContractExpr.resolveAllFramed m ds c)
        (ContractExpr.resolveAllWith m' ds env) :=
      mirrors_resolveAllFramed hc fun d hd r hc =>
        ihds d hd hc fun p hp => h p (.inl ⟨d, hd, hp⟩)
    rw [ContractExpr.resolveFramed, ContractExpr.resolveWith]
    refine Mirrors.bind hds fun r₁ h₁ ks ls hks => ?_
    refine Mirrors.bind (ihr (hc.mono h₁) fun p hp => h p (.inr hp)) fun r₂ h₂ k l hk => ?_
    exact Mirrors.pure ((hks.mono h₂).function hk _)

/-- Evaluating an expression agrees on machines that agree. -/
theorem mirrors_evalFramed (hm : m.Mirrors globals m') (e : Expr) {c : Chain} {env : Env}
    (hc : c.ReadsAs r env) :
    Mirrors r globals Value.ReadsAs (e.evalFramed m c) (e.evalWith m' env) := by
  induction e generalizing r c env with
  | lit l s => exact Mirrors.pure (Value.readsAs_of_isClosure l.isClosure_toValue)
  | var x =>
    rw [Expr.evalFramed, Expr.evalWith, hm.store_eq]
    refine Mirrors.lookup hc x.text (fun v w hv hget => ?_) fun hget => ?_
    · rw [hget]
      exact Mirrors.pure hv
    · rw [hget]
      exact Mirrors.throw
  | unary op e s ih =>
    rw [Expr.evalFramed, Expr.evalWith]
    exact Mirrors.bind (ih hc) fun r₁ h₁ v w hv => mirrors_unary hv op s
  | binary op l r' s ihl ihr =>
    rw [Expr.evalFramed, Expr.evalWith]
    refine Mirrors.bind (ihl hc) fun r₁ h₁ v w hv => ?_
    refine Mirrors.bind (ihr (hc.mono h₁)) fun r₂ h₂ v' w' hv' => ?_
    exact mirrors_binary (hv.mono h₂) hv' op s
  | logical op left right s ihl ihr =>
    have hright : ∀ {r : Readback}, c.ReadsAs r env → Mirrors r globals Value.ReadsAs
        (do return .bool (← Act.ofEval (Eval.expectBool (← right.evalFramed m c) right.span)))
        (do return .bool (← Eval.expectBool (← right.evalWith m' env) right.span)) := by
      intro r hc
      refine Mirrors.bind (ihr hc) fun r₁ h₁ v w hv => ?_
      refine Mirrors.bind (mirrors_expectBool hv right.span) fun r₂ h₂ b b' hb => ?_
      subst hb
      exact Mirrors.pure (Value.readsAs_of_isClosure rfl)
    rw [Expr.evalFramed, Expr.evalWith]
    refine Mirrors.bind (ihl hc) fun r₁ h₁ v w hv => ?_
    refine Mirrors.bind (mirrors_expectBool hv left.span) fun r₂ h₂ b b' hb => ?_
    subst hb
    cases op <;> cases b'
    · exact Mirrors.pure (Value.readsAs_of_isClosure rfl)
    · exact hright (hc.mono (h₁.trans h₂))
    · exact hright (hc.mono (h₁.trans h₂))
    · exact Mirrors.pure (Value.readsAs_of_isClosure rfl)
  | cond i t e s ihi iht ihe =>
    rw [Expr.evalFramed, Expr.evalWith]
    refine Mirrors.bind (ihi hc) fun r₁ h₁ v w hv => ?_
    refine Mirrors.bind (mirrors_expectBool hv i.span) fun r₂ h₂ b b' hb => ?_
    subst hb
    cases b' with
    | true => exact iht (hc.mono (h₁.trans h₂))
    | false => exact ihe (hc.mono (h₁.trans h₂))
  | lambda ps b s _ =>
    rw [Expr.evalFramed, Expr.evalWith]
    refine Mirrors.bind (.same _) fun r₁ h₁ n n' hn => ?_
    subst hn
    obtain ⟨hopened, rfl⟩ := hc.mono h₁
    refine Mirrors.pure ⟨?_, ?_⟩
    · exact Value.all_closure.mpr (Closure.all_user.mpr ⟨⟨c, rfl, hopened⟩, Env.all_frames⟩)
    · have hmove : b.move r₁.labels.place = b := b.move_id
      rw [Value.relabel_closure, Closure.relabel, Env.relabel, hmove]
      rfl
  | call f args s ihf ihargs =>
    rw [Expr.evalFramed, Expr.evalWith]
    refine Mirrors.bind (ihf hc) fun r₁ h₁ callee callee' hcallee => ?_
    refine Mirrors.bind (mirrors_evalAllFramed (hc.mono h₁) fun a ha r hc => ihargs a ha hc)
      fun r₂ h₂ vs ws hvs => ?_
    obtain ⟨hall, rfl⟩ := hcallee.mono h₂
    cases callee with
    | closure g =>
      rw [Value.relabel_closure]
      exact hm.apply g r₂ _ vs ws s ⟨Value.all_closure.mp hall, rfl⟩ hvs
    | _ => exact Mirrors.throw
  | letIn x v b s ihv ihb =>
    rw [Expr.evalFramed, Expr.evalWith]
    refine Mirrors.bind (ihv hc) fun r₁ h₁ u w hu => ?_
    exact Mirrors.enclose (hc.mono h₁) (.cons hu .nil) [x.text] fun r₂ h₂ child hchild =>
      ihb hchild
  | seq es s ih =>
    rw [Expr.evalFramed, Expr.evalWith]
    refine Mirrors.bind (mirrors_evalAllFramed hc fun e he r hc => ih e he hc)
      fun r₁ h₁ vs ws hvs => ?_
    obtain ⟨hall, rfl⟩ := hvs
    rw [List.getLast?_map]
    cases hlast : vs.getLast? with
    | none => exact Mirrors.throw
    | some v => exact Mirrors.pure ⟨hall v (List.mem_of_getLast? hlast), rfl⟩
  | monitored e k pos neg ih ihk =>
    rw [Expr.evalFramed, Expr.evalWith]
    refine Mirrors.bind (ih hc) fun r₁ h₁ v w hv => ?_
    -- That the chain leads to the global frame is known of the store that is reached here.
    intro u hu
    have hroot : c.root.ReadsAs r₁ env.root := hu.root (hc.mono h₁)
    refine Mirrors.bind (mirrors_resolveFramed hroot fun p hp r hc => ihk p hp hc)
      (fun r₂ h₂ contract contract' hk => ?_) u hu
    exact hm.enforce contract r₂ contract' v w pos _ e.span hk (hv.mono h₂)

end Evaluating

/-! ### Calling -/

section Calling

variable [Host]

theorem FramedMachine.mirrors_ofCall (hhost : Host.Uniform) {call : CallFramed} {call' : CallUser}
    (hcall : call.Mirrors globals call') :
    (FramedMachine.ofCall call).Mirrors globals (.ofCall globals call') where
  store_eq := rfl
  apply := mirrors_applyFramed hhost hcall
  enforce := mirrors_enforceFramed hhost hcall

/-- Calling a function agrees at every level. -/
theorem mirrors_callFramed (hhost : Host.Uniform) (globals : Store) (level : Nat) :
    (callFramed level).Mirrors globals (callUser globals level) := by
  induction level with
  | zero => exact fun _ _ _ _ _ _ _ _ _ => Mirrors.throw
  | succ level ih =>
    intro r params body c env args args' hc hargs
    rw [callFramed, callUser]
    refine Mirrors.deeper ?_
    -- A chain is entered as it is, and the frame of the parameters is opened inside it.
    rw [Act.enter, pure_bind]
    refine Mirrors.enclose hc hargs params fun r₁ h₁ child hchild => ?_
    exact mirrors_evalFramed (FramedMachine.mirrors_ofCall hhost ih) body hchild

/-- **The two evaluators agree.** -/
theorem FramedMachine.mirrors_top (hhost : Host.Uniform) (globals : Store) :
    FramedMachine.top.Mirrors globals (.over globals) :=
  mirrors_ofCall hhost (mirrors_callFramed hhost globals maxCallDepth)

end Calling

end ContractML
