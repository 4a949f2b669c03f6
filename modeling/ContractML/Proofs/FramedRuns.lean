import ContractML.Proofs.Arguments
import ContractML.Proofs.Atomicity
import ContractML.Proofs.FrameSimulation
import ContractML.Proofs.RelabelledRuns

/-!
# Runs on frames

A session whose statements are evaluated on frames, and one that keeps local variables in
environments, stay in step through any history of runs and registrations. What the first one holds
reads as what the second one holds, with the same failures, the same declarations and the same
counters. So what is known of the frames of the first is known of the sessions that are reached.

## Main definitions

* `RunLog.ReadsAs`, `Session.ReadsAs` — the second log or session is the first one read back.
* `Session.Answers` — outcomes of steps of two sessions that are in step.

## Main results

* `Session.ReadsAs.execute` — one statement.
* `Session.history_readsAs` — **sessions stay in step through every history**.
* `Session.history_agrees` — what can be seen of the two sessions.
* `Session.reachable_iff_history` — the sessions that are reached are those with a history.
* `Host.uniform_doubling` — functions of an embedding program to which this applies.
-/

namespace ContractML

variable {r r' : Readback}

/-! ### Logs -/

/-- The second result is the first one read back. -/
def StatementResult.ReadsAs (r : Readback) (x y : StatementResult) : Prop :=
  x.Each (Value.All (Closure.OnFrames r.opened)) ∧ y = x.relabel r.labels

theorem StatementResult.ReadsAs.mono (h : r.Extends r') {x y : StatementResult}
    (hxy : x.ReadsAs r y) : x.ReadsAs r' y := by
  obtain ⟨hx, rfl⟩ := hxy
  refine ⟨hx.mono fun v hv => hv.mono (Closure.OnFrames.mono h.opened), ?_⟩
  cases x with
  | bound name v =>
    exact congrArg (StatementResult.bound name) (Value.relabel_mono h (hx _ rfl)).symm
  | evaluated v =>
    exact congrArg StatementResult.evaluated (Value.relabel_mono h (hx _ rfl)).symm
  | _ => rfl

/-- The second log is the first one read back. -/
structure RunLog.ReadsAs (r : Readback) (l m : RunLog) : Prop where
  failures : m.failures = l.failures
  results : List.Forall₂ (StatementResult.ReadsAs r) l.results.toList m.results.toList

namespace RunLog.ReadsAs

variable {l m : RunLog}

theorem mono (h : r.Extends r') (hlm : l.ReadsAs r m) : l.ReadsAs r' m :=
  ⟨hlm.failures, hlm.results.imp fun _ _ hxy => hxy.mono h⟩

theorem empty : RunLog.empty.ReadsAs r .empty := ⟨rfl, .nil⟩

theorem record_ok (hlm : l.ReadsAs r m) {x y : StatementResult} (hxy : x.ReadsAs r y) :
    (l.record (.ok x)).ReadsAs r (m.record (.ok y)) := by
  refine ⟨hlm.failures, ?_⟩
  simp only [record, Array.toList_push]
  exact List.rel_append hlm.results (.cons hxy .nil)

theorem record_error (hlm : l.ReadsAs r m) (f : Failure) :
    (l.record (.error f)).ReadsAs r (m.record (.error f)) := by
  have hfailed : (StatementResult.failed f).ReadsAs r (.failed f) := by
    refine ⟨nofun, congrArg StatementResult.failed ?_⟩
    cases f with
    | malformed e => rfl
    | fault e => exact congrArg Failure.fault e.move_id.symm
  refine ⟨?_, ?_⟩
  · simp only [record, hlm.failures]
  · simp only [record, Array.toList_push]
    exact List.rel_append hlm.results (.cons hfailed .nil)

/-- The results of the second log are those of the first one, relabelled. -/
theorem results_eq (hlm : l.ReadsAs r m) :
    m.results.toList = l.results.toList.map (StatementResult.relabel r.labels) := by
  have hresults := hlm.results
  generalize l.results.toList = xs at hresults ⊢
  generalize m.results.toList = ys at hresults ⊢
  induction hresults with
  | nil => rfl
  | cons hxy _ ih => rw [hxy.2, ih, List.map_cons]

/-- The outcome of the second log is that of the first one, relabelled. -/
theorem outcome_eq (hlm : l.ReadsAs r m) : m.outcome = l.outcome.relabel r.labels := by
  have hvalues : (m.results.toList.reverse.findSome? StatementResult.value?) =
      (l.results.toList.reverse.findSome? StatementResult.value?).map
        fun p => (p.1.relabel r.labels, p.2) := by
    rw [hlm.results_eq, ← List.map_reverse, List.findSome?_map, List.map_findSome?]
    exact congrArg (List.findSome? · _) (funext (StatementResult.value?_relabel r.labels))
  simp only [outcome, hlm.failures, hvalues]
  split
  · cases l.results.toList.reverse.findSome? StatementResult.value? <;> rfl
  · rfl

end RunLog.ReadsAs

/-! ### One statement -/

namespace Session

/-- The second session is the first one read back. -/
structure ReadsAs (r : Readback) (s t : Session) : Prop where
  contracts : t.contracts = s.contracts
  store : s.workspace.store.ReadsAs r t.workspace.store
  counters : t.workspace.counters = s.workspace.counters
  scopes : t.scopes = s.scopes
  log : s.log.ReadsAs r t.log

/-- The outcome of a step of the second session is that of the first one, read back. -/
inductive Answers {α β : Type} (r : Readback) (R : Readback → α → β → Prop) :
    Except Fault α × Session → Except Fault β × Session → Prop
  /-- Both give a result. -/
  | ok {r' : Readback} {a : α} {b : β} {s t : Session} : r.Extends r' → s.ReadsAs r' t →
      R r' a b → Answers r R (.ok a, s) (.ok b, t)
  /-- Both fail. -/
  | error {r' : Readback} {f : Fault} {s t : Session} : r.Extends r' → s.ReadsAs r' t →
      Answers r R (.error f, s) (.error f, t)

variable {s t : Session}

namespace ReadsAs

theorem annotate (h : s.ReadsAs r t) (e : Expr) : t.annotate e = s.annotate e := by
  unfold Session.annotate
  rw [h.contracts, h.scopes]

theorem annotateBinding (h : s.ReadsAs r t) (name : String) (e : Expr) :
    t.annotateBinding name e = s.annotateBinding name e := by
  unfold Session.annotateBinding
  rw [h.contracts, h.scopes]

theorem binding (h : s.ReadsAs r t) (name : String) {v w : Value} (hv : v.ReadsAs r w) :
    (s.binding name v).ReadsAs r (t.binding name w) :=
  ⟨h.contracts, h.store.define hv name, h.counters, h.scopes, h.log⟩

theorem declaring (h : s.ReadsAs r t) (name : String) (c : ContractExpr) :
    (s.declaring name c).ReadsAs r (t.declaring name c) :=
  ⟨h.contracts, h.store, h.counters, congrArg (ScopeStack.declare · name c) h.scopes, h.log⟩

theorem record_ok (h : s.ReadsAs r t) {x y : StatementResult} (hxy : x.ReadsAs r y) :
    (s.record (.ok x)).ReadsAs r (t.record (.ok y)) :=
  ⟨h.contracts, h.store, h.counters, h.scopes, h.log.record_ok hxy⟩

theorem record_error (h : s.ReadsAs r t) (f : Failure) :
    (s.record (.error f)).ReadsAs r (t.record (.error f)) :=
  ⟨h.contracts, h.store, h.counters, h.scopes, h.log.record_error f⟩

/-- An act on the frames of the first session, and an evaluation over the second one. -/
theorem act {α β : Type} {R : Readback → α → β → Prop} (h : s.ReadsAs r t) {x : Act α}
    {y : Store → Eval β} (hxy : x.Mirrors r t.workspace.store R (y t.workspace.store)) :
    Answers r R (s.act x) (t.evaluate y) := by
  have hanswers := hxy s.workspace h.store
  unfold Session.act evaluate Workspace.evaluate
  rw [h.counters]
  generalize x s.workspace = a at hanswers ⊢
  generalize y t.workspace.store s.workspace.counters = b at hanswers ⊢
  cases hanswers with
  | ok hext hstore hab =>
    exact .ok hext ⟨h.contracts, hstore, rfl, h.scopes, h.log.mono hext⟩ hab
  | error hext hstore =>
    exact .error hext ⟨h.contracts, hstore, rfl, h.scopes, h.log.mono hext⟩

section Host

variable [Host]

/-- An expression is evaluated by both evaluators. -/
theorem expr (hhost : Host.Uniform) (h : s.ReadsAs r t) (e : Expr) :
    Answers r Value.ReadsAs (framedEvaluator.expr s e) (evaluator.expr t e) :=
  h.act (y := fun store => e.eval store globalEnv)
    (mirrors_evalFramed (FramedMachine.mirrors_top hhost _) e h.store.global)

/-- A contract is evaluated by both evaluators. -/
theorem contract (hhost : Host.Uniform) (h : s.ReadsAs r t) (c : ContractExpr) :
    Answers r Contract.ReadsAs (framedEvaluator.contract s c) (evaluator.contract t c) :=
  h.act (y := fun store => c.resolve store globalEnv)
    (mirrors_resolveFramed h.store.global fun p _ _ hc =>
      mirrors_evalFramed (FramedMachine.mirrors_top hhost _) p hc)

/-- A statement gives the same result, read back, or the same fault, and the sessions stay in
step. -/
theorem execute (hhost : Host.Uniform) (h : s.ReadsAs r t) (stmt : Stmt) :
    Answers r StatementResult.ReadsAs (s.executeFramed stmt) (t.execute stmt) := by
  unfold executeFramed Session.execute
  cases stmt with
  | expr e span =>
    have hexpr := h.expr hhost (s.annotate e)
    -- The annotations depend on the declarations alone, so both evaluators are given the same tree.
    rw [executeWith_expr, executeWith_expr, h.annotate]
    generalize framedEvaluator.expr s (s.annotate e) = a at hexpr ⊢
    generalize evaluator.expr t (s.annotate e) = b at hexpr ⊢
    cases hexpr with
    | ok hext hst hv =>
      refine .ok hext hst ⟨fun p hp => ?_, congrArg StatementResult.evaluated hv.2⟩
      cases hp
      exact hv.1
    | error hext hst => exact .error hext hst
  | define x e span =>
    have hexpr := h.expr hhost (s.annotateBinding x.text e)
    rw [executeWith_define, executeWith_define, h.annotateBinding]
    generalize framedEvaluator.expr s (s.annotateBinding x.text e) = a at hexpr ⊢
    generalize evaluator.expr t (s.annotateBinding x.text e) = b at hexpr ⊢
    cases hexpr with
    | ok hext hst hv =>
      refine .ok hext (hst.binding x.text hv) ⟨fun p hp => ?_, ?_⟩
      · cases hp
        exact hv.1
      · exact congrArg (StatementResult.bound x.text) hv.2
    | error hext hst => exact .error hext hst
  | contract x c span =>
    have hresult : (StatementResult.contract x.text c.render).ReadsAs r
        (.contract x.text c.render) := ⟨nofun, rfl⟩
    cases hon : s.contracts with
    | false =>
      rw [executeWith_contract_off _ hon, executeWith_contract_off _ (h.contracts.trans hon)]
      exact .ok (.refl r) h hresult
    | true =>
      have hcontract := h.contract hhost c
      -- A declaration looks at the switch after the contract was resolved, so the evaluator must
      -- not have changed it.
      have huntouched := conserves_framedEvaluator.contract s c
      rw [executeWith_contract _ hon x c span (huntouched.contracts.trans hon),
        executeWith_contract evaluator (h.contracts.trans hon) x c span (h.contracts.trans hon)]
      generalize framedEvaluator.contract s c = a at hcontract ⊢
      generalize evaluator.contract t c = b at hcontract ⊢
      cases hcontract with
      | ok hext hst hk => exact .ok hext (hst.declaring x.text c) (hresult.mono hext)
      | error hext hst => exact .error hext hst

/-! ### Runs -/

omit [Host] in
theorem recordErrors (h : s.ReadsAs r t) (errors : List SyntaxError) :
    (s.recordErrors errors).ReadsAs r (t.recordErrors errors) := by
  unfold Session.recordErrors
  induction errors generalizing s t with
  | nil => exact h
  | cons e errors ih =>
    exact ih (h.record_error (.malformed e))

/-- Statements that are run one after the other keep sessions in step. -/
theorem runStatements (hhost : Host.Uniform) (h : s.ReadsAs r t) (stmts : List Stmt)
    (errors : List SyntaxError) :
    ∃ r', r.Extends r' ∧ (Session.runStatements executeFramed s stmts errors).ReadsAs r'
      (Session.runStatements Session.execute t stmts errors) := by
  induction stmts generalizing r s t errors with
  | nil => exact ⟨r, .refl r, h.recordErrors errors⟩
  | cons stmt stmts ih =>
    simp only [Session.runStatements]
    have hexecute := (h.recordErrors
      (errors.takeWhile fun e => e.span.start < stmt.span.start)).execute hhost stmt
    generalize executeFramed _ stmt = a at hexecute ⊢
    generalize Session.execute _ stmt = b at hexecute ⊢
    cases hexecute with
    | ok hext hst hresult =>
      obtain ⟨r'', hext', hrest⟩ := ih (hst.record_ok hresult) _
      exact ⟨r'', hext.trans hext', hrest⟩
    | error hext hst =>
      obtain ⟨r'', hext', hrest⟩ := ih (hst.record_error (.fault _)) _
      exact ⟨r'', hext.trans hext', hrest⟩

omit [Host] in
/-- A primitive function that is offered is accepted by both sessions or rejected by both. -/
theorem registerNative (h : s.ReadsAs r t) (b : Builtin) :
    (t.registerNative b).1 = (s.registerNative b).1 ∧
      (s.registerNative b).2.ReadsAs r (t.registerNative b).2 := by
  rw [registerNative_eq, registerNative_eq]
  cases b.check with
  | error e => exact ⟨rfl, h⟩
  | ok _ =>
    -- Both sessions give the new function the same identity, and it is bound in no environment.
    have hnative : Value.ReadsAs r
        (.closure (.native s.workspace.counters.identity b.name b.type b.body))
        (.closure (.native t.workspace.counters.identity b.name b.type b.body)) := by
      refine ⟨Value.all_closure.mpr (Closure.all_native.mpr trivial), ?_⟩
      rw [Value.relabel_closure, Closure.relabel, h.counters]
      rfl
    refine ⟨rfl, h.contracts, h.store.define hnative b.name, ?_, h.scopes, h.log⟩
    exact congrArg (fun c : Counters => { c with identity := c.identity + 1 }) h.counters

/-- Whatever happens to both sessions keeps them in step. -/
theorem after (hhost : Host.Uniform) (h : s.ReadsAs r t) (event : Event) :
    ∃ r', r.Extends r' ∧
      (s.after executeFramed event).ReadsAs r' (t.after Session.execute event) := by
  have hclear : s.clear.ReadsAs r t.clear :=
    ⟨h.contracts, h.store, h.counters, h.scopes, .empty⟩
  cases event with
  | run source => exact hclear.runStatements hhost _ _
  | runProgram p => exact hclear.runStatements hhost _ _
  | registerNative b => exact ⟨r, .refl r, (h.registerNative b).2⟩

end Host

end ReadsAs

/-! ### Histories -/

/-- Nothing but the global frame has been opened in a new session. -/
theorem start_readsAs (contracts : Bool) :
    (Session.start contracts).ReadsAs ⟨(· = Store.global), .frames⟩ (.start contracts) := by
  let r : Readback := ⟨(· = Store.global), .frames⟩
  -- The record starts with the global chain alone, and reading back changes nothing yet.
  have hsize : 0 < (Session.start contracts).workspace.store.frames.size :=
    (ready_start contracts).frames
  have hlabels : Value.relabel r.labels = id := Value.relabel_none_eq_id
  refine ⟨rfl, ⟨hsize, hsize, ⟨rfl, rfl⟩, fun name => ?_, ?_, ?_, ?_⟩, rfl, rfl, .empty⟩
  · rw [hlabels, Option.map_id, id]
  · refine Workspace.install_of_register (P := fun w => w.store.Each _) Store.each_init ?_
    intro w b hw _
    exact hw.define _ b.name (Value.all_closure.mpr (Closure.all_native.mpr trivial))
  · intro i hi
    cases hi
    rfl
  · intro i o os hi
    cases hi

variable [Host]

/-- **Sessions stay in step through every history.** After the same runs and registrations, the
session whose statements are evaluated on frames reads as the other one. -/
theorem history_readsAs (hhost : Host.Uniform) (contracts : Bool) (events : List Event) :
    ∃ r, (history executeFramed contracts events).ReadsAs r
      (history execute contracts events) := by
  have hfold : ∀ {r : Readback} {s t : Session}, s.ReadsAs r t →
      ∃ r, (events.foldl (after executeFramed) s).ReadsAs r (events.foldl (after execute) t) := by
    induction events with
    | nil => exact fun h => ⟨_, h⟩
    | cons event events ih =>
      intro r s t h
      obtain ⟨r', -, hnext⟩ := h.after hhost event
      exact ih hnext
  exact hfold (start_readsAs contracts)

/-- What can be seen of the two sessions is the same, up to the frames in which functions were
made: the results, the failures and the outcome of the last run, the global bindings, the
declarations and the counters. -/
theorem history_agrees (hhost : Host.Uniform) (contracts : Bool) (events : List Event) :
    let s := history executeFramed contracts events
    let t := history execute contracts events
    t.failures = s.failures ∧ t.scopes = s.scopes ∧
      t.workspace.counters = s.workspace.counters ∧
      ∃ ρ : Relabelling, ρ.place = id ∧ ρ.identity = id ∧
        t.results = s.results.map (StatementResult.relabel ρ) ∧
        t.outcome = s.outcome.relabel ρ ∧
        ∀ name, t.get? name = (s.get? name).map (Value.relabel ρ) := by
  intro s t
  obtain ⟨r, h⟩ := history_readsAs hhost contracts events
  refine ⟨congrArg Array.toList h.log.failures, h.scopes, h.counters, r.labels, rfl, rfl,
    h.log.results_eq, h.log.outcome_eq, fun name => ?_⟩
  have hget := h.store.get? h.store.global.1 name
  rw [← h.store.global.2] at hget
  exact hget

/-- The sessions that are reached are those with a history. -/
theorem reachable_iff_history {s : Session} :
    s.Reachable ↔ ∃ contracts events, s = history execute contracts events := by
  constructor
  · -- A reachable session is built from the last event inwards, a history from the first one on.
    have hafter : ∀ {s : Session} event,
        (∃ contracts events, s = history execute contracts events) →
          ∃ contracts events, s.after execute event = history execute contracts events := by
      rintro s event ⟨contracts, events, rfl⟩
      refine ⟨contracts, events ++ [event], ?_⟩
      rw [history, history, List.foldl_append, List.foldl_cons, List.foldl_nil]
    intro h
    induction h with
    | start contracts => exact ⟨contracts, [], rfl⟩
    | run source _ ih => exact hafter (.run source) ih
    | runProgram p _ ih => exact hafter (.runProgram p) ih
    | registerNative b _ ih => exact hafter (.registerNative b) ih
  · rintro ⟨contracts, events, rfl⟩
    have hfold : ∀ s : Session, s.Reachable → (events.foldl (after execute) s).Reachable := by
      induction events with
      | nil => exact fun _ h => h
      | cons event events ih =>
        intro s h
        refine ih _ ?_
        cases event with
        | run source => exact h.run source
        | runProgram p => exact h.runProgram p
        | registerNative b => exact h.registerNative b
    exact hfold _ (.start contracts)

end Session

/-- In a program with a function on numbers and one that gives its argument back, a closure or not,
sessions stay in step. -/
theorem Host.uniform_doubling :
    let _ : Host := .doubling
    Host.Uniform := by
  intro _
  refine ⟨fun env code args => ?_, fun opened code args v hargs hv => ?_⟩
  · change Host.doubling.run code _ =
      (Relabelling.reading env).outcome _ (Host.doubling.run code args)
    rcases args with _ | ⟨v, _ | ⟨w, args⟩⟩ <;> rcases code with _ | _ | code
    -- Only the function on numbers looks at its first argument.
    case cons.nil.zero | cons.cons.zero =>
      cases v with
      | closure c =>
        rw [List.map_cons, Value.relabel_closure]
        rfl
      | _ => rfl
    all_goals rfl
  · rcases Host.doubling_cases hv with hprim | hmem
    · exact Value.all_of_isClosure hprim
    · exact hargs v hmem

end ContractML
