import ContractML.Proofs.Placement
import ContractML.Session.Basic

/-!
# What statements do

Running a statement is evaluating one tree over the frames of the session and writing down the
outcome. The equations below say so for each kind of statement, with the tree that the monitor makes
of the given one and the counters that the evaluation leaves.

A run interleaves the results of its statements with the syntax errors. The statements themselves
are run one after the other, whatever the errors are. Results and failures are recorded in two
lists, and a statement that fails is recorded in both; every record keeps the two in step.

## Main definitions

* `Session.annotate`, `Session.annotateBinding` — the tree that is evaluated.
* `Session.counting`, `Session.declaring` — a session with other counters, or one more declaration.
* `RunLog.ofResults` — the two lists of a run, in step.
* `Session.executeAll` — statements run one after the other.
* `Session.interleave` — results with the syntax errors between them.

## Main results

* `Session.executeWith_expr`, `Session.executeWith_define`, `Session.executeWith_contract` — one
  statement, given how to evaluate.
* `Session.execute_expr`, `Session.execute_define`, `Session.execute_contract` — one statement.
* `RunLog.record_ofResults` — a record keeps the failures in step with the results.
* `RunLog.outcome_ofResults` — the outcome of a run from its results.
* `Session.runStatements_eq`, `Session.runReading_eq` — a run of statements.
* `Session.mem_executeAll_of_fault` — the faults that a run records.
-/

namespace ContractML

/-! ### Results and failures in step -/

namespace StatementResult

/-- The failure of a statement that failed. -/
def failure? : StatementResult → Option Failure
  | failed f => some f
  | _ => none

/-- The result of a statement that was run. -/
def ofExcept : Except Fault StatementResult → StatementResult
  | .ok r => r
  | .error f => failed (.fault f)

/-- The failures among results, in order. -/
def failures (results : List StatementResult) : List Failure := results.filterMap failure?

end StatementResult

theorem StatementResult.failures_cons_eq_nil_iff {r : StatementResult}
    {rs : List StatementResult} :
    failures (r :: rs) = [] ↔ r.failure? = none ∧ failures rs = [] := by
  cases r <;> simp [failures, failure?]

namespace RunLog

/-- The failures among results, and the results. -/
def ofResults (rs : List StatementResult) : RunLog :=
  ⟨(StatementResult.failures rs).toArray, rs.toArray⟩

@[simp] theorem toList_results_ofResults (rs : List StatementResult) :
    (ofResults rs).results.toList = rs := rfl

@[simp] theorem toList_failures_ofResults (rs : List StatementResult) :
    (ofResults rs).failures.toList = StatementResult.failures rs := rfl

/-- A record keeps the failures in step with the results, if no failure passes for a result. -/
theorem record_ofResults (rs : List StatementResult) {r : Except Failure StatementResult}
    (h : ∀ result, r = .ok result → result.failure? = none) :
    (ofResults rs).record r =
      ofResults (rs ++ [match r with | .ok result => result | .error f => .failed f]) := by
  cases r with
  | ok result =>
    have hnone : StatementResult.failures [result] = [] :=
      StatementResult.failures_cons_eq_nil_iff.mpr ⟨h result rfl, rfl⟩
    simp only [record, ofResults, StatementResult.failures, List.filterMap_append,
      List.push_toArray]
    rw [StatementResult.failures] at hnone
    rw [hnone, List.append_nil]
  | error f =>
    simp only [record, ofResults, StatementResult.failures, List.filterMap_append,
      List.push_toArray]
    rfl

/-- The outcome of lists in step: a failure of any statement, else the last value. -/
theorem outcome_ofResults (rs : List StatementResult) :
    (ofResults rs).outcome =
      if StatementResult.failures rs = [] then
        match (rs.filterMap StatementResult.value?).getLast? with
        | some (value, name) => .finished value name
        | none => .empty
      else .errored := by
  have hlast : rs.reverse.findSome? StatementResult.value? =
      (rs.filterMap StatementResult.value?).getLast? := by
    rw [← List.head?_filterMap, List.filterMap_reverse, List.head?_reverse]
  have hempty : (ofResults rs).failures.isEmpty = true ↔ StatementResult.failures rs = [] := by
    simp [ofResults]
  unfold outcome
  rw [toList_results_ofResults, hlast]
  by_cases h : StatementResult.failures rs = []
  · exact (if_pos (hempty.mpr h)).trans (if_pos h).symm
  · exact (if_neg fun he => h (hempty.mp he)).trans (if_neg h).symm

end RunLog

namespace Session

/-! ### One statement -/

/-- The session with other counters. -/
def counting (s : Session) (c : Counters) : Session :=
  { s with workspace := { s.workspace with counters := c } }

/-- The session with one more contract declaration. -/
def declaring (s : Session) (name : String) (c : ContractExpr) : Session :=
  { s with scopes := s.scopes.declare name c }

/-- The session with a global binding. -/
def binding (s : Session) (name : String) (v : Value) : Session :=
  { s with workspace := s.workspace.define Store.global name v }

/-- The tree that is evaluated for an expression. -/
def annotate (s : Session) (e : Expr) : Expr :=
  if s.contracts then e.monitor s.scopes else e

/-- The tree that is evaluated for the right-hand side of a global binding. -/
def annotateBinding (s : Session) (name : String) (e : Expr) : Expr :=
  if s.contracts then ((e.monitorBinding name).run s.scopes).1 else e

theorem monitor_expr (s : Session) (e : Expr) (span : Span) :
    s.monitor (.expr e span) = (.expr (s.annotate e) span, s) := by
  unfold monitor annotate
  split <;> rfl

theorem monitor_define (s : Session) (x : Ident) (e : Expr) (span : Span) :
    s.monitor (.define x e span) = (.define x (s.annotateBinding x.text e) span, s) := by
  have hscopes : ((e.monitorBinding x.text).run s.scopes).2 = s.scopes :=
    congrArg Prod.snd (e.run_monitorBinding x.text s.scopes)
  unfold monitor annotateBinding
  split
  · change (Stmt.define x _ span,
      { s with scopes := ((e.monitorBinding x.text).run s.scopes).2 }) = _
    rw [hscopes]
    rfl
  · rfl

/-- The right-hand side of a global binding is visited inside a scope of its own, and then wrapped
by the contract of the name. -/
theorem annotateBinding_eq (s : Session) (name : String) (e : Expr) :
    s.annotateBinding name e =
      if s.contracts then
        match s.scopes.lookup? name with
        | some k => .monitored (e.monitor (s.scopes.push name)) k name s.scopes.current?
        | none => e.monitor (s.scopes.push name)
      else e := by
  have hvalue := congrArg Prod.fst (e.run_monitorBinding name s.scopes)
  unfold annotateBinding
  split
  · exact hvalue
  · rfl

/-- Without annotations, the tree that is evaluated for a plain expression is that expression. -/
theorem erase_annotate (s : Session) {e : Expr} (h : e.Plain) : (s.annotate e).erase = e := by
  unfold annotate
  split
  · exact Expr.erase_monitor s.scopes h
  · exact h.erase_eq

theorem erase_annotateBinding (s : Session) (name : String) {e : Expr} (h : e.Plain) :
    (s.annotateBinding name e).erase = e := by
  unfold annotateBinding
  split
  · have hplain : (Stmt.define ⟨name, .nowhere⟩ e .nowhere).Plain := h
    exact (Stmt.define.inj (Stmt.erase_monitor hplain s.scopes)).2.1
  · exact h.erase_eq

section Evaluator

variable (ev : Evaluator)

/-- An expression is evaluated as the session annotates it. -/
theorem executeWith_expr (s : Session) (e : Expr) (span : Span) :
    s.executeWith ev (.expr e span) =
      match ev.expr s (s.annotate e) with
      | (.ok v, s') => (.ok (.evaluated v), s')
      | (.error f, s') => (.error f, s') := by
  generalize houtcome : ev.expr s (s.annotate e) = outcome
  obtain ⟨result, s'⟩ := outcome
  cases result <;> simp only [executeWith, monitor_expr, houtcome]

/-- The value of a global binding is evaluated as the session annotates it, and bound. -/
theorem executeWith_define (s : Session) (x : Ident) (e : Expr) (span : Span) :
    s.executeWith ev (.define x e span) =
      match ev.expr s (s.annotateBinding x.text e) with
      | (.ok v, s') => (.ok (.bound x.text v), s'.binding x.text v)
      | (.error f, s') => (.error f, s') := by
  generalize houtcome : ev.expr s (s.annotateBinding x.text e) = outcome
  obtain ⟨result, s'⟩ := outcome
  cases result <;> simp only [executeWith, monitor_define, houtcome, Session.binding]

/-- A contract is declared once its predicates have been evaluated, if this leaves the session
checking contracts. -/
theorem executeWith_contract {s : Session} (h : s.contracts = true) (x : Ident) (c : ContractExpr)
    (span : Span) (hev : (ev.contract s c).2.contracts = true) :
    s.executeWith ev (.contract x c span) =
      match ev.contract s c with
      | (.ok _, s') => (.ok (.contract x.text c.render), s'.declaring x.text c)
      | (.error f, s') => (.error f, s') := by
  simp only [executeWith, declareWith, h, if_true]
  generalize ev.contract s c = outcome at hev ⊢
  -- Declaring reads `s.contracts` again in the session after the evaluation.
  obtain ⟨result, on, w, scopes, log⟩ := outcome
  change on = true at hev
  subst hev
  cases result <;> rfl

/-- Without contracts a declaration does nothing. -/
theorem executeWith_contract_off {s : Session} (h : s.contracts = false) (x : Ident)
    (c : ContractExpr) (span : Span) :
    s.executeWith ev (.contract x c span) = (.ok (.contract x.text c.render), s) := by
  simp [executeWith, declareWith, h]

end Evaluator

/-- An expression is evaluated in the global frame. -/
theorem execute_expr [Host] (s : Session) (e : Expr) (span : Span) :
    s.execute (.expr e span) =
      match (s.annotate e).eval s.workspace.store globalEnv s.workspace.counters with
      | .ok v c => (.ok (.evaluated v), s.counting c)
      | .error f c => (.error f, s.counting c) := by
  simp only [execute, executeWith_expr, evaluator, evaluateExpr, evaluate, Workspace.evaluate]
  cases (s.annotate e).eval s.workspace.store globalEnv s.workspace.counters <;> rfl

/-- The value of a global binding is evaluated in the global frame and bound there. -/
theorem execute_define [Host] (s : Session) (x : Ident) (e : Expr) (span : Span) :
    s.execute (.define x e span) =
      match (s.annotateBinding x.text e).eval s.workspace.store globalEnv s.workspace.counters with
      | .ok v c => (.ok (.bound x.text v), (s.counting c).binding x.text v)
      | .error f c => (.error f, s.counting c) := by
  simp only [execute, executeWith_define, evaluator, evaluateExpr, evaluate, Workspace.evaluate]
  cases (s.annotateBinding x.text e).eval s.workspace.store globalEnv s.workspace.counters <;> rfl

/-- A contract is declared once its predicates have been evaluated. -/
theorem execute_contract [Host] {s : Session} (h : s.contracts = true) (x : Ident)
    (c : ContractExpr) (span : Span) :
    s.execute (.contract x c span) =
      match c.resolve s.workspace.store globalEnv s.workspace.counters with
      | .ok _ k => (.ok (.contract x.text c.render), (s.counting k).declaring x.text c)
      | .error f k => (.error f, s.counting k) := by
  rw [execute, executeWith_contract evaluator h x c span h]
  simp only [evaluator, evaluate, Workspace.evaluate]
  cases c.resolve s.workspace.store globalEnv s.workspace.counters <;> rfl

/-- Without contracts a declaration does nothing. -/
theorem execute_contract_off [Host] {s : Session} (h : s.contracts = false) (x : Ident)
    (c : ContractExpr) (span : Span) :
    s.execute (.contract x c span) = (.ok (.contract x.text c.render), s) :=
  executeWith_contract_off evaluator h x c span

/-! ### Runs -/

/-- The session with another log. -/
def logging (s : Session) (l : RunLog) : Session := { s with log := l }

@[simp] theorem log_logging (s : Session) (l : RunLog) : (s.logging l).log = l := rfl

@[simp] theorem contracts_logging (s : Session) (l : RunLog) :
    (s.logging l).contracts = s.contracts := rfl

@[simp] theorem workspace_logging (s : Session) (l : RunLog) :
    (s.logging l).workspace = s.workspace := rfl

@[simp] theorem scopes_logging (s : Session) (l : RunLog) : (s.logging l).scopes = s.scopes := rfl

@[simp] theorem annotate_logging (s : Session) (l : RunLog) (e : Expr) :
    (s.logging l).annotate e = s.annotate e := rfl

@[simp] theorem annotateBinding_logging (s : Session) (l : RunLog) (name : String) (e : Expr) :
    (s.logging l).annotateBinding name e = s.annotateBinding name e := rfl

@[simp] theorem logging_logging (s : Session) (l l' : RunLog) :
    (s.logging l).logging l' = s.logging l' := rfl

theorem record_logging (s : Session) (l : RunLog) (r : Except Failure StatementResult) :
    (s.logging l).record r = s.logging (l.record r) := rfl

/-- A statement does not look at the log, and leaves it as it is. -/
theorem execute_logging [Host] (s : Session) (l : RunLog) (stmt : Stmt) :
    (s.logging l).execute stmt = ((s.execute stmt).1, (s.execute stmt).2.logging l) := by
  cases stmt with
  | expr e span =>
    rw [execute_expr, execute_expr, annotate_logging, workspace_logging]
    cases (s.annotate e).eval s.workspace.store globalEnv s.workspace.counters <;> rfl
  | define x e span =>
    rw [execute_define, execute_define, annotateBinding_logging, workspace_logging]
    cases (s.annotateBinding x.text e).eval s.workspace.store globalEnv s.workspace.counters <;> rfl
  | contract x c span =>
    cases hs : s.contracts with
    | false => rw [execute_contract_off hs, execute_contract_off (s := s.logging l) hs]
    | true =>
      rw [execute_contract hs, execute_contract (s := s.logging l) hs, workspace_logging]
      cases c.resolve s.workspace.store globalEnv s.workspace.counters <;> rfl

/-- A statement that does not fail has no failure for a result. -/
theorem failure?_of_execute_eq_ok [Host] {s : Session} {stmt : Stmt} {r : StatementResult}
    (h : (s.execute stmt).1 = .ok r) : r.failure? = none := by
  cases stmt with
  | expr e span =>
    rw [execute_expr] at h
    split at h <;> cases h
    rfl
  | define x e span =>
    rw [execute_define] at h
    split at h <;> cases h
    rfl
  | contract x c span =>
    cases hs : s.contracts with
    | false =>
      rw [execute_contract_off hs] at h
      cases h
      rfl
    | true =>
      rw [execute_contract hs] at h
      split at h <;> cases h
      rfl

/-- The results of statements run one after the other, and the session after them. -/
def executeAll [Host] : Session → List Stmt → List StatementResult × Session
  | s, [] => ([], s)
  | s, stmt :: stmts =>
    (.ofExcept (s.execute stmt).1 :: ((s.execute stmt).2.executeAll stmts).1,
      ((s.execute stmt).2.executeAll stmts).2)

/-- The results of malformed statements. -/
def malformed (errors : List SyntaxError) : List StatementResult :=
  errors.map fun e => .failed (.malformed e)

/-- The results of statements with each syntax error before the first statement that begins after
it. -/
def interleave : List Stmt → List StatementResult → List SyntaxError → List StatementResult
  | stmt :: stmts, r :: rs, errors =>
    malformed (errors.takeWhile fun e => e.span.start < stmt.span.start) ++
      r :: interleave stmts rs (errors.dropWhile fun e => e.span.start < stmt.span.start)
  | _, _, errors => malformed errors

/-- Recording malformed statements keeps the lists in step. -/
theorem recordErrors_ofResults (s : Session) (acc : List StatementResult)
    (errors : List SyntaxError) :
    (s.logging (.ofResults acc)).recordErrors errors =
      s.logging (.ofResults (acc ++ malformed errors)) := by
  unfold recordErrors
  induction errors generalizing acc with
  | nil => rw [malformed, List.map_nil, List.append_nil, List.foldl_nil]
  | cons e errors ih =>
    rw [List.foldl_cons, record_logging, RunLog.record_ofResults acc (fun _ h => by cases h), ih,
      List.append_assoc]
    rfl

/-- Recording the result of a statement keeps the lists in step. -/
theorem record_execute_ofResults [Host] (s : Session) (stmt : Stmt)
    (acc : List StatementResult) :
    (((s.logging (.ofResults acc)).execute stmt).2.record
        (((s.logging (.ofResults acc)).execute stmt).1.mapError .fault)) =
      (s.execute stmt).2.logging (.ofResults (acc ++ [.ofExcept (s.execute stmt).1])) := by
  rw [execute_logging, record_logging]
  cases hr : (s.execute stmt).1 with
  | ok r =>
    have hnone := failure?_of_execute_eq_ok hr
    rw [RunLog.record_ofResults acc]
    · rfl
    · intro result hresult
      cases hresult
      exact hnone
  | error f =>
    rw [RunLog.record_ofResults acc (fun _ h => by cases h)]
    rfl

/-- A run whose lists are in step runs its statements one after the other, puts the syntax errors
between their results, and leaves the lists in step. -/
theorem runStatements_eq [Host] (s : Session) (stmts : List Stmt) (errors : List SyntaxError)
    (acc : List StatementResult) :
    runStatements execute (s.logging (.ofResults acc)) stmts errors =
      (s.executeAll stmts).2.logging
        (.ofResults (acc ++ interleave stmts (s.executeAll stmts).1 errors)) := by
  -- What has been recorded so far is generalised with the session.
  induction stmts generalizing s errors acc with
  | nil => exact recordErrors_ofResults s acc errors
  | cons stmt stmts ih =>
    simp only [runStatements, recordErrors_ofResults]
    rw [record_execute_ofResults, ih]
    simp only [executeAll, interleave, List.append_assoc, List.singleton_append]

theorem length_executeAll [Host] (s : Session) (stmts : List Stmt) :
    (s.executeAll stmts).1.length = stmts.length := by
  induction stmts generalizing s with
  | nil => rfl
  | cons stmt stmts ih => rw [executeAll, List.length_cons, ih, List.length_cons]

/-- Without syntax errors the results of a run are those of its statements. -/
theorem interleave_nil (stmts : List Stmt) (rs : List StatementResult)
    (h : rs.length = stmts.length) : interleave stmts rs [] = rs := by
  induction stmts generalizing rs with
  | nil =>
    rw [List.length_nil, List.length_eq_zero_iff] at h
    rw [h]
    rfl
  | cons stmt stmts ih =>
    cases rs with
    | nil => simp at h
    | cons r rs =>
      rw [List.length_cons, List.length_cons, Nat.add_right_cancel_iff] at h
      rw [interleave, List.takeWhile_nil, List.dropWhile_nil, ih rs h]
      rfl

/-- What stands among the results of a run is a result of a statement or a syntax error. -/
theorem mem_interleave {stmts : List Stmt} {rs : List StatementResult} {errors : List SyntaxError}
    {r : StatementResult} (h : r ∈ interleave stmts rs errors) :
    r ∈ rs ∨ ∃ e, r = .failed (.malformed e) := by
  have hmalformed : ∀ es, r ∈ malformed es → ∃ e, r = .failed (.malformed e) := by
    intro es hr
    obtain ⟨e, _, rfl⟩ := List.mem_map.mp hr
    exact ⟨e, rfl⟩
  fun_induction interleave stmts rs errors with
  | case1 stmt stmts r' rs errors ih =>
    rcases List.mem_append.mp h with h | h
    · exact .inr (hmalformed _ h)
    · rcases List.mem_cons.mp h with rfl | h
      · exact .inl List.mem_cons_self
      · exact (ih h).imp_left (List.mem_cons_of_mem r')
  | case2 => exact .inr (hmalformed _ h)

/-- The two lists that a run leaves are in step: its results, and the failures among them. -/
theorem runReading_eq [Host] (s : Session) (r : Reading) :
    s.runReading r = { (s.executeAll r.program.body).2 with
      log := .ofResults
        (interleave r.program.body (s.executeAll r.program.body).1 r.errors) } := by
  change runStatements execute (s.logging (.ofResults [])) r.program.body r.errors = _
  rw [runStatements_eq, List.nil_append]
  rfl

/-- A fault that a run records is the fault of a statement. -/
theorem mem_executeAll_of_fault [Host] {s : Session} {r : Reading} {f : Fault}
    (h : .fault f ∈ (s.runReading r).failures) :
    .failed (.fault f) ∈ (s.executeAll r.program.body).1 := by
  rw [runReading_eq] at h
  obtain ⟨result, hmem, hresult⟩ := List.mem_filterMap.mp h
  cases result with
  | failed failure =>
    cases hresult
    rcases mem_interleave hmem with hmem | ⟨e, he⟩
    · exact hmem
    · cases he
  | _ => cases hresult

/-- A program without syntax errors leaves the results of its statements. -/
theorem runProgram_eq [Host] (s : Session) (p : Program) :
    s.runProgram p =
      { (s.executeAll p.body).2 with log := .ofResults (s.executeAll p.body).1 } := by
  rw [runProgram, runReading_eq, interleave_nil p.body _ (s.length_executeAll p.body)]

/-! ### Registrations -/

/-- The session with a primitive function bound globally under a new identity. -/
def registered (s : Session) (b : Builtin) : Session :=
  { s with workspace := s.workspace.registered Store.global b }

/-- An offer is accepted exactly if its check is passed; a rejected one changes nothing. -/
theorem registerNative_eq (s : Session) (b : Builtin) :
    s.registerNative b = match b.check with
      | .ok _ => (.ok (), s.registered b)
      | .error e => (.error e, s) := by
  unfold registerNative
  rw [Workspace.run_register]
  cases b.check <;> rfl

theorem register_eq_ok {s s' : Session} {b : Builtin} (h : s.register b = .ok s') :
    b.check = .ok () ∧ s' = s.registered b := by
  rw [register, registerNative_eq] at h
  cases hb : b.check with
  | ok _ =>
    rw [hb] at h
    cases h
    exact ⟨rfl, rfl⟩
  | error e =>
    rw [hb] at h
    cases h

/-- What every accepted registration keeps, every registration keeps. -/
theorem registerNative_of_registered {P : Session → Prop} {s : Session} {b : Builtin} (h : P s)
    (hstep : b.check = .ok () → P (s.registered b)) : P (s.registerNative b).2 := by
  rw [registerNative_eq]
  cases hb : b.check with
  | ok _ => exact hstep hb
  | error e => exact h

end Session

end ContractML
