import ContractML.Proofs.Statements

/-!
# A run evaluates the monitored program

A program can be monitored in one pass, which declares every contract that it meets. A session
monitors the statements one at a time, between evaluations, and declares a contract only if its
predicates evaluate at that moment. Both make the same trees: those that a fresh session evaluates
in a run are those of the monitored program, once the declarations that failed are left out.

## Main definitions

* `Session.perform` — a statement run as it stands, with the contracts that are in it.
* `Session.trace` — statements run one after the other, with the trees that are evaluated.
* `Stmt.settled` — statements without the declarations that failed.

## Main results

* `Session.trace_eq` — a trace has the results of the run, and leaves the same session.
* `Session.trees_trace` — the trees of a trace are those of the monitor's pass.
* `Session.run_evaluates_monitored_program` — **a run evaluates the monitored program**.
-/

namespace ContractML

/-- Whether a statement declares a contract. -/
def Stmt.isContract : Stmt → Bool
  | .contract _ _ _ => true
  | _ => false

/-- The statements without the declarations that failed, given the results of all statements. -/
def Stmt.settled (stmts : List Stmt) (results : List StatementResult) : List Stmt :=
  ((stmts.zip results).filter fun x => !(x.1.isContract && x.2.failure?.isSome)).map Prod.fst

theorem Stmt.settled_cons (stmt : Stmt) (stmts : List Stmt) (r : StatementResult)
    (results : List StatementResult) :
    Stmt.settled (stmt :: stmts) (r :: results) =
      if stmt.isContract && r.failure?.isSome then Stmt.settled stmts results
      else stmt :: Stmt.settled stmts results := by
  simp only [Stmt.settled, List.zip_cons_cons, List.filter_cons]
  cases stmt.isContract && r.failure?.isSome <;> rfl

/-- The program without the declarations that failed, given the results of all statements. -/
def Program.settled (p : Program) (results : List StatementResult) : Program :=
  { p with body := Stmt.settled p.body results }

/-- The statements that are evaluated: all but the declarations. -/
def Stmt.evaluated (stmts : List Stmt) : List Stmt := stmts.filter fun stmt => !stmt.isContract

theorem Stmt.evaluated_cons (stmt : Stmt) (stmts : List Stmt) :
    Stmt.evaluated (stmt :: stmts) =
      if stmt.isContract then Stmt.evaluated stmts else stmt :: Stmt.evaluated stmts := by
  rw [Stmt.evaluated, List.filter_cons]
  cases stmt.isContract <;> rfl

/-- The monitor makes a declaration of a declaration, and of nothing else. -/
theorem Stmt.isContract_monitor (stmt : Stmt) (scopes : ScopeStack) :
    (stmt.monitor.run scopes).1.isContract = stmt.isContract := by
  cases stmt with
  | contract x c span => rfl
  | expr e span => rfl
  | define x e span => rw [Stmt.run_monitor_define]; rfl

namespace Session

/-! ### Traces -/

/-- Runs a statement as it stands: the trees in it go to the evaluator unchanged. -/
def perform (s : Session) : Stmt → Except Fault StatementResult × Session
  | .expr e _ =>
    match s.evaluateExpr e with
    | (.ok v, s) => (.ok (.evaluated v), s)
    | (.error f, s) => (.error f, s)
  | .define x e _ =>
    match s.evaluateExpr e with
    | (.ok v, s) => (.ok (.bound x.text v), s.binding x.text v)
    | (.error f, s) => (.error f, s)
  | .contract x c _ => (.ok (.contract x.text c.render), s)

/-- Statements run one after the other: the statements that are handed to the evaluator, the
results, and the session at the end. -/
def trace : Session → List Stmt → List Stmt × List StatementResult × Session
  | s, [] => ([], [], s)
  | s, .contract x c span :: stmts =>
    let (result, s) := s.declare x c span
    let (trees, results, s) := s.trace stmts
    (trees, .ofExcept result :: results, s)
  | s, stmt :: stmts =>
    let (tree, s) := s.monitor stmt
    let (result, s) := s.perform tree
    let (trees, results, s) := s.trace stmts
    (tree :: trees, .ofExcept result :: results, s)

/-- A statement that declares nothing is monitored, and then run as it stands. -/
theorem execute_eq_perform (s : Session) {stmt : Stmt} (h : stmt.isContract = false) :
    s.execute stmt = (s.monitor stmt).2.perform (s.monitor stmt).1 := by
  cases stmt with
  | contract x c span => cases h
  | expr e span =>
    rw [execute, executeWith_expr, monitor_expr]
    rfl
  | define x e span =>
    rw [execute, executeWith_define, monitor_define]
    rfl

theorem trace_contract (s : Session) (x : Ident) (c : ContractExpr) (span : Span)
    (stmts : List Stmt) :
    s.trace (.contract x c span :: stmts) =
      (((s.execute (.contract x c span)).2.trace stmts).1,
        .ofExcept (s.execute (.contract x c span)).1 ::
          ((s.execute (.contract x c span)).2.trace stmts).2.1,
        ((s.execute (.contract x c span)).2.trace stmts).2.2) := rfl

theorem trace_of_isContract (s : Session) {stmt : Stmt} (h : stmt.isContract = false)
    (stmts : List Stmt) :
    s.trace (stmt :: stmts) =
      ((s.monitor stmt).1 :: ((s.execute stmt).2.trace stmts).1,
        .ofExcept (s.execute stmt).1 :: ((s.execute stmt).2.trace stmts).2.1,
        ((s.execute stmt).2.trace stmts).2.2) := by
  rw [s.execute_eq_perform h]
  cases stmt with
  | contract x c span => cases h
  | expr e span => rfl
  | define x e span => rfl

/-- **A trace is a run.** It has the same results, and leaves the same session. -/
theorem trace_eq (s : Session) (stmts : List Stmt) : (s.trace stmts).2 = s.executeAll stmts := by
  induction stmts generalizing s with
  | nil => rfl
  | cons stmt stmts ih =>
    cases h : stmt.isContract with
    | true =>
      cases stmt with
      | contract x c span => rw [trace_contract, ih, executeAll]
      | _ => cases h
    | false => rw [s.trace_of_isContract h, ih, executeAll]

/-! ### The trees of a trace -/

theorem fst_monitor {s : Session} (hon : s.contracts = true) (stmt : Stmt) :
    (s.monitor stmt).1 = (stmt.monitor.run s.scopes).1 := by
  rw [monitor, if_pos hon]
  rfl

/-- A statement that declares nothing leaves the declarations, whether or not it fails. -/
theorem execute_of_isContract (s : Session) {stmt : Stmt} (h : stmt.isContract = false) :
    (s.execute stmt).2.contracts = s.contracts ∧ (s.execute stmt).2.scopes = s.scopes ∧
      (stmt.monitor.run s.scopes).2 = s.scopes := by
  cases stmt with
  | contract x c span => cases h
  | expr e span =>
    rw [execute_expr]
    split <;> exact ⟨rfl, rfl, rfl⟩
  | define x e span =>
    rw [execute_define, Stmt.run_monitor_define]
    split <;> exact ⟨rfl, rfl, rfl⟩

/-- The trees that are evaluated are those that the monitor's pass makes of the statements, without
the declarations that failed. -/
theorem trees_trace {s : Session} (hon : s.contracts = true) (stmts : List Stmt) :
    (s.trace stmts).1 = Stmt.evaluated
      ((Stmt.monitorAll (Stmt.settled stmts (s.executeAll stmts).1)).run s.scopes).1 := by
  -- the pass stands at every moment where the session does: both hold the same declarations
  induction stmts generalizing s with
  | nil => rfl
  | cons stmt stmts ih =>
    cases h : stmt.isContract with
    | false =>
      obtain ⟨hcontracts, hscopes, hmonitor⟩ := s.execute_of_isContract h
      rw [s.trace_of_isContract h, executeAll, Stmt.settled_cons, h, Bool.false_and,
        if_neg Bool.false_ne_true, Stmt.run_monitorAll_cons, hmonitor, Stmt.evaluated_cons,
        Stmt.isContract_monitor, h, if_neg Bool.false_ne_true, ← hscopes,
        ← ih (hcontracts.trans hon), hscopes, s.fst_monitor hon]
    | true =>
      cases stmt with
      | contract x c span =>
        rw [trace_contract, executeAll, Stmt.settled_cons, execute_contract hon]
        cases c.resolve s.workspace.store globalEnv s.workspace.counters with
        | ok k counters =>
          have hrest := ih (s := (s.counting counters).declaring x.text c) hon
          change _ = Stmt.evaluated ((Stmt.monitorAll (.contract x c span :: _)).run s.scopes).1
          rw [Stmt.run_monitorAll_cons, Stmt.evaluated_cons]
          exact hrest
        | error f counters =>
          exact ih (s := s.counting counters) hon
      | _ => cases h

/-- **A run evaluates the monitored program.** Let a session that checks contracts and has no
declarations run a program. The run hands statements to the evaluator as they stand, and has the
results that this gives. In order, these statements are those of the monitored program that declare
nothing, once the declarations that failed in the run are left out. -/
theorem run_evaluates_monitored_program {s : Session} (hon : s.contracts = true)
    (hfresh : s.scopes = .empty) (p : Program) :
    s.runProgram p = { (s.trace p.body).2.2 with log := .ofResults (s.trace p.body).2.1 } ∧
      (s.trace p.body).1 =
        Stmt.evaluated (p.settled (s.runProgram p).results).monitor.body := by
  have hresults : (s.runProgram p).results = (s.executeAll p.body).1 := by
    rw [runProgram_eq, results, RunLog.toList_results_ofResults]
  constructor
  · rw [runProgram_eq, trace_eq]
  · rw [trees_trace hon, hresults, hfresh]
    rfl

/-- The first declaration and the third one do not resolve, and the binding of `f` breaks the second
one. The pass over the whole program would put annotations of all declarations into the trees; the
ones that are evaluated have a single annotation. -/
theorem run_evaluates_monitored_program_failed_declarations :
    let p := (Program.recover ("contract f = missing;; contract f = positive;; let f = 0;;" ++
      "contract g = positive -> absent;; let g x = x;; g 1;;")).program
    let s := Session.start true
    let annotations (stmts : List Stmt) := (stmts.flatMap Stmt.nodes).countP Expr.isMonitored
    (s.runProgram p).results.map (fun r => r.failure?.isSome) =
        [true, false, true, true, false, false] ∧
      (s.trace p.body).1.length = 3 ∧ annotations (s.trace p.body).1 = 1 ∧
      annotations p.monitor.body = 3 ∧
      (s.trace p.body).1 =
        Stmt.evaluated (p.settled (s.runProgram p).results).monitor.body := by
  intro p s annotations
  refine ⟨by decide +kernel, by decide +kernel, by decide +kernel, by decide +kernel, ?_⟩
  exact (run_evaluates_monitored_program rfl rfl p).2

end Session

end ContractML
