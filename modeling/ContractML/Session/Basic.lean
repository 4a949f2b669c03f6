import ContractML.Monitor
import ContractML.Parser.Program
import ContractML.Workspace

/-!
# Sessions

A session runs programs one after the other. Global bindings and contract declarations stay from
one run to the next; the results are those of the last run.

A run goes through the program statement by statement. A statement that fails is reported, changes
nothing, and the next one is run. A malformed statement is reported in its place among the others.

## Main definitions

* `StatementResult`, `Outcome` — what a statement gives, and what a whole run gives.
* `RunLog` — the failures and the results that a run records.
* `Session` — the state between statements.
* `Session.Evaluator`, `Session.executeWith` — one statement, given how to evaluate.
* `Session.execute` — one statement.
* `Session.runProgram`, `Session.run` — a program, and a source text.
-/

namespace ContractML

/-- What a statement gives. -/
inductive StatementResult where
  /-- A name was bound globally. -/
  | bound (name : String) (value : Value)
  /-- An expression was evaluated. -/
  | evaluated (value : Value)
  /-- A contract was declared. -/
  | contract (name : String) (contract : String)
  /-- The statement failed. -/
  | failed (failure : Failure)
  deriving Inhabited

namespace StatementResult

/-- The value of a statement that has one, and the name it was bound to. -/
def value? : StatementResult → Option (Value × Option String)
  | bound name value => some (value, some name)
  | evaluated value => some (value, none)
  | _ => none

end StatementResult

/-- What a whole run gives. -/
inductive Outcome where
  /-- The last value, and the name it was bound to. -/
  | finished (value : Value) (name : Option String)
  /-- A statement failed. -/
  | errored
  /-- No statement gave a value. -/
  | empty
  deriving Inhabited

/-- What a run records as it goes through its statements. -/
structure RunLog where
  /-- The failures, in the order in which they were recorded. -/
  failures : Array Failure
  /-- The results, in the order in which they were recorded. -/
  results : Array StatementResult
  deriving Inhabited

namespace RunLog

/-- Nothing has been recorded. -/
def empty : RunLog := ⟨#[], #[]⟩

/-- Records a result. A failure is recorded twice: as such, and as the result of its statement. -/
def record (l : RunLog) : Except Failure StatementResult → RunLog
  | .ok r => { l with results := l.results.push r }
  | .error f => ⟨l.failures.push f, l.results.push (.failed f)⟩

/-- The outcome of a run: a recorded failure, else the last value among the results. -/
def outcome (l : RunLog) : Outcome :=
  if l.failures.isEmpty then
    match l.results.toList.reverse.findSome? StatementResult.value? with
    | some (value, name) => .finished value name
    | none => .empty
  else .errored

end RunLog

/-- The state of a session between statements. -/
structure Session where
  /-- Whether contracts are attached and checked. -/
  contracts : Bool
  /-- The frames, of which the first is the global one, and the counters. -/
  workspace : Workspace
  /-- The contract declarations. -/
  scopes : ScopeStack
  /-- What the last run recorded. -/
  log : RunLog

namespace Session

/-- A session with the default functions. -/
def start (contracts : Bool) : Session :=
  ⟨contracts, Workspace.init.install Store.global, .empty, .empty⟩

instance : Inhabited Session := ⟨start true⟩

/-- The global environment. -/
def globalEnv : Env := .frames Store.global

/-- The global binding of a name. -/
def get? (s : Session) (name : String) : Option Value := s.workspace.store.get? Store.global name

/-- The global names, in ascending order. -/
def names (s : Session) : List String := s.workspace.store.names Store.global

/-- Binds a primitive function globally, or says why not. -/
def registerNative (s : Session) (b : Builtin) : Except RegistrationError Unit × Session :=
  let (result, workspace) := (Workspace.register Store.global b).run s.workspace
  (result, { s with workspace := workspace })

/-- The session after a registration that is accepted. -/
def register (s : Session) (b : Builtin) : Except RegistrationError Session :=
  match s.registerNative b with
  | (.ok _, s) => .ok s
  | (.error e, _) => .error e

/-- The outcome of an evaluation in the session. -/
def evaluate {α : Type} (s : Session) (x : Store → Eval α) : Except Fault α × Session :=
  let (result, workspace) := s.workspace.evaluate x
  (result, { s with workspace := workspace })

/-- The statement as it is evaluated: with its contracts, if the session checks them. -/
def monitor (s : Session) (stmt : Stmt) : Stmt × Session :=
  if s.contracts then
    let (stmt, scopes) := stmt.monitor.run s.scopes
    (stmt, { s with scopes := scopes })
  else (stmt, s)

/-- How the expressions and contracts of a session are evaluated in its global frame. -/
structure Evaluator where
  /-- The value of an expression. -/
  expr : Session → Expr → Except Fault Value × Session
  /-- The contract that a written one denotes. -/
  contract : Session → ContractExpr → Except Fault Contract × Session

/-- Evaluates an expression in the global frame. -/
def evaluateExpr [Host] (s : Session) (e : Expr) : Except Fault Value × Session :=
  s.evaluate fun store => e.eval store globalEnv

/-- The evaluator that keeps local variables in environments. -/
def evaluator [Host] : Evaluator where
  expr := evaluateExpr
  contract s c := s.evaluate fun store => c.resolve store globalEnv

/-- Declares a contract. If the session checks contracts, its predicates have to evaluate. -/
def declareWith (ev : Evaluator) (s : Session) (name : Ident) (c : ContractExpr) (span : Span) :
    Except Fault StatementResult × Session :=
  let result := StatementResult.contract name.text c.render
  if s.contracts then
    match ev.contract s c with
    | (.error f, s) => (.error f, s)
    | (.ok _, s) => (.ok result, (s.monitor (.contract name c span)).2)
  else (.ok result, s)

/-- Runs one statement, given how to evaluate. -/
def executeWith (ev : Evaluator) (s : Session) (stmt : Stmt) :
    Except Fault StatementResult × Session :=
  match stmt with
  | .contract name c span => s.declareWith ev name c span
  | stmt =>
    match s.monitor stmt with
    | (.expr e _, s) =>
      match ev.expr s e with
      | (.ok v, s) => (.ok (.evaluated v), s)
      | (.error f, s) => (.error f, s)
    | (.define x e _, s) =>
      match ev.expr s e with
      | (.ok v, s) =>
        (.ok (.bound x.text v),
          { s with workspace := s.workspace.define Store.global x.text v })
      | (.error f, s) => (.error f, s)
    | (.contract x c _, s) => (.ok (.contract x.text c.render), s)

/-- Declares a contract. -/
def declare [Host] (s : Session) (name : Ident) (c : ContractExpr) (span : Span) :
    Except Fault StatementResult × Session :=
  s.declareWith evaluator name c span

/-- Runs one statement. -/
def execute [Host] (s : Session) (stmt : Stmt) : Except Fault StatementResult × Session :=
  s.executeWith evaluator stmt

/-- The results of the last run, in order. -/
def results (s : Session) : List StatementResult := s.log.results.toList

/-- The failures of the last run, in order. -/
def failures (s : Session) : List Failure := s.log.failures.toList

/-- The outcome of the last run. -/
def outcome (s : Session) : Outcome := s.log.outcome

/-- Forgets what the last run recorded. -/
def clear (s : Session) : Session := { s with log := .empty }

/-- Records what came of a statement. -/
def record (s : Session) (r : Except Failure StatementResult) : Session :=
  { s with log := s.log.record r }

/-- Records malformed statements. -/
def recordErrors (s : Session) (errors : List SyntaxError) : Session :=
  errors.foldl (fun s e => s.record (.error (.malformed e))) s

/-- How one statement is run. -/
abbrev Execute := Session → Stmt → Except Fault StatementResult × Session

/-- Runs statements, with each syntax error recorded before the first statement that begins after
it. -/
def runStatements (execute : Execute) : Session → List Stmt → List SyntaxError → Session
  | s, [], errors => s.recordErrors errors
  | s, stmt :: stmts, errors =>
    let isBefore (e : SyntaxError) : Bool := e.span.start < stmt.span.start
    let s := s.recordErrors (errors.takeWhile isBefore)
    let (result, s) := execute s stmt
    runStatements execute (s.record (result.mapError .fault)) stmts (errors.dropWhile isBefore)

/-- Runs what was read of a program, given how to run a statement. What earlier runs recorded is
forgotten. -/
def runReadingWith (execute : Execute) (s : Session) (r : Reading) : Session :=
  runStatements execute s.clear r.program.body r.errors

/-- Runs what was read of a program. -/
def runReading [Host] (s : Session) (r : Reading) : Session := s.runReadingWith execute r

/-- Runs a program. -/
def runProgram [Host] (s : Session) (p : Program) : Session := s.runReading ⟨p, []⟩

/-- Runs a source text. -/
def run [Host] (s : Session) (source : String) : Session := s.runReading (Program.recover source)

end Session

end ContractML
