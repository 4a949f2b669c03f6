import ContractML.Frames.Eval
import ContractML.Session.Basic

/-!
# Sessions on frames

A session whose statements are evaluated on frames. The store of the session is the one in which
the frames of local variables and calls are opened, so it grows from statement to statement.

## Main definitions

* `Session.executeFramed` — one statement, evaluated on frames.
* `Session.Event`, `Session.history` — what may happen to a session, and a session after it.
-/

namespace ContractML

namespace Session

/-- The outcome of an act on the frames and counters of the session. -/
def act {α : Type} (s : Session) (x : Act α) : Except Fault α × Session :=
  match x s.workspace with
  | .ok a w => (.ok a, { s with workspace := w })
  | .error f w => (.error f, { s with workspace := w })

/-- The evaluator on frames. -/
def framedEvaluator [Host] : Evaluator where
  expr s e := s.act (e.evalFramed .top Store.global)
  contract s c := s.act (c.resolveFramed .top Store.global)

/-- Runs one statement on frames. -/
def executeFramed [Host] (s : Session) (stmt : Stmt) : Except Fault StatementResult × Session :=
  s.executeWith framedEvaluator stmt

/-- What may happen to a session. -/
inductive Event where
  /-- A source text is run. -/
  | run (source : String)
  /-- A program is run. -/
  | runProgram (p : Program)
  /-- A primitive function is offered, and accepted or rejected. -/
  | registerNative (b : Builtin)

/-- The session after something has happened to it, given how statements are run. -/
def after (execute : Execute) (s : Session) : Event → Session
  | .run source => s.runReadingWith execute (Program.recover source)
  | .runProgram p => s.runReadingWith execute ⟨p, []⟩
  | .registerNative b => (s.registerNative b).2

/-- A new session after several things have happened to it, one after the other. -/
def history (execute : Execute) (contracts : Bool) (events : List Event) : Session :=
  events.foldl (after execute) (.start contracts)

end Session

end ContractML
