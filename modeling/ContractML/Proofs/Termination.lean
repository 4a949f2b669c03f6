import ContractML.Proofs.Fuel
import ContractML.Proofs.Reports

/-!
# Every run ends

Reading a source text and running its statements are loops, and the parser is a recursion that does
not follow a tree. With fuel for all of them, and for the recursion of the evaluator inside, there
is enough of it for every text, in every session. The outcome is that of the run.

## Main definitions

* `lexIn`, `Program.readIn` — tokens and statements, if there is fuel enough.
* `Session.executeIn`, `Session.runIn` — statements and runs, if there is fuel enough.

## Main results

* `terminates_eval`, `terminates_apply`, `terminates_resolve`, `terminates_enforce` — evaluations.
* `Lexes.terminates_lexIn`, `Program.terminates_readIn` — reading.
* `Session.terminates_execute`, `Session.terminates_run` — statements and runs.
* `every_evaluation_terminates` — **every evaluation ends, and so does every run**.
-/

namespace ContractML

/-! ### Evaluations -/

theorem terminates_eval (store : Store) (e : Expr) (env : Env) (c : Counters) :
    Terminates (fun n => (e.evalIn store n env).run c) (e.eval store env c) :=
  (settles_evalIn (callsSettle store) e env).enough c (Nat.zero_le _)

theorem terminates_apply (store : Store) (f : Closure) (args : List Value) (span : Span)
    (c : Counters) :
    Terminates (fun n => (f.applyIn store n args span).run c) (f.apply store args span c) :=
  (settles_applyIn (callsSettle store) f args span).enough c (Nat.zero_le _)

theorem terminates_resolve (store : Store) (k : ContractExpr) (env : Env) (c : Counters) :
    Terminates (fun n => (k.resolveIn store n env).run c) (k.resolve store env c) :=
  (settles_resolveIn fun p _ => settles_evalIn (callsSettle store) p env).enough c (Nat.zero_le _)

theorem terminates_enforce (store : Store) (k : Contract) (v : Value) (pos neg : String)
    (span : Span) (c : Counters) :
    Terminates (fun n => (k.enforceIn store n v pos neg span).run c)
      (k.enforce store v pos neg span c) :=
  (settles_enforceIn (callsSettle store) k v pos neg span).enough c (Nat.zero_le _)

/-! ### Reading -/

/-- The tokens of the text `cs` that begins at offset `n`, if there is fuel enough for all of
them. -/
def lexIn : (fuel : Nat) → List Char → (n : Nat) → Option (List Token)
  | 0, _, _ => none
  | fuel + 1, cs, n =>
    match nextToken cs n with
    | none => some []
    | some (t, next) => (lexIn fuel next.rest next.offset).map (t :: ·)

/-- One step for each token and one more are enough to find them. -/
theorem Lexes.lexIn_eq {cs : List Char} {ls : List Lexeme} (h : Lexes cs ls) :
    ∀ (fuel n : Nat), ls.length < fuel → lexIn fuel cs n = some (Lexeme.tokens n ls) := by
  induction h with
  | blank hnone =>
    intro fuel n hfuel
    obtain ⟨fuel, rfl⟩ := Nat.exists_eq_add_one_of_ne_zero (by omega : fuel ≠ 0)
    rw [lexIn, hnone]
    rfl
  | token hl _ ih =>
    intro fuel n hfuel
    obtain ⟨fuel, rfl⟩ := Nat.exists_eq_add_one_of_ne_zero (by omega : fuel ≠ 0)
    rw [lexIn, hl.next _ n (.inl rfl)]
    dsimp only
    rw [ih fuel _ (by simpa using hfuel)]
    rfl

theorem Lexes.terminates_lexIn {cs : List Char} {ls : List Lexeme} (h : Lexes cs ls) (n : Nat) :
    Terminates (fun fuel => lexIn fuel cs n) (Lexeme.tokens n ls) :=
  ⟨ls.length + 1, fun fuel hfuel => h.lexIn_eq fuel n hfuel⟩

/-- The entries of a stream, if there is fuel enough for all of them and for the parser. -/
def Program.readIn : (fuel : Nat) → Stream → Option (List Entry)
  | 0, _ => none
  | fuel + 1, s =>
    if s.tokens.isEmpty then some []
    else
      match Parse.statement fuel s with
      | .ok stmt next => (readIn fuel next).map (.statement stmt :: ·)
      | .error ⟨.outOfSteps, _⟩ _ => none
      | .error e stuck => (readIn fuel stuck.skipStatement).map (.malformed e :: ·)

/-- With steps enough, the number of steps makes no difference to what is read first. -/
theorem Entry.first_eq {n m : Nat} {s : Stream} (hn : 8 * s.tokens.length + 6 ≤ n)
    (hm : 8 * s.tokens.length + 6 ≤ m) : Entry.first m s = Entry.first n s := by
  have hready : Parse.Ready ⟨id, monotone_id, [], s.eof⟩ 6 n m s := ⟨.inl ⟨rfl, rfl⟩, by omega⟩
  have hfirst := Entry.first_inside hready
  have hinside : s.inside ⟨id, monotone_id, [], s.eof⟩ = s := by simp [Stream.inside]
  rw [hinside, Entry.move_id] at hfirst
  exact hfirst

namespace Program

theorem readIn_cons {fuel : Nat} {s : Stream} (hne : s.tokens ≠ [])
    (hfuel : 8 * s.tokens.length + 6 ≤ fuel) :
    readIn (fuel + 1) s = (readIn fuel s.skipStatement).map (Entry.first fuel s :: ·) := by
  have hstatement := statement_eq hfuel
  have hempty : s.tokens.isEmpty = false := by simp [hne]
  rw [readIn, hempty, if_neg Bool.false_ne_true]
  unfold Entry.first
  cases hx : Parse.statement fuel s with
  | ok stmt next =>
    rw [hx] at hstatement
    rw [← hstatement.1]
  | error e stuck =>
    rw [hx] at hstatement
    obtain ⟨hskip, -, -, hcause⟩ := hstatement
    obtain ⟨cause, span⟩ := e
    rw [← hskip]
    cases cause with
    | outOfSteps => exact absurd rfl hcause
    | lexical fault => rfl
    | unexpected wanted found => rfl

/-- Eight steps of the parser for every token, and one statement for every token, are enough. -/
theorem readIn_eq {steps k : Nat} {s : Stream} (hsteps : 8 * s.tokens.length + 6 ≤ steps)
    (hk : s.tokens.length ≤ k) :
    ∀ fuel, 9 * s.tokens.length + 7 ≤ fuel → readIn fuel s = some (entriesFrom steps k s) := by
  induction k generalizing s with
  | zero =>
    intro fuel hfuel
    obtain ⟨fuel, rfl⟩ := Nat.exists_eq_add_one_of_ne_zero (by omega : fuel ≠ 0)
    have hnil : s.tokens = [] := List.length_eq_zero_iff.mp (Nat.le_zero.mp hk)
    rw [readIn, hnil]
    rfl
  | succ k ih =>
    intro fuel hfuel
    obtain ⟨fuel, rfl⟩ := Nat.exists_eq_add_one_of_ne_zero (by omega : fuel ≠ 0)
    obtain ⟨tokens, lastStop, eof⟩ := s
    cases tokens with
    | nil => rfl
    | cons t ts =>
      -- whether or not a statement is read, a token at least is gone
      have hlt := Stream.length_skipStatement_lt t ts lastStop eof
      dsimp only at hsteps hk hfuel
      have hfirst : 8 * (t :: ts).length + 6 ≤ fuel := by
        rw [List.length_cons] at hfuel ⊢
        omega
      have hrest := ih (s := (Stream.mk (t :: ts) lastStop eof).skipStatement) (by omega) (by omega)
        fuel (by omega)
      rw [readIn_cons (List.cons_ne_nil t ts) hfirst, hrest, Entry.first_eq hsteps hfirst]
      rfl

theorem terminates_readIn (source : String) :
    Terminates (fun n => readIn n (.ofTokens (lex source) source.utf8ByteSize))
      (entries source) := by
  exact ⟨9 * (lex source).length + 7, readIn_eq (s := .ofTokens (lex source) _) (le_stepsFor _)
    (Nat.le_refl _)⟩

end Program

/-! ### Running -/

namespace Session

variable {α : Type}

/-- The outcome of an evaluation in the session, if there is one. -/
def evaluateIn (s : Session) (x : Store → Timed α) : Option (Except Fault α × Session) :=
  match (x s.workspace.store).run s.workspace.counters with
  | none => none
  | some (.ok a c) => some (.ok a, s.counting c)
  | some (.error f c) => some (.error f, s.counting c)

theorem terminates_evaluate (s : Session) {x : Nat → Store → Timed α} {y : Store → Eval α}
    (h : ∀ store c, Terminates (fun n => (x n store).run c) (y store c)) :
    Terminates (fun n => s.evaluateIn (x n)) (s.evaluate y) := by
  refine (h s.workspace.store s.workspace.counters).imp ?_
  intro n hn
  rw [evaluateIn, hn, evaluate, Workspace.evaluate]
  cases y s.workspace.store s.workspace.counters <;> rfl

/-- Runs one statement, if there is fuel enough to evaluate it. -/
def executeIn (fuel : Nat) (s : Session) : Stmt → Option (Except Fault StatementResult × Session)
  | .contract name c span =>
    let result := StatementResult.contract name.text c.render
    if s.contracts then
      (s.evaluateIn fun store => c.resolveIn store fuel globalEnv).bind fun
        | (.error f, s) => some (.error f, s)
        | (.ok _, s) => some (.ok result, (s.monitor (.contract name c span)).2)
    else some (.ok result, s)
  | stmt =>
    match s.monitor stmt with
    | (.expr e _, s) =>
      (s.evaluateIn fun store => e.evalIn store fuel globalEnv).bind fun
        | (.ok v, s) => some (.ok (.evaluated v), s)
        | (.error f, s) => some (.error f, s)
    | (.define x e _, s) =>
      (s.evaluateIn fun store => e.evalIn store fuel globalEnv).bind fun
        | (.ok v, s) => some (.ok (.bound x.text v), s.binding x.text v)
        | (.error f, s) => some (.error f, s)
    | (.contract x c _, s) => some (.ok (.contract x.text c.render), s)

theorem terminates_execute (s : Session) (stmt : Stmt) :
    Terminates (fun n => s.executeIn n stmt) (s.execute stmt) := by
  cases stmt with
  | expr e span =>
    have heval := s.terminates_evaluate fun store => terminates_eval store (s.annotate e) globalEnv
    simp only [executeIn, execute, executeWith_expr, monitor_expr, evaluator, evaluateExpr]
    refine Terminates.bind heval ?_
    rcases s.evaluate fun store => (s.annotate e).eval store globalEnv with ⟨result, s'⟩
    cases result <;> exact Terminates.some _
  | define x e span =>
    have heval := s.terminates_evaluate fun store =>
      terminates_eval store (s.annotateBinding x.text e) globalEnv
    simp only [executeIn, execute, executeWith_define, monitor_define, evaluator, evaluateExpr]
    refine Terminates.bind heval ?_
    rcases s.evaluate fun store => (s.annotateBinding x.text e).eval store globalEnv with
      ⟨result, s'⟩
    cases result <;> exact Terminates.some _
  | contract x c span =>
    cases hon : s.contracts with
    | false =>
      simp only [executeIn, execute_contract_off hon, hon, Bool.false_eq_true, if_false]
      exact Terminates.some _
    | true =>
      have heval := s.terminates_evaluate fun store => terminates_resolve store c globalEnv
      simp only [executeIn, execute, executeWith, declareWith, evaluator, hon, if_true]
      refine Terminates.bind heval ?_
      rcases s.evaluate fun store => c.resolve store globalEnv with ⟨result, s'⟩
      cases result <;> exact Terminates.some _

/-- Runs statements and reports syntax errors, if there is fuel enough for every statement. -/
def runEntriesIn (fuel : Nat) : Session → List Entry → Option (List StatementResult × Session)
  | s, [] => some ([], s)
  | s, .malformed e :: xs =>
    (s.runEntriesIn fuel xs).map fun (rs, s) => (.failed (.malformed e) :: rs, s)
  | s, .statement stmt :: xs =>
    (s.executeIn fuel stmt).bind fun (r, s) =>
      (s.runEntriesIn fuel xs).map fun (rs, s) => (.ofExcept r :: rs, s)

theorem terminates_runEntries (s : Session) (xs : List Entry) :
    Terminates (fun n => s.runEntriesIn n xs) (s.runEntries xs) := by
  induction xs generalizing s with
  | nil => exact Terminates.some _
  | cons x xs ih =>
    cases x with
    | malformed e =>
      simp only [runEntriesIn, runEntries]
      exact (ih s).imp fun n hn => by rw [hn]; rfl
    | statement stmt =>
      simp only [runEntriesIn, runEntries]
      refine Terminates.bind (s.terminates_execute stmt) ?_
      rcases s.execute stmt with ⟨r, s'⟩
      exact (ih s').imp fun n hn => by dsimp only; rw [hn]; rfl

/-- Runs a source text, if there is fuel enough to read it and to run its statements. -/
def runIn (fuel : Nat) (s : Session) (source : String) : Option Session :=
  (lexIn fuel source.toList 0).bind fun tokens =>
    (Program.readIn fuel (.ofTokens tokens source.utf8ByteSize)).bind fun entries =>
      (s.runEntriesIn fuel entries).map fun (results, s) => { s with log := .ofResults results }

theorem terminates_run (s : Session) (source : String) :
    Terminates (fun n => s.runIn n source) (s.run source) := by
  -- the lexemes of the text are finitely many, and the fuel for tokens goes down with them
  obtain ⟨ls, hls⟩ := exists_lexes source.toList
  have hlex := hls.terminates_lexIn 0
  rw [← hls.lex_eq] at hlex
  refine Terminates.bind hlex ?_
  refine Terminates.bind (Program.terminates_readIn source) ?_
  refine (s.terminates_runEntries (Program.entries source)).imp ?_
  intro n hn
  rw [hn, run_eq]
  rfl

end Session

/-- **Every evaluation ends**: for every store, environment, expression, closure and contract, and
from all counters, there is fuel enough for the recursion, and it gives the value or the fault of
the evaluator. **So does every run**, of every source text and in every session. -/
theorem every_evaluation_terminates :
    (∀ (store : Store) (env : Env) (e : Expr) (c : Counters),
        Terminates (fun n => (e.evalIn store n env).run c) (e.eval store env c)) ∧
      (∀ (store : Store) (f : Closure) (args : List Value) (span : Span) (c : Counters),
        Terminates (fun n => (f.applyIn store n args span).run c) (f.apply store args span c)) ∧
      (∀ (store : Store) (env : Env) (k : ContractExpr) (c : Counters),
        Terminates (fun n => (k.resolveIn store n env).run c) (k.resolve store env c)) ∧
      (∀ (store : Store) (k : Contract) (v : Value) (pos neg : String) (span : Span)
          (c : Counters),
        Terminates (fun n => (k.enforceIn store n v pos neg span).run c)
          (k.enforce store v pos neg span c)) ∧
      ∀ (s : Session) (source : String),
        Terminates (fun n => s.runIn n source) (s.run source) :=
  ⟨fun store env e => terminates_eval store e env, terminates_apply,
    fun store env k => terminates_resolve store k env, terminates_enforce, Session.terminates_run⟩

example : ((Session.start true).runIn 6 "1 + 2;;").isSome = false ∧
    ((Session.start true).runIn 60 "1 + 2;;").isSome = true := by
  decide +kernel

end ContractML
