import ContractML.Proofs.Reports

/-!
# Strict reading and recovering reading

The strict reader stops at the first syntax error, the recovering one drops the malformed statement
and goes on. Up to the first error the two take the same steps: they read one statement after the
other from the same tokens. So a text that the strict reader accepts is read as the same program by
both, and otherwise the strict reader reports the first of the errors that the recovering one
collects.

## Main results

* `Program.readFrom_lockstep` — what the strict reader gives, in terms of the entries of a stream.
* `Program.read_strict_eq` — what it gives for a source text.
* `Program.parse_agrees_with_recover` — **strict and recovering reading agree**.
-/

namespace ContractML

namespace Entry

theorem statements_append (xs ys : List Entry) :
    statements (xs ++ ys) = statements xs ++ statements ys := List.filterMap_append

theorem errors_append (xs ys : List Entry) : errors (xs ++ ys) = errors xs ++ errors ys :=
  List.filterMap_append

theorem statements_map_statement (stmts : List Stmt) :
    statements (stmts.map .statement) = stmts := by
  induction stmts with
  | nil => rfl
  | cons stmt stmts ih => rw [List.map_cons, statements_statement, ih]

theorem errors_map_statement (stmts : List Stmt) : errors (stmts.map .statement) = [] := by
  induction stmts with
  | nil => rfl
  | cons stmt stmts ih => rw [List.map_cons, errors_statement, ih]

end Entry

namespace Program

/-- Until the first error the two readers go in lock step. Either there is none, and they give one
and the same reading; or the strict reader stops with that error, after the statements before it. -/
theorem readFrom_lockstep {steps start fuel : Nat} {s : Stream}
    (hsteps : 8 * s.tokens.length + 6 ≤ steps) (body : List Stmt) :
    (Entry.errors (entriesFrom steps fuel s) = [] ∧
        readFrom false steps start fuel s body [] = readFrom true steps start fuel s body []) ∨
      ∃ before e after,
        entriesFrom steps fuel s = before.map .statement ++ .malformed e :: after ∧
          (readFrom false steps start fuel s body []).program.body = body.reverse ++ before ∧
          (readFrom false steps start fuel s body []).errors = [e] := by
  induction fuel generalizing s body with
  | zero => exact .inl ⟨rfl, rfl⟩
  | succ fuel ih =>
    obtain ⟨tokens, lastStop, eof⟩ := s
    cases tokens with
    | nil => exact .inl ⟨rfl, rfl⟩
    | cons t ts =>
      have hstatement := statement_eq hsteps
      have hlt := Stream.length_skipStatement_lt t ts lastStop eof
      dsimp only at hsteps
      simp only [readFrom, entriesFrom, List.isEmpty_cons, Bool.false_eq_true, if_false,
        Entry.first]
      cases hx : Parse.statement steps ⟨t :: ts, lastStop, eof⟩ with
      | ok stmt u =>
        -- After a statement both readers go on from the same place.
        rw [hx] at hstatement
        obtain ⟨rfl, -⟩ := hstatement
        dsimp only
        rcases ih (s := (Stream.mk (t :: ts) lastStop eof).skipStatement) (by omega)
          (stmt :: body) with ⟨hnone, hread⟩ | ⟨before, e, after, hentries, hbody, herrors⟩
        · exact .inl ⟨hnone, hread⟩
        · refine .inr ⟨stmt :: before, e, after, ?_, ?_, herrors⟩
          · rw [hentries, List.map_cons, List.cons_append]
          · rw [hbody, List.reverse_cons, List.append_assoc, List.singleton_append]
      | error e u =>
        -- This is where they part: the strict reader stops, the other one collects the error.
        exact .inr ⟨[], e, _, rfl, (List.append_nil _).symm, rfl⟩

/-- The strict reader gives what the recovering one gives, or it gives the statements before the
first error, and that error alone. -/
theorem read_strict_eq (source : String) :
    (Entry.errors (entries source) = [] ∧ read false source = recover source) ∨
      ∃ before e after, entries source = before.map .statement ++ .malformed e :: after ∧
        (read false source).program.body = before ∧ (read false source).errors = [e] :=
  readFrom_lockstep (s := .ofTokens (lex source) source.utf8ByteSize) (le_stepsFor _) []

/-- The entries of a text begin one after the other. -/
theorem pairwise_start_entries (source : String) :
    (entries source).Pairwise fun x y => x.start < y.start := by
  obtain ⟨ls, hcuts⟩ := Cut.cuts source
  rw [entries_eq_flatMap]
  exact hcuts.pairwise_start.1

/-- The statements around the first error of a text begin before it and after it. -/
theorem start_around_error {source : String} {before : List Stmt} {e : SyntaxError}
    {after : List Entry}
    (h : entries source = before.map .statement ++ .malformed e :: after) :
    (∀ stmt ∈ before, stmt.span.start < e.span.start) ∧
      ∀ stmt ∈ Entry.statements after, e.span.start < stmt.span.start := by
  have hpairwise := pairwise_start_entries source
  rw [h, List.pairwise_append, List.pairwise_cons] at hpairwise
  obtain ⟨-, ⟨hafter, -⟩, hbefore⟩ := hpairwise
  constructor
  · intro stmt hstmt
    exact hbefore (.statement stmt) (List.mem_map_of_mem hstmt) (.malformed e) List.mem_cons_self
  · intro stmt hstmt
    exact hafter (.statement stmt) (Entry.mem_statements.mp hstmt)

/-- **Strict and recovering reading agree.** The strict reader accepts a text exactly if the
recovering one finds no error in it, and then both read the same program. Otherwise it fails with
the first of the errors that the recovering reader collects. The statements that it had read by then
are the first ones of the recovered program: those that begin before the error. -/
theorem parse_agrees_with_recover (source : String) :
    (∀ p, parse source = .ok p ↔ (recover source).errors = [] ∧ p = (recover source).program) ∧
      (∀ e, parse source = .error e ↔ (recover source).errors.head? = some e) ∧
      ∀ e, parse source = .error e →
        ∃ later, (recover source).program.body = (read false source).program.body ++ later ∧
          (∀ stmt ∈ (read false source).program.body, stmt.span.start < e.span.start) ∧
          ∀ stmt ∈ later, e.span.start < stmt.span.start := by
  obtain ⟨hbody, herrors⟩ := recover_eq source
  rcases read_strict_eq source with ⟨hnone, hread⟩ | ⟨before, e, after, hentries, hstrict, he⟩
  · -- The text has no error, and the readings are the same.
    have hnil : (recover source).errors = [] := herrors.trans hnone
    have hparse : parse source = .ok (recover source).program := by
      rw [parse, hread, hnil]
    simp [hparse, hnil, eq_comm]
  · -- The entries before the first error are what the strict reader has read.
    have hparse : parse source = .error e := by
      rw [parse, he]
    rw [hentries, Entry.statements_append, Entry.statements_map_statement,
      Entry.statements_malformed] at hbody
    rw [hentries, Entry.errors_append, Entry.errors_map_statement, Entry.errors_malformed,
      List.nil_append] at herrors
    refine ⟨?_, ?_, ?_⟩
    · simp [hparse, herrors]
    · simp [hparse, herrors]
    · rintro _ he'
      obtain rfl : e = _ := Except.error.inj (hparse.symm.trans he')
      rw [hstrict, hbody]
      exact ⟨Entry.statements after, rfl, start_around_error hentries⟩

/-- The second of four statements is malformed, and so is the last one. The strict reader has read
one statement when it stops; the recovering one goes on to read another. -/
theorem parse_agrees_with_recover_two_errors :
    let source := "let x = 1;; let = 2;; x;; 3 +"
    (recover source).errors.map SyntaxError.message =
        ["expected identifier, found `=`", "expected expression, found end of input"] ∧
      (read false source).program.body.length = 1 ∧ (recover source).program.body.length = 2 ∧
      ∃ e later, parse source = .error e ∧ (recover source).errors.head? = some e ∧
        (recover source).program.body = (read false source).program.body ++ later ∧
        (∀ stmt ∈ (read false source).program.body, stmt.span.start < e.span.start) ∧
        ∀ stmt ∈ later, e.span.start < stmt.span.start := by
  intro source
  have hmessages : (recover source).errors.map SyntaxError.message =
      ["expected identifier, found `=`", "expected expression, found end of input"] := by
    decide +kernel
  obtain ⟨-, herror, hlater⟩ := parse_agrees_with_recover source
  refine ⟨hmessages, by decide +kernel, by decide +kernel, ?_⟩
  cases herrors : (recover source).errors with
  | nil => rw [herrors] at hmessages; cases hmessages
  | cons e es =>
    have hparse : parse source = .error e := (herror e).mpr (by rw [herrors]; rfl)
    obtain ⟨later, hbody, hbefore, hafter⟩ := hlater e hparse
    exact ⟨e, later, hparse, rfl, hbody, hbefore, hafter⟩

end Program

end ContractML
