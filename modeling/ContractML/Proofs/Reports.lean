import ContractML.Proofs.Recovery
import ContractML.Proofs.Statements

/-!
# Reports of runs are complete and in order

A run has one result for each slice of its source that has a token: a syntax error if the slice
cannot be read, else what its statement gave. The results stand in the order of the source, although
statements and syntax errors are collected apart: what is noticed in one slice begins before
everything in the next one.

## Main definitions

* `Session.runEntries` — statements and syntax errors taken in one order.
* `Session.Reports` — one result for each slice, with the session carried from one to the next.

## Main results

* `Cut.Cuts.pairwise_start` — entries begin one after the other.
* `Session.interleave_eq` — putting the syntax errors between the results restores this order.
* `Session.run_reports_every_slice` — **the report is complete and in source order**.
-/

namespace ContractML

open Text (bytes)

/-! ### Entries begin one after the other -/

/-- Where an entry begins: a statement with its first token, an error where it was noticed. -/
def Entry.start : Entry → Nat
  | statement stmt => stmt.span.start
  | malformed e => e.span.start

theorem Entry.start_move (f : Nat → Nat) (x : Entry) : (x.move f).start = f x.start := by
  cases x with
  | statement stmt => rw [move, start, Stmt.span_move]; rfl
  | malformed e => rfl

theorem Stream.exists_mem_span_eq {s : Stream} (h : s.tokens ≠ []) :
    ∃ t ∈ s.tokens, s.span = t.span := by
  obtain ⟨tokens, lastStop, eof⟩ := s
  cases tokens with
  | nil => exact absurd rfl h
  | cons t ts => exact ⟨t, List.mem_cons_self, rfl⟩

/-- The first entry of a stream with a terminator begins at one of its tokens. -/
theorem Entry.exists_mem_start_eq {steps : Nat} {s : Stream}
    (hsteps : 8 * s.tokens.length + 6 ≤ steps) {t : Token} (ht : t ∈ s.tokens)
    (hk : t.kind.isTerminator = true) :
    ∃ u ∈ s.tokens, (Entry.first steps s).start = u.span.start := by
  have hstatement := Program.statement_eq hsteps
  unfold Entry.first
  cases hx : Parse.statement steps s with
  | ok stmt v =>
    rw [hx] at hstatement
    obtain ⟨u, hu, hspan⟩ := Stream.exists_mem_span_eq (List.ne_nil_of_mem ht)
    exact ⟨u, hu, by rw [← hspan]; exact hstatement.2⟩
  | error e v =>
    rw [hx] at hstatement
    obtain ⟨-, hleads, he, -⟩ := hstatement
    -- the terminator has not been passed over
    have hv : v.tokens ≠ [] := List.ne_nil_of_mem (hleads.mem_of_isTerminator ht hk)
    obtain ⟨u, hu, hspan⟩ := Stream.exists_mem_span_eq hv
    exact ⟨u, hleads.mem hu, by rw [← hspan, ← he]; rfl⟩

theorem Slice.le_start {p : Slice} {x : Entry} (h : x ∈ p.entries) : p.offset ≤ x.start := by
  obtain ⟨y, -, rfl⟩ := List.mem_map.mp h
  rw [Entry.start_move]
  exact Nat.le_add_left _ _

/-- An entry of a slice that ends in a terminator begins within the slice. -/
theorem Lexes.start_lt {n : Nat} {u : List Char} {ls : List Lexeme} {l : Lexeme}
    (h : Lexes u (ls ++ [l])) (plain : ∀ l ∈ ls, l.kind.isTerminator = false)
    (ends : l.kind.isTerminator = true) {x : Entry}
    (hx : x ∈ Slice.entries ⟨n, String.ofList u⟩) : x.start < n + bytes u := by
  rw [Slice.entries, h.entries_eq_closed plain ends, List.map_singleton, List.mem_singleton] at hx
  have hsteps : 8 * (Lexeme.stream (ls ++ [l]) (bytes u)).tokens.length + 6 ≤
      Program.stepsFor (ls ++ [l]).length := by
    rw [Lexeme.stream, Lexeme.length_tokens]
    exact Program.le_stepsFor _
  obtain ⟨t, ht, hstart⟩ :=
    Entry.exists_mem_start_eq hsteps (Lexeme.mem_stream ls l (bytes u)) ends
  have hbound := h.start_of_mem ht
  rw [hx, Entry.start_move, hstart]
  dsimp only
  omega

namespace Cut.Cuts

variable {n : Nat} {cs : List Char} {ls : List Lexeme} {c : Cut}

/-- A slice has one entry, if it has a token. -/
theorem entries_slice (h : Cuts n cs ls c) {p : Slice} (hp : p ∈ c.slices) :
    lex p.text = [] ∧ Program.entries p.text = [] ∨
      lex p.text ≠ [] ∧ ∃ x, Program.entries p.text = [x] := by
  rcases List.mem_append.mp hp with hp | hp
  · obtain ⟨-, x, hx⟩ := h.entries_closed p hp
    refine .inr ⟨?_, x, hx⟩
    intro hlex
    rw [Program.entries, hlex] at hx
    cases hx
  · obtain rfl := List.mem_singleton.mp hp
    by_cases hlex : lex c.tail.text = []
    · exact .inl ⟨hlex, h.entries_tail.1 hlex⟩
    · exact .inr ⟨hlex, h.entries_tail.2 hlex⟩

/-- The entry of a slice has none other to be compared with. -/
theorem pairwise_slice (h : Cuts n cs ls c) {p : Slice} (hp : p ∈ c.slices)
    (R : Entry → Entry → Prop) : p.entries.Pairwise R := by
  rcases h.entries_slice hp with ⟨-, hx⟩ | ⟨-, x, hx⟩
  · rw [Slice.entries, hx]
    exact .nil
  · rw [Slice.entries, hx]
    exact List.pairwise_singleton R _

/-- **Entries begin one after the other.** -/
theorem pairwise_start (h : Cuts n cs ls c) :
    (c.slices.flatMap Slice.entries).Pairwise (fun x y => x.start < y.start) ∧
      ∀ x ∈ c.slices.flatMap Slice.entries, n ≤ x.start := by
  have hslice := fun p hp => h.pairwise_slice (p := p) hp fun x y => x.start < y.start
  induction h with
  | tail lexes plain =>
    rw [slices, List.nil_append, List.flatMap_singleton]
    exact ⟨hslice _ List.mem_cons_self, fun x hx => Slice.le_start hx⟩
  | @closed n u w l before after c lexes plain ends suffix size rest ih =>
    obtain ⟨hrest, hle⟩ := ih fun p hp => hslice p (List.mem_cons_of_mem _ hp)
    rw [slices, List.cons_append, List.flatMap_cons, ← slices]
    refine ⟨List.pairwise_append.mpr ⟨hslice _ List.mem_cons_self, hrest, ?_⟩, ?_⟩
    · intro x hx y hy
      -- an error is noticed at the terminator of its slice at the latest
      exact (lexes.start_lt plain ends hx).trans_le (hle y hy)
    · intro x hx
      rcases List.mem_append.mp hx with hx | hx
      · exact Slice.le_start hx
      · exact (Nat.le_add_right _ _).trans (hle x hx)

end Cut.Cuts

/-! ### Results in the order of the entries -/

namespace Session

/-- The results of statements and syntax errors in one order, and the session after them. -/
def runEntries [Host] : Session → List Entry → List StatementResult × Session
  | s, [] => ([], s)
  | s, .malformed e :: xs =>
    (.failed (.malformed e) :: (s.runEntries xs).1, (s.runEntries xs).2)
  | s, .statement stmt :: xs =>
    (.ofExcept (s.execute stmt).1 :: ((s.execute stmt).2.runEntries xs).1,
      ((s.execute stmt).2.runEntries xs).2)

theorem interleave_error {stmts : List Stmt} {rs : List StatementResult} {e : SyntaxError}
    (errors : List SyntaxError) (h : ∀ stmt ∈ stmts, e.span.start < stmt.span.start) :
    interleave stmts rs (e :: errors) =
      .failed (.malformed e) :: interleave stmts rs errors := by
  cases stmts with
  | nil => rfl
  | cons stmt stmts =>
    cases rs with
    | nil => rfl
    | cons r rs =>
      have he := h stmt List.mem_cons_self
      simp [interleave, malformed, he]

theorem interleave_statement {stmt : Stmt} {stmts : List Stmt} {r : StatementResult}
    {rs : List StatementResult} {errors : List SyntaxError}
    (h : ∀ e ∈ errors, stmt.span.start < e.span.start) :
    interleave (stmt :: stmts) (r :: rs) errors = r :: interleave stmts rs errors := by
  cases errors with
  | nil => rfl
  | cons e errors =>
    have he : ¬e.span.start < stmt.span.start := Nat.lt_asymm (h e List.mem_cons_self)
    simp [interleave, malformed, he]

/-- Putting the syntax errors between the results restores the order of the entries. -/
theorem interleave_eq [Host] (s : Session) {xs : List Entry}
    (h : xs.Pairwise fun x y => x.start < y.start) :
    interleave (Entry.statements xs) (s.executeAll (Entry.statements xs)).1 (Entry.errors xs) =
        (s.runEntries xs).1 ∧
      (s.executeAll (Entry.statements xs)).2 = (s.runEntries xs).2 := by
  induction xs generalizing s with
  | nil => exact ⟨rfl, rfl⟩
  | cons x xs ih =>
    obtain ⟨hx, hxs⟩ := List.pairwise_cons.mp h
    cases x with
    | malformed e =>
      obtain ⟨hresults, hsession⟩ := ih s hxs
      have hbefore : ∀ stmt ∈ Entry.statements xs, e.span.start < stmt.span.start :=
        fun stmt hstmt => hx _ (Entry.mem_statements.mp hstmt)
      rw [Entry.statements_malformed, Entry.errors_malformed, interleave_error _ hbefore, hresults]
      exact ⟨rfl, hsession⟩
    | statement stmt =>
      obtain ⟨hresults, hsession⟩ := ih (s.execute stmt).2 hxs
      have hbefore : ∀ e ∈ Entry.errors xs, stmt.span.start < e.span.start :=
        fun e he => hx _ (Entry.mem_errors.mp he)
      rw [Entry.statements_statement, Entry.errors_statement, executeAll,
        interleave_statement hbefore, hresults, hsession]
      exact ⟨rfl, rfl⟩

/-- A run takes the entries of its source in order. -/
theorem run_eq [Host] (s : Session) (source : String) :
    s.run source = { (s.runEntries (Program.entries source)).2 with
      log := .ofResults (s.runEntries (Program.entries source)).1 } := by
  obtain ⟨ls, hcuts⟩ := Cut.cuts source
  have hpairwise := hcuts.pairwise_start.1
  rw [← Program.entries_eq_flatMap] at hpairwise
  obtain ⟨hresults, hsession⟩ := s.interleave_eq hpairwise
  rw [run, runReading_eq, (Program.recover_eq source).1, (Program.recover_eq source).2, hresults,
    hsession]

/-- The failures that a run leaves are in step with the results. -/
theorem log_run [Host] (s : Session) (source : String) :
    (s.run source).log = .ofResults (s.run source).results := by
  rw [run_eq]
  rfl

theorem results_run [Host] (s : Session) (source : String) :
    (s.run source).results = (s.runEntries (Program.entries source)).1 := by
  rw [run_eq, results, RunLog.toList_results_ofResults]

theorem failures_run [Host] (s : Session) (source : String) :
    (s.run source).failures = StatementResult.failures (s.run source).results := by
  rw [failures, log_run, RunLog.toList_failures_ofResults]

theorem outcome_run [Host] (s : Session) (source : String) :
    (s.run source).outcome = (RunLog.ofResults (s.run source).results).outcome := by
  rw [outcome, log_run]

end Session

/-! ### Results of slices -/

namespace Program

theorem readFrom_of_entriesFrom_eq_nil {recovering : Bool} {steps start fuel : Nat} {s : Stream}
    (h : entriesFrom steps fuel s = []) (body : List Stmt) (errors : List SyntaxError) :
    readFrom recovering steps start fuel s body errors =
      ⟨⟨body.reverse, ⟨start, s.span.stop⟩⟩, errors.reverse⟩ := by
  cases fuel with
  | zero => rfl
  | succ fuel =>
    cases htokens : s.tokens with
    | nil => rw [readFrom, htokens]; rfl
    | cons t ts => rw [entriesFrom, htokens] at h; cases h

/-- The strict reader reads a text with one entry as the recovering one does. -/
theorem read_of_entries {source : String} {x : Entry} (h : entries source = [x]) :
    (read false source).program.body = Entry.statements [x] ∧
      (read false source).errors = Entry.errors [x] := by
  have hstatement := statement_eq (s := .ofTokens (lex source) source.utf8ByteSize)
    (le_stepsFor (lex source).length)
  simp only [entries, read] at h ⊢
  generalize stepsFor (lex source).length = steps at h hstatement ⊢
  cases htokens : lex source with
  | nil => rw [htokens] at h; cases h
  | cons t ts =>
    rw [htokens] at h hstatement
    rw [List.length_cons, entriesFrom] at h
    obtain ⟨rfl, hrest⟩ := List.cons.inj h
    rw [List.length_cons, readFrom, Entry.first]
    cases hx : Parse.statement steps (.ofTokens (t :: ts) source.utf8ByteSize) with
    | ok stmt u =>
      rw [hx] at hstatement
      rw [← hstatement.1] at hrest
      simp only [Stream.ofTokens, List.isEmpty_cons, readFrom_of_entriesFrom_eq_nil hrest]
      exact ⟨rfl, rfl⟩
    | error e u => exact ⟨rfl, rfl⟩

theorem parse_of_statement {source : String} {stmt : Stmt}
    (h : entries source = [.statement stmt]) : ∃ p, parse source = .ok p ∧ p.body = [stmt] := by
  obtain ⟨hbody, herrors⟩ := read_of_entries h
  exact ⟨(read false source).program, by rw [parse, herrors]; rfl, hbody⟩

theorem parse_of_malformed {source : String} {e : SyntaxError}
    (h : entries source = [.malformed e]) : parse source = .error e := by
  rw [parse, (read_of_entries h).2]
  rfl

end Program

namespace Session

/-- The slices are reported one after the other: one that cannot be read by its syntax error, and
one that can be read by what its statement gives in the session that those before it left. -/
inductive Reports [Host] : Session → List Slice → List StatementResult → Session → Prop
  | nil {s : Session} : Reports s [] [] s
  | malformed {s s' : Session} {p : Slice} {ps : List Slice} {rs : List StatementResult}
      {e : SyntaxError} (parse : Program.parse p.text = .error e) (rest : Reports s ps rs s') :
      Reports s (p :: ps) (.failed (.malformed (e.shift p.offset)) :: rs) s'
  | executed {s s' : Session} {p : Slice} {ps : List Slice} {rs : List StatementResult}
      {program : Program} {stmt : Stmt} (parse : Program.parse p.text = .ok program)
      (body : program.body = [stmt]) (rest : Reports (s.execute (stmt.shift p.offset)).2 ps rs s') :
      Reports s (p :: ps) (.ofExcept (s.execute (stmt.shift p.offset)).1 :: rs) s'

/-- What a statement gives is no syntax error. -/
theorem ofExcept_execute_ne_malformed [Host] (s : Session) (stmt : Stmt) (e : SyntaxError) :
    StatementResult.ofExcept (s.execute stmt).1 ≠ .failed (.malformed e) := by
  cases stmt with
  | expr e span =>
    rw [execute_expr]
    cases (s.annotate e).eval s.workspace.store globalEnv s.workspace.counters <;> nofun
  | define x e span =>
    rw [execute_define]
    cases (s.annotateBinding x.text e).eval s.workspace.store globalEnv s.workspace.counters <;>
      nofun
  | contract x c span =>
    cases hon : s.contracts with
    | true =>
      rw [execute_contract hon]
      cases c.resolve s.workspace.store globalEnv s.workspace.counters <;> nofun
    | false =>
      rw [execute_contract_off hon]
      nofun

namespace Reports

variable [Host] {s s' : Session} {ps : List Slice} {rs : List StatementResult}

theorem length_eq (h : Reports s ps rs s') : rs.length = ps.length := by
  induction h with
  | nil => rfl
  | malformed _ _ ih => rw [List.length_cons, List.length_cons, ih]
  | executed _ _ _ ih => rw [List.length_cons, List.length_cons, ih]

/-- A syntax error is reported for exactly those slices that cannot be read. -/
theorem malformed_iff (h : Reports s ps rs s') {j : Nat} {p : Slice} {r : StatementResult}
    (hp : ps[j]? = some p) (hr : rs[j]? = some r) :
    (∃ e, r = .failed (.malformed e)) ↔ ∃ e, Program.parse p.text = .error e := by
  induction h generalizing j with
  | nil => cases hp
  | malformed parse rest ih =>
    cases j with
    | zero => cases hp; cases hr; exact ⟨fun _ => ⟨_, parse⟩, fun _ => ⟨_, rfl⟩⟩
    | succ j => exact ih hp hr
  | @executed s s' p ps rs program stmt parse body rest ih =>
    cases j with
    | zero =>
      cases hp
      cases hr
      constructor
      · rintro ⟨e, he⟩
        exact absurd he (ofExcept_execute_ne_malformed s _ e)
      · rintro ⟨e, he⟩
        rw [parse] at he
        cases he
    | succ j => exact ih hp hr

end Reports

/-- The entries of slices are reported slice by slice; a slice without a token is not reported. -/
theorem reports_runEntries [Host] (s : Session) {ps : List Slice}
    (h : ∀ p ∈ ps, lex p.text = [] ∧ Program.entries p.text = [] ∨
      lex p.text ≠ [] ∧ ∃ x, Program.entries p.text = [x]) :
    Reports s (ps.filter fun p => !(lex p.text).isEmpty)
      (s.runEntries (ps.flatMap Slice.entries)).1 (s.runEntries (ps.flatMap Slice.entries)).2 := by
  induction ps generalizing s with
  | nil => exact .nil
  | cons p ps ih =>
    have hps : ∀ q ∈ ps, _ := fun q hq => h q (List.mem_cons_of_mem p hq)
    rw [List.flatMap_cons, Slice.entries]
    rcases h p List.mem_cons_self with ⟨hlex, hx⟩ | ⟨hlex, x, hx⟩
    · rw [List.filter_cons_of_neg (by simp [hlex]), hx]
      exact ih s hps
    · rw [List.filter_cons_of_pos (by simp [hlex]), hx]
      cases x with
      | malformed e => exact .malformed (Program.parse_of_malformed hx) (ih s hps)
      | statement stmt =>
        obtain ⟨program, hprogram, hbody⟩ := Program.parse_of_statement hx
        exact .executed hprogram hbody (ih _ hps)

end Session

/-! ### Failures and outcomes -/

/-- The failures are those of the failed results, each one once and in order. -/
theorem StatementResult.map_failures (rs : List StatementResult) :
    (failures rs).map failed = rs.filter fun r => r.failure?.isSome := by
  induction rs with
  | nil => rfl
  | cons r rs ih =>
    rw [failures] at ih
    cases r <;> simp [failures, failure?, List.filterMap_cons, ih]

/-- The result has the value, under the name if there is one. -/
inductive StatementResult.Gives : StatementResult → Value → Option String → Prop
  | bound (name : String) (v : Value) : Gives (.bound name v) v (some name)
  | evaluated (v : Value) : Gives (.evaluated v) v none

theorem StatementResult.value?_eq_some_iff {r : StatementResult} {v : Value}
    {name : Option String} : r.value? = some (v, name) ↔ r.Gives v name := by
  constructor
  · intro h
    cases r with
    | bound x w => cases h; exact .bound x v
    | evaluated w => cases h; exact .evaluated v
    | contract x c => cases h
    | failed f => cases h
  · rintro (_ | _) <;> rfl

theorem StatementResult.value?_eq_none_iff {r : StatementResult} :
    r.value? = none ↔ ∀ v name, ¬r.Gives v name := by
  rw [Option.eq_none_iff_forall_ne_some]
  simp only [ne_eq, Prod.forall, value?_eq_some_iff]

theorem getLast?_filterMap_eq_some_iff {α β : Type} {f : α → Option β} {xs : List α} {y : β} :
    (xs.filterMap f).getLast? = some y ↔
      ∃ before x after, xs = before ++ x :: after ∧ f x = some y ∧ ∀ z ∈ after, f z = none := by
  constructor
  · intro h
    obtain ⟨ys, hys⟩ := List.getLast?_eq_some_iff.mp h
    obtain ⟨front, back, rfl, -, hback⟩ := List.filterMap_eq_append_iff.mp hys
    obtain ⟨blank, x, after, rfl, -, hx, hafter⟩ := List.filterMap_eq_cons_iff.mp hback
    exact ⟨front ++ blank, x, after, by simp, hx, List.filterMap_eq_nil_iff.mp hafter⟩
  · rintro ⟨before, x, after, rfl, hx, hafter⟩
    rw [List.filterMap_append, List.filterMap_cons_some hx, List.filterMap_eq_nil_iff.mpr hafter,
      List.getLast?_append]
    rfl

namespace RunLog

variable {rs : List StatementResult}

theorem outcome_eq_errored_iff :
    (ofResults rs).outcome = .errored ↔ StatementResult.failures rs ≠ [] := by
  rw [outcome_ofResults]
  cases hf : StatementResult.failures rs with
  | nil => cases (rs.filterMap StatementResult.value?).getLast? <;> simp
  | cons f fs => simp

theorem outcome_eq_finished_iff {v : Value} {name : Option String} :
    (ofResults rs).outcome = .finished v name ↔
      StatementResult.failures rs = [] ∧ ∃ before r after, rs = before ++ r :: after ∧
        r.Gives v name ∧ ∀ r' ∈ after, ∀ w x, ¬StatementResult.Gives r' w x := by
  have hlast : (rs.filterMap StatementResult.value?).getLast? = some (v, name) ↔ _ :=
    getLast?_filterMap_eq_some_iff
  simp only [StatementResult.value?_eq_some_iff, StatementResult.value?_eq_none_iff] at hlast
  rw [← hlast]
  rw [outcome_ofResults]
  cases hf : StatementResult.failures rs with
  | nil => cases (rs.filterMap StatementResult.value?).getLast? <;> simp [Prod.ext_iff]
  | cons f fs => simp

theorem outcome_eq_empty_iff :
    (ofResults rs).outcome = .empty ↔
      StatementResult.failures rs = [] ∧ ∀ r ∈ rs, ∀ v name, ¬StatementResult.Gives r v name := by
  have hnone : (rs.filterMap StatementResult.value?).getLast? = none ↔ _ :=
    List.getLast?_eq_none_iff.trans List.filterMap_eq_nil_iff
  simp only [StatementResult.value?_eq_none_iff] at hnone
  rw [← hnone]
  rw [outcome_ofResults]
  cases hf : StatementResult.failures rs with
  | nil => cases (rs.filterMap StatementResult.value?).getLast? <;> simp
  | cons f fs => simp

end RunLog

/-- The slices of a text that have a token. -/
def Cut.nonblank (c : Cut) : List Slice := c.slices.filter fun p => !(lex p.text).isEmpty

namespace Session

/-- **The report of a run is complete and in source order.** There is one result for each slice that
has a token: its syntax error if it cannot be read, and otherwise what its statement gives in the
session that the slices before it left. The failures, which are recorded apart, are those of the
failed results. The run has failed if there are any; else its outcome is the last value, if there is
one. -/
theorem run_reports_every_slice [Host] (s : Session) (source : String) :
    (∃ s', Reports s (Cut.ofSource source).nonblank (s.run source).results s' ∧
        s.run source = { s' with log := (s.run source).log }) ∧
      (s.run source).results.length = (Cut.ofSource source).nonblank.length ∧
      (∀ (j : Nat) (p : Slice) (r : StatementResult),
        (Cut.ofSource source).nonblank[j]? = some p → (s.run source).results[j]? = some r →
        ((∃ e, r = .failed (.malformed e)) ↔ ∃ e, Program.parse p.text = .error e)) ∧
      (s.run source).failures.map .failed =
        (s.run source).results.filter (fun r => r.failure?.isSome) ∧
      ((s.run source).outcome = .errored ↔ (s.run source).failures ≠ []) ∧
      (∀ v name, (s.run source).outcome = .finished v name ↔
        (s.run source).failures = [] ∧
          ∃ before r after, (s.run source).results = before ++ r :: after ∧ r.Gives v name ∧
            ∀ r' ∈ after, ∀ w x, ¬StatementResult.Gives r' w x) ∧
      ((s.run source).outcome = .empty ↔
        (s.run source).failures = [] ∧
          ∀ r ∈ (s.run source).results, ∀ v name, ¬StatementResult.Gives r v name) := by
  obtain ⟨ls, hcuts⟩ := Cut.cuts source
  have hreports := s.reports_runEntries fun p hp => hcuts.entries_slice hp
  rw [← Program.entries_eq_flatMap] at hreports
  rw [← results_run] at hreports
  have hrun : s.run source = { (s.runEntries (Program.entries source)).2 with
      log := (s.run source).log } := by
    rw [run_eq]
  -- The run leaves its two lists in step, so the failures can be read off the results.
  rw [failures_run, outcome_run]
  exact ⟨⟨_, hreports, hrun⟩, hreports.length_eq, fun j p r => hreports.malformed_iff,
    StatementResult.map_failures _, RunLog.outcome_eq_errored_iff,
    fun v name => RunLog.outcome_eq_finished_iff, RunLog.outcome_eq_empty_iff⟩

example : ((start true).run "let x = ;; x;; 1;; )").results.map
    (fun r => r.failure?.map Failure.kind) =
      [some "syntax", some "unbound_name", none, some "syntax"] := by
  decide +kernel

end Session

end ContractML
