import ContractML.Proofs.Consumption
import ContractML.Proofs.Gaps
import ContractML.Proofs.Termination

/-!
# Reading makes progress

Reading a text is made of loops: over the tokens, the statements, the operators and arguments of an
expression, the parameters of a function, the parts of a sequence and of a contract, and over the
tokens after an error. Each of them is a round that is repeated, and a round takes something from
the text unless it is the last one. So none of them goes on for ever, however malformed the text is.
In numbers, one round for each character and eight steps for each of them are enough.

A round takes a token even if it fails. The exception is the last round of a strict reader, which
may give up a statement at its first token.

## Main definitions

* `Parse.iterate` — a round that is repeated.
* `Parse.Advances` — every round takes a token.
* `Parse.Repeats` — a parser that repeats a round.
* `Program.readWithin` — what is read, if there is fuel enough.

## Main results

* `Parse.repeats_sequenceTail`, `Parse.repeats_operators`, `Parse.repeats_arguments`,
  `Parse.repeats_contractTail`, `Parse.repeats_identifiers`, `Parse.repeats_skipStatement`,
  `Parse.advances_statementRound` — one for each loop.
* `Program.readWithin_eq` — **there is fuel enough for every text**.
* `Program.reading_progresses` — **lexing and parsing make progress and end**.
-/

namespace ContractML

open Text (bytes)

namespace Parse

variable {α β : Type} {s : Stream}

/-! ### Loops -/

/-- Repeats `round` until it is done. The round is told how many steps are left. -/
def iterate (round : Nat → β → Parse (ForInStep β)) : Nat → β → Parse β
  | 0, _ => outOfSteps
  | n + 1, b => do
    match ← round n b with
    | .done b => return b
    | .yield b => iterate round n b

/-- A round takes a token, unless it is the last one or has no steps left. -/
def AdvancesAt (s : Stream) (x : Parse (ForInStep β)) : Prop :=
  match x s with
  | .ok (.yield _) t => s.Ahead 1 t
  | .ok (.done _) t => s.Ahead 0 t
  | .error e t => e.cause = .outOfSteps ∨ s.Ahead 1 t

/-- Every round takes a token, unless it is the last one or has no steps left. -/
def Advances (round : Nat → β → Parse (ForInStep β)) : Prop :=
  ∀ n b s, AdvancesAt s (round n b)

/-- The parser repeats a round, and every round takes a token. More rounds than there are tokens are
not needed. -/
structure Repeats (p : Nat → β → Parse α) (finish : β → α)
    (round : Nat → β → Parse (ForInStep β)) : Prop where
  advances : Advances round
  eq_iterate : ∀ n b s, s.tokens.length < n → p n b s = (finish <$> iterate round n b) s

/-- A parser that does one round and then goes on repeats the round. -/
theorem eq_iterate {p : Nat → β → Parse α} {finish : β → α}
    {round : Nat → β → Parse (ForInStep β)} (zero : ∀ b, p 0 b = outOfSteps)
    (succ : ∀ n b, p (n + 1) b = do
      match ← round n b with
      | .done b => return finish b
      | .yield b => p n b) (n : Nat) (b : β) : p n b = finish <$> iterate round n b := by
  -- A round may hand on another accumulator, so the induction is for all of them.
  induction n generalizing b with
  | zero =>
    rw [zero]
    rfl
  | succ n ih =>
    rw [succ, iterate, map_bind]
    refine bind_congr fun step => ?_
    cases step with
    | done b => exact (map_pure finish b).symm
    | yield b => exact ih b

namespace AdvancesAt

protected theorem done (b : β) : AdvancesAt s (pure (.done b)) := Stream.Ahead.refl s

/-- A round that begins by taking the token at hand. -/
theorem of_advance {kind : TokenKind} (hk : s.kind? = some kind) {x y : Parse (ForInStep β)}
    (hxy : x s = y s.advance) (h : Consumes 0 s.advance y) : AdvancesAt s x := by
  have hstep := Stream.Ahead.advance hk
  unfold AdvancesAt
  unfold Consumes at h
  rw [hxy]
  cases hy : y s.advance with
  | ok step t =>
    rw [hy] at h
    -- The token at hand counts, whatever is taken after it.
    have hst := hstep.before h
    cases step with
    | done b => exact hst.mono (Nat.zero_le _)
    | yield b => exact hst
  | error e t =>
    rw [hy] at h
    exact .inr (hstep.before h)

protected theorem advance {kind : TokenKind} (hk : s.kind? = some kind)
    {f : Unit → Parse (ForInStep β)} (h : Consumes 0 s.advance (f ())) :
    AdvancesAt s (advance >>= f) :=
  of_advance hk rfl h

protected theorem atSymbol (c : Symbol) {f : Bool → Parse (ForInStep β)}
    (hyes : s.kind? = some (.symbol c) → AdvancesAt s (f true)) (hno : AdvancesAt s (f false)) :
    AdvancesAt s (atSymbol c >>= f) := by
  obtain ⟨b, hb, hrun⟩ := Follows.atSymbol_apply c s
  have hboth : AdvancesAt s (f b) := by
    cases b with
    | true => exact hyes (hb.mp rfl)
    | false => exact hno
  unfold AdvancesAt at hboth ⊢
  rwa [Follows.bind_apply, hrun s rfl]

end AdvancesAt

/-! ### The loops of the parsers -/

/-- One more expression of a sequence. -/
def sequenceRound (n : Nat) (acc : List Expr) : Parse (ForInStep (List Expr)) := do
  if ← atSymbol .semi then
    advance
    return .yield ((← expression n 0) :: acc)
  else return .done acc

theorem repeats_sequenceTail : Repeats sequenceTail List.reverse sequenceRound where
  advances n acc s := by
    refine AdvancesAt.atSymbol .semi (fun hk => AdvancesAt.advance hk ?_) (AdvancesAt.done acc)
    exact ((consumesAt n).expression 0 s.advance).next fun e t => Consumes.pure _
  eq_iterate n acc s _ := by
    refine congrFun (eq_iterate (fun _ => rfl) (fun n acc => ?_) n acc) s
    rw [sequenceTail, sequenceRound, bind_assoc]
    refine bind_congr fun more => ?_
    cases more <;> simp

/-- One more operator with its right operand. -/
def operatorRound (level n : Nat) (left : Expr) : Parse (ForInStep Expr) := do
  match (← kind?).bind Operator.ofKind? with
  | none => return .done left
  | some o =>
    if o.level < level then return .done left
    else
      advance
      return .yield (o.apply left (← expression n o.rightLevel))

theorem repeats_operators (level : Nat) :
    Repeats (fun n left => operators n left level) id (operatorRound level) where
  advances n left s := by
    change AdvancesAt s (match s.kind?.bind Operator.ofKind? with | none => _ | some o => _)
    cases ho : s.kind?.bind Operator.ofKind? with
    | none => exact AdvancesAt.done left
    | some o =>
      obtain ⟨kind, hk, -⟩ := Option.bind_eq_some_iff.mp ho
      dsimp only
      split
      · -- An operator of a lower level is not taken here: it belongs to a loop further out.
        exact AdvancesAt.done left
      · refine AdvancesAt.advance hk ?_
        exact ((consumesAt n).expression _ s.advance).next fun e t => Consumes.pure _
  eq_iterate n left s _ := by
    refine congrFun (eq_iterate (p := fun n left => operators n left level) (fun _ => rfl)
      (fun n left => ?_) n left) s
    rw [operators, operatorRound, bind_assoc]
    refine bind_congr fun kind => ?_
    cases kind.bind Operator.ofKind? with
    | none => simp
    | some o =>
      dsimp only
      split <;> simp

/-- One more argument of a call. -/
def argumentRound (n : Nat) (acc : List Expr) : Parse (ForInStep (List Expr)) := do
  if ((← kind?).map TokenKind.startsAtom).getD false then
    return .yield ((← atom n) :: acc)
  else return .done acc

/-- Where an atom begins, the token at hand is taken before the atom can fail. -/
theorem atom_of_startsAtom (n : Nat) {kind : TokenKind} (hk : s.kind? = some kind)
    (hstarts : kind.startsAtom = true) :
    ∃ x : Parse Expr, atom (n + 1) s = x s.advance ∧ Consumes 0 s.advance x := by
  obtain ⟨_ | ⟨⟨k, span⟩, ts⟩, lastStop, eof⟩ := s
  · cases hk
  cases hk
  have htoken : ∀ e : Expr, Consumes 0 (Stream.mk ts span.stop eof) (pure e) :=
    fun e => Consumes.pure e
  -- Only a parenthesis goes on after the first token of an atom.
  cases k with
  | int v => exact ⟨pure (.lit (.int v) span), rfl, htoken _⟩
  | float v => exact ⟨pure (.lit (.float v) span), rfl, htoken _⟩
  | char v => exact ⟨pure (.lit (.char v) span), rfl, htoken _⟩
  | str v => exact ⟨pure (.lit (.str v) span), rfl, htoken _⟩
  | ident name => exact ⟨pure (.var ⟨name, span⟩), rfl, htoken _⟩
  | faulty fault => cases hstarts
  | keyword w =>
    cases w with
    | kwTrue => exact ⟨pure (.lit (.bool true) span), rfl, htoken _⟩
    | kwFalse => exact ⟨pure (.lit (.bool false) span), rfl, htoken _⟩
    | _ => cases hstarts
  | symbol c =>
    cases c with
    | lparen =>
      refine ⟨do let inner ← sequence n; expect .rparen; return inner, rfl, ?_⟩
      refine ((consumesAt n).sequence _).next fun inner t => ?_
      exact (Consumes.expect .rparen t).next fun _ _ => Consumes.pure _
    | _ => cases hstarts

theorem repeats_arguments : Repeats arguments List.reverse argumentRound where
  advances n acc s := by
    change AdvancesAt s (if (s.kind?.map TokenKind.startsAtom).getD false then _ else _)
    split
    next hstarts =>
      -- Without steps the round fails where it stands, which is allowed.
      cases n with
      | zero => exact .inl rfl
      | succ n =>
        cases hk : s.kind? with
        | none =>
          rw [hk] at hstarts
          cases hstarts
        | some kind =>
          rw [hk] at hstarts
          obtain ⟨x, hx, hconsumes⟩ := atom_of_startsAtom n hk hstarts
          refine AdvancesAt.of_advance hk (y := do return .yield ((← x) :: acc)) ?_
            (hconsumes.bind fun e t => Consumes.pure _)
          rw [Follows.bind_apply, Follows.bind_apply, hx]
    next => exact AdvancesAt.done acc
  eq_iterate n acc s _ := by
    refine congrFun (eq_iterate (fun _ => rfl) (fun n acc => ?_) n acc) s
    rw [arguments, argumentRound, bind_assoc]
    refine bind_congr fun kind => ?_
    split <;> simp

/-- One more term of a contract. -/
def contractRound (n : Nat) (acc : List ContractExpr) : Parse (ForInStep (List ContractExpr)) := do
  if ← atSymbol .arrow then
    advance
    return .yield ((← contractTerm n) :: acc)
  else return .done acc

theorem repeats_contractTail : Repeats contractTail id contractRound where
  advances n acc s := by
    refine AdvancesAt.atSymbol .arrow (fun hk => AdvancesAt.advance hk ?_) (AdvancesAt.done acc)
    exact ((consumesContractAt n).contractTerm s.advance).next fun c t => Consumes.pure _
  eq_iterate n acc s _ := by
    refine congrFun (eq_iterate (fun _ => rfl) (fun n acc => ?_) n acc) s
    rw [contractTail, contractRound, bind_assoc]
    refine bind_congr fun more => ?_
    cases more <;> simp

/-- One more parameter of a function. -/
def parameterRound (_ : Nat) (acc : List Ident) : Parse (ForInStep (List Ident)) := do
  let s ← get
  match s.kind? with
  | some (.ident name) =>
    advance
    return .yield (⟨name, s.span⟩ :: acc)
  | _ => return .done acc

/-- The parameters that follow, after those in `acc`, the last one first. -/
def identifiersAfter (acc : List Ident) : Parse (List Ident) :=
  modifyGet fun s => takeIdentifiers s.eof acc s.tokens s.lastStop

theorem repeats_identifiers :
    Repeats (fun _ => identifiersAfter) List.reverse parameterRound where
  advances n acc s := by
    change AdvancesAt s (match s.kind? with | some (.ident name) => _ | _ => _)
    split
    next name hk => exact AdvancesAt.advance hk (Consumes.pure _)
    next => exact AdvancesAt.done acc
  eq_iterate n acc s hn := by
    obtain ⟨ts, lastStop, eof⟩ := s
    change EStateM.Result.ok (takeIdentifiers eof acc ts lastStop).1 _ = _
    -- The parameters are taken by one recursion on the tokens, which the rounds follow.
    fun_induction takeIdentifiers eof acc ts lastStop generalizing n with
    | case1 acc name span ts lastStop ih =>
      obtain ⟨n, rfl⟩ := Nat.exists_eq_add_one_of_ne_zero (by omega : n ≠ 0)
      exact ih n (by simpa using hn)
    | case2 acc ts lastStop hts =>
      obtain ⟨n, rfl⟩ := Nat.exists_eq_add_one_of_ne_zero (by omega : n ≠ 0)
      cases ts with
      | nil => rfl
      | cons t ts =>
        obtain ⟨kind, span⟩ := t
        cases kind with
        | ident name => exact (hts name span ts rfl).elim
        | _ => rfl

/-- One more token after an error, up to the next terminator. -/
def skipRound (_ : Nat) (_ : Unit) : Parse (ForInStep Unit) := do
  match ← kind? with
  | none => return .done ()
  | some k =>
    advance
    return if k.isTerminator then .done () else .yield ()

theorem repeats_skipStatement : Repeats (fun _ _ => modify Stream.skipStatement) id skipRound where
  advances n _ s := by
    change AdvancesAt s (match s.kind? with | none => _ | some k => _)
    cases hk : s.kind? with
    | none => exact AdvancesAt.done ()
    | some k => exact AdvancesAt.advance hk (Consumes.pure _)
  eq_iterate n _ s hn := by
    obtain ⟨ts, lastStop, eof⟩ := s
    rw [id_map]
    change EStateM.Result.ok () (Stream.mk ts lastStop eof).skipStatement = _
    induction ts generalizing n lastStop with
    | nil =>
      obtain ⟨n, rfl⟩ := Nat.exists_eq_add_one_of_ne_zero (by omega : n ≠ 0)
      rfl
    | cons t ts ih =>
      obtain ⟨n, rfl⟩ := Nat.exists_eq_add_one_of_ne_zero (by omega : n ≠ 0)
      have hround : skipRound n () ⟨t :: ts, lastStop, eof⟩ =
          .ok (if t.kind.isTerminator then .done () else .yield ()) ⟨ts, t.span.stop, eof⟩ := rfl
      rw [iterate, Follows.bind_apply, hround]
      -- The terminator is taken as well, and is the last token that is.
      cases ht : t.kind.isTerminator with
      | true => rw [Stream.skipStatement_terminator ht]; rfl
      | false =>
        rw [Stream.skipStatement_cons ht, ih n t.span.stop (by simpa using hn)]
        rfl

/-- One more statement. It is read, or its error is noted. After an error a recovering reader goes
on after the next terminator, and a strict one is done. -/
def statementRound (recovering : Bool) (steps : Nat) (_ : Nat) (r : List Stmt × List SyntaxError) :
    Parse (ForInStep (List Stmt × List SyntaxError)) := fun s =>
  if s.tokens.isEmpty then .ok (.done r) s
  else
    match statement steps s with
    | .ok stmt t => .ok (.yield (stmt :: r.1, r.2)) t
    | .error ⟨.outOfSteps, span⟩ t => .error ⟨.outOfSteps, span⟩ t
    | .error e t =>
      if recovering then .ok (.yield (r.1, e :: r.2)) t.skipStatement
      else .ok (.done (r.1, e :: r.2)) t

theorem advances_statementRound (recovering : Bool) (steps : Nat) :
    Advances (statementRound recovering steps) := by
  intro n r s
  have hconsumes := consumes_statement steps s
  unfold Consumes at hconsumes
  unfold AdvancesAt statementRound
  by_cases hs : s.tokens = []
  · rw [hs]
    exact .refl s
  · rw [if_neg (by simpa using hs)]
    cases hx : statement steps s with
    | ok stmt t =>
      rw [hx] at hconsumes
      exact hconsumes
    | error e t =>
      rw [hx] at hconsumes
      obtain ⟨cause, span⟩ := e
      cases cause with
      | outOfSteps => exact .inl rfl
      | _ =>
        -- A statement may fail at its first token. A reader that recovers then takes at least that
        -- one, and the round of a strict reader is its last.
        cases recovering with
        | true => exact hconsumes.skipStatement hs
        | false => exact hconsumes

/-- The loops of the parser. The parameters are those after none, and the statements are what
`Program.read` reads one after the other. -/
structure Loops : Prop where
  sequence : Repeats sequenceTail List.reverse sequenceRound
  operators : ∀ level, Repeats (fun n left => operators n left level) id (operatorRound level)
  arguments : Repeats arguments List.reverse argumentRound
  contract : Repeats contractTail id contractRound
  parameters : Repeats (fun _ => identifiersAfter) List.reverse parameterRound
  identifiers_eq : identifiers = identifiersAfter []
  skipping : Repeats (fun _ _ => modify Stream.skipStatement) id skipRound
  statements : ∀ recovering steps, Advances (statementRound recovering steps)

theorem loops : Loops where
  sequence := repeats_sequenceTail
  operators := repeats_operators
  arguments := repeats_arguments
  contract := repeats_contractTail
  parameters := repeats_identifiers
  identifiers_eq := rfl
  skipping := repeats_skipStatement
  statements := advances_statementRound

/-! ### Fuel -/

theorem iterate_succ (round : Nat → β → Parse (ForInStep β)) (n : Nat) (b : β) (s : Stream) :
    iterate round (n + 1) b s =
      match round n b s with
      | .ok (.done b) t => .ok b t
      | .ok (.yield b) t => iterate round n b t
      | .error e t => .error e t := by
  rw [iterate, Follows.bind_apply]
  cases round n b s with
  | ok step t => cases step <;> rfl
  | error e t => rfl

/-- With steps enough, their number makes no difference to what a statement is read as, nor to where
reading goes on. -/
theorem statement_agrees {n m : Nat} (hn : 8 * s.tokens.length + 6 ≤ n)
    (hm : 8 * s.tokens.length + 6 ≤ m) :
    (∃ stmt, statement n s = .ok stmt s.skipStatement ∧
        statement m s = .ok stmt s.skipStatement) ∨
      ∃ e t u, statement n s = .error e t ∧ statement m s = .error e u ∧ t.span = u.span ∧
        t.skipStatement = s.skipStatement ∧ u.skipStatement = s.skipStatement ∧
        e.cause ≠ .outOfSteps := by
  have hfirst := Entry.first_eq hn hm
  have hx := Program.statement_eq hn
  have hy := Program.statement_eq hm
  -- All three facts are about the same two runs, so the runs are split under all of them at once.
  unfold Entry.first at hfirst
  revert hx hy hfirst
  cases statement n s with
  | ok stmt t =>
    cases statement m s with
    | ok stmt' u =>
      rintro ⟨⟩ ⟨rfl, -⟩ ⟨rfl, -⟩
      exact .inl ⟨stmt, rfl, rfl⟩
    | error e u => exact nofun
  | error e t =>
    cases statement m s with
    | ok stmt' u => exact nofun
    | error e' u =>
      rintro ⟨⟩ ⟨ht, -, hspan, hcause⟩ ⟨hu, -, hspan', -⟩
      exact .inr ⟨e, t, u, rfl, rfl, hspan.symm.trans hspan', ht, hu, hcause⟩

end Parse

namespace Program

/-- What has been read when the stream `t` is left. -/
def reading (start : Nat) (r : List Stmt × List SyntaxError) (t : Stream) : Reading :=
  ⟨⟨r.1.reverse, ⟨start, t.span.stop⟩⟩, r.2.reverse⟩

/-- One round for each token and one more are enough to read what the reader reads. -/
theorem iterate_statementRound (recovering : Bool) {steps m : Nat} (start : Nat) {s : Stream}
    (hsteps : 8 * s.tokens.length + 6 ≤ steps) (hm : 8 * s.tokens.length + 6 ≤ m) {k fuel : Nat}
    (hk : s.tokens.length ≤ k) (hfuel : s.tokens.length < fuel)
    (r : List Stmt × List SyntaxError) :
    ∃ r' t, Parse.iterate (Parse.statementRound recovering m) fuel r s = .ok r' t ∧
      readFrom recovering steps start k s r.1 r.2 = reading start r' t := by
  -- Both readers leave the same stream after every statement. The fuels of both are counted down
  -- with the tokens.
  induction fuel generalizing s k r with
  | zero => cases hfuel
  | succ fuel ih =>
    rw [Parse.iterate_succ, Parse.statementRound]
    by_cases hs : s.tokens = []
    · refine ⟨r, s, by simp [hs], ?_⟩
      cases k <;> simp [readFrom, reading, hs]
    · have hempty : s.tokens.isEmpty = false := by simpa using hs
      have hlen := ((Stream.Ahead.refl s).skipStatement hs).length
      obtain ⟨k, rfl⟩ := Nat.exists_eq_add_one_of_ne_zero (by omega : k ≠ 0)
      have hrest := fun r => ih (s := s.skipStatement) (k := k) (by omega) (by omega) (by omega)
        (by omega) r
      simp only [readFrom, hempty, Bool.false_eq_true, if_false]
      obtain ⟨stmt, hx, hy⟩ | ⟨e, t, u, hx, hy, hspan, ht, hu, hcause⟩ :=
        Parse.statement_agrees hsteps hm
      · rw [hx, hy]
        exact hrest (stmt :: r.1, r.2)
      · -- Where the two runs got stuck may differ, but not the terminator they skip to.
        rw [hx, hy]
        obtain ⟨cause, span⟩ := e
        cases cause with
        | outOfSteps => exact absurd rfl hcause
        | _ =>
          cases recovering with
          | true =>
            dsimp only
            rw [if_pos rfl, if_pos rfl, ht, hu]
            exact hrest (r.1, _ :: r.2)
          | false =>
            refine ⟨(r.1, _ :: r.2), u, rfl, ?_⟩
            dsimp only
            rw [if_neg Bool.false_ne_true, hspan]
            rfl

/-- Reads a source text, if there is fuel enough for its tokens, its statements and the parser. -/
def readWithin (recovering : Bool) (fuel : Nat) (source : String) : Option Reading :=
  (lexIn fuel source.toList 0).bind fun tokens =>
    let s := Stream.ofTokens tokens source.utf8ByteSize
    match Parse.iterate (Parse.statementRound recovering fuel) fuel ([], []) s with
    | .ok r t => some (reading s.span.start r t)
    | .error _ _ => none

/-- **There is fuel enough for every text**: eight steps for each character, and six more. -/
theorem readWithin_eq (recovering : Bool) (source : String) {fuel : Nat}
    (h : 8 * source.length + 6 ≤ fuel) :
    readWithin recovering fuel source = some (read recovering source) := by
  obtain ⟨ls, hls⟩ := exists_lexes source.toList
  have hlength := hls.length_le
  rw [String.length_toList] at hlength
  have htokens : (lex source).length = ls.length := by rw [hls.lex_eq, Lexeme.length_tokens]
  -- A token takes a character at least, so there are no more tokens than characters.
  have hlex : lexIn fuel source.toList 0 = some (lex source) := by
    rw [hls.lex_eq]
    exact hls.lexIn_eq fuel 0 (by omega)
  let s := Stream.ofTokens (lex source) source.utf8ByteSize
  have hs : s.tokens.length = ls.length := htokens
  obtain ⟨r, t, hrun, hread⟩ : ∃ r t,
      Parse.iterate (Parse.statementRound recovering fuel) fuel ([], []) s = .ok r t ∧
        read recovering source = reading s.span.start r t :=
    iterate_statementRound recovering s.span.start (le_stepsFor _) (by omega) (Nat.le_refl _)
      (by omega) ([], [])
  rw [readWithin, hlex, Option.bind_some]
  dsimp only
  rw [hrun, hread]

/-- **Lexing and parsing make progress and end, on every text.**

The lexer comes to the end of the text if there is no token left, and otherwise goes forward by a
gap and a token with at least one character. So a text consists of tokens with gaps between them.
Every parser that succeeds has taken a token, whatever its steps are, and so has every round of a
loop that is not the last one. Therefore a number of steps that is linear in the length of the text
is enough to read it, strictly or recovering from errors. -/
theorem reading_progresses :
    (∀ cs n,
      (nextToken cs n = none → Gap 0 cs ∧ skipTrivia 0 n cs n = .ok ⟨[], n + bytes cs⟩) ∧
        ∀ t next, nextToken cs n = some (t, next) → n < next.offset ∧ ∃ gap text,
          Gap 0 gap ∧ text ≠ [] ∧ cs = gap ++ (text ++ next.rest) ∧
            t.span = ⟨n + bytes gap, next.offset⟩ ∧ next.offset = n + bytes gap + bytes text) ∧
      (∀ source, ∃ ls tail, lex source = Lexeme.tokens 0 ls ∧
        (∀ l ∈ ls, Gap 0 l.blank ∧ l.text ≠ []) ∧ Gap 0 tail ∧
          source.toList = Lexeme.texts ls ++ tail) ∧
      (∀ n, Parse.ConsumesAt n ∧ Parse.ConsumesContractAt n ∧
        ∀ s, Parse.Consumes 1 s (Parse.bareStatement n) ∧ Parse.Consumes 1 s (Parse.statement n)) ∧
      (∀ s, Parse.Consumes 1 s Parse.identifier ∧ (∀ c, Parse.Consumes 1 s (Parse.expect c)) ∧
        ∀ c, Parse.Consumes 1 s (Parse.expectKeyword c)) ∧
      Parse.Loops ∧
      ∀ recovering source fuel, 8 * source.length + 6 ≤ fuel →
        readWithin recovering fuel source = some (read recovering source) := by
  refine ⟨fun cs n => ⟨nextToken_of_none, fun t next h => ?_⟩, fun source => ?_, fun n => ?_,
    fun s => ?_, Parse.loops, fun recovering source fuel h => readWithin_eq recovering source h⟩
  · obtain ⟨gap, text, hgap, hne, hsplit, hspan, hoffset⟩ := nextToken_of_some h
    have hpos := Text.bytes_pos hne
    exact ⟨by omega, gap, text, hgap, hne, hsplit, hspan, hoffset⟩
  · obtain ⟨ls, hls⟩ := exists_lexes source.toList
    obtain ⟨hgaps, tail, htail, hsplit⟩ := hls.gaps
    exact ⟨ls, tail, hls.lex_eq, hgaps, htail, hsplit⟩
  · exact ⟨Parse.consumesAt n, Parse.consumesContractAt n,
      fun s => ⟨Parse.consumes_bareStatement n s, Parse.consumes_statement n s⟩⟩
  · exact ⟨.identifier s, fun c => .expect c s, fun c => .expectKeyword c s⟩

/-- Two malformed statements, the second of which ends in a comment that is not closed. -/
theorem reading_progresses_unclosed_comment :
    let source := "let ( = 'ab;; ) (* x (* *)"
    8 * source.length + 6 ≤ 214 ∧ (recover source).errors.length = 2 ∧
      (readWithin true 214 source).map (fun r => r.errors.length) = some 2 := by
  intro source
  have hfuel : 8 * source.length + 6 ≤ 214 := by decide
  have herrors : (recover source).errors.length = 2 := by decide +kernel
  refine ⟨hfuel, herrors, ?_⟩
  rw [reading_progresses.2.2.2.2.2 true source 214 hfuel]
  exact congrArg some herrors

end Program

end ContractML
