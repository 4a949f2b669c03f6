import ContractML.Proofs.Lookahead
import ContractML.Proofs.StrictReading

/-!
# Flat contracts

A contract may be a predicate, which is an expression. It may also stand in parentheses, and so may
an expression. The parser of contracts decides between them by one token: after an opening
parenthesis it reads a contract up to the closing one, and never goes back. So an expression can be
used as a contract if it does not begin with a parenthesis, or if it is such an expression with
parentheses around it. Any other expression is refused: a call of a function in parentheses, an
operator after an operand in parentheses, and a sequence in parentheses.

The two parsers are compared on the same tokens. Where the expression begins with a parenthesis,
both of them read what stands in it, by the same comparison. After the closing parenthesis the
contract is at its end, and the expression goes on if an argument or an operator follows.

## Main definitions

* `Parse.Plain` — the tokens of expressions that can be used as contracts.
* `Program.IsExpression` — a text that is an expression.
* `Program.declaration` — the text that declares a contract.

## Main results

* `Parse.Plain.contract` — a plain expression is read as a flat contract.
* `Parse.plain_of_contract` — no other expression is read as a contract.
* `Program.flat_contract_iff_plain` — **an expression is a flat contract exactly if it is plain**.
-/

namespace ContractML

namespace Parse

open Follows (bind_apply)

variable {ks ms ts rest : List TokenKind} {k z : TokenKind} {c : ContractExpr} {e : Expr}
  {n m : Nat} {s t : Stream}

/-! ### Contracts that are accepted -/

namespace Accepts

theorem contractTerm_flat (hks : ks.head? ≠ some (.symbol .lparen))
    (h : Accepts (Parse.expression · 0) ks e ms) : Accepts contractTerm ks (.flat e) ms := by
  refine of_succ ?_
  filter_upwards [h] with n h
  simp [Parse.contractTerm, bind_apply, hks, h]

theorem contractTerm_parentheses (h : Accepts Parse.contract ks c (.symbol .rparen :: ms)) :
    Accepts contractTerm (.symbol .lparen :: ks) c ms := by
  refine of_succ ?_
  filter_upwards [h] with n h
  simp [Parse.contractTerm, bind_apply, h]

theorem contractTail_nil (acc : List ContractExpr) (hms : ms.head? ≠ some (.symbol .arrow)) :
    Accepts (contractTail · acc) ms acc ms := by
  refine of_succ (.of_forall fun n => ?_)
  simp [Parse.contractTail, bind_apply, hms]

theorem contract_one (h : Accepts contractTerm ks c ms) (hms : ms.head? ≠ some (.symbol .arrow)) :
    Accepts Parse.contract ks c ms := by
  refine of_succ ?_
  filter_upwards [h, contractTail_nil [] hms] with n h hrest
  simp [Parse.contract, bind_apply, h, hrest]

theorem statement_contract (x : String) (h : Accepts Parse.contract ks c ms) :
    Accepts bareStatement (.keyword .kwContract :: .ident x :: .symbol .eq :: ks)
      (.contract ⟨x, .nowhere⟩ c) ms := by
  filter_upwards [h] with n h
  simp [bareStatement, bind_apply, h]

/-- A parser reads tokens in one way. -/
theorem unique {α : Type} {p : Nat → Parse α} {a b : α} {us : List TokenKind}
    (h : Accepts p ks a ms) (h' : Accepts p ks b us) : a = b ∧ ms = us := by
  obtain ⟨n, hn, hn'⟩ := (h.and h').exists
  rw [hn] at hn'
  injection hn' with hab hstream
  exact ⟨hab, Stream.ofKinds_inj hstream⟩

end Accepts

/-- The tokens of an expression that does not begin with a parenthesis, or of such an expression
with parentheses around it. -/
inductive Plain : List TokenKind → Prop
  | predicate {ts : List TokenKind} {e : Expr} (hts : ts.head? ≠ some (.symbol .lparen))
      (h : Accepts (expression · 0) ts e []) : Plain ts
  | parentheses {ts : List TokenKind} (h : Plain ts) :
      Plain (.symbol .lparen :: (ts ++ [.symbol .rparen]))

/-- What comes after an expression can be replaced by anything before which it stops. -/
theorem accepts_before (h : Accepts (expression · 0) ts e []) :
    Complete ts ∧ ∀ ms, Stops ms → Accepts (expression · 0) (ts ++ ms) e ms := by
  obtain ⟨n, hn⟩ := h.exists
  obtain ⟨us, vs, rfl, hvs, hus, hsame⟩ := accepts_of_expression hn
  obtain rfl := Stream.ofKinds_inj hvs
  rw [List.append_nil]
  exact ⟨hus, fun ms hms => hsame ms (.inr hms)⟩

/-- **A plain expression is read as a flat contract.** -/
theorem Plain.contract (h : Plain ts) :
    ∃ e, ∀ ms, Stops ms → Accepts contract (ts ++ ms) (.flat e) ms := by
  induction h with
  | @predicate ts e hts h =>
    obtain ⟨hcomplete, hbefore⟩ := accepts_before h
    refine ⟨e, fun ms hms => ?_⟩
    have hhead : (ts ++ ms).head? ≠ some (.symbol .lparen) := by
      obtain ⟨k, us, rfl⟩ := List.exists_cons_of_ne_nil hcomplete.ne_nil
      exact hts
    refine .contract_one (.contractTerm_flat hhead (hbefore ms hms)) ?_
    exact hms.ne (by simp) (by simp)
  | @parentheses ts h ih =>
    obtain ⟨e, hinner⟩ := ih
    refine ⟨e, fun ms hms => ?_⟩
    rw [List.cons_append, List.append_assoc, List.singleton_append]
    refine .contract_one (.contractTerm_parentheses (hinner _ (.rparen ms))) ?_
    exact hms.ne (by simp) (by simp)

/-! ### Contracts and expressions side by side -/

theorem kind?_of_expect {sym : Symbol} {a : Unit} (h : expect sym s = .ok a t) :
    s.kind? = some (.symbol sym) := by
  obtain ⟨here, hhere, hrun⟩ := Follows.atSymbol_apply sym s
  rw [expect, bind_apply, hrun s rfl] at h
  cases here with
  | true => exact hhere.mp rfl
  | false => exact absurd h (Takes.unexpected_ne_ok _ _ _ _)

theorem contractTail_of_ne (n : Nat) (acc : List ContractExpr)
    (h : s.kind? ≠ some (.symbol .arrow)) : contractTail (n + 1) acc s = .ok acc s := by
  obtain ⟨more, hmore, hrun⟩ := Follows.atSymbol_apply .arrow s
  obtain rfl : more = false := Bool.eq_false_iff.mpr fun hyes => h (hmore.mp hyes)
  rw [contractTail, bind_apply, hrun s rfl]
  rfl

/-- A contract begins with a term, and ends with it unless there is an arrow. -/
theorem contractTerm_of_contract (h : contract (n + 1) s = .ok c t) :
    ∃ first u, contractTerm n s = .ok first u ∧
      (u.kind? ≠ some (.symbol .arrow) → c = first ∧ t = u) := by
  rw [contract] at h
  obtain ⟨_, _, hstart, h⟩ := Gives.bind_eq_ok h
  cases hstart
  obtain ⟨first, u, hfirst, h⟩ := Gives.bind_eq_ok h
  refine ⟨first, u, hfirst, fun harrow => ?_⟩
  obtain ⟨others, v, hothers, h⟩ := Gives.bind_eq_ok h
  cases n with
  | zero => cases hothers
  | succ n =>
    rw [contractTail_of_ne n [] harrow] at hothers
    cases hothers
    cases h
    exact ⟨rfl, rfl⟩

theorem expression_of_contractTerm (hks : ks.head? ≠ some (.symbol .lparen))
    (h : contractTerm (n + 1) (.ofKinds ks) = .ok c t) :
    ∃ e, expression n 0 (.ofKinds ks) = .ok e t ∧ c = .flat e := by
  rw [contractTerm, bind_of_ok _ (atSymbol_ofKinds _ _), beq_eq_false_iff_ne.mpr hks] at h
  obtain ⟨e, u, he, h⟩ := Gives.bind_eq_ok h
  cases h
  exact ⟨e, he, rfl⟩

/-- What begins with a parenthesis is a contract in parentheses. -/
theorem contract_of_contractTerm
    (h : contractTerm (n + 1) (.ofKinds (.symbol .lparen :: ks)) = .ok c t) :
    ∃ u, contract n (.ofKinds ks) = .ok c u ∧ expect .rparen u = .ok () t := by
  have hrun : contractTerm (n + 1) (.ofKinds (.symbol .lparen :: ks)) =
      (do let inner ← contract n; expect .rparen; return inner : Parse ContractExpr)
        (.ofKinds ks) := rfl
  rw [hrun] at h
  obtain ⟨inner, u, hinner, h⟩ := Gives.bind_eq_ok h
  obtain ⟨_, v, hv, h⟩ := Gives.bind_eq_ok h
  cases h
  exact ⟨u, hinner, hv⟩

/-- A sequence begins with an expression, and ends with it unless there is a semicolon. -/
theorem expression_of_sequence (h : sequence n s = .ok e t) :
    ∃ m first u, expression m 0 s = .ok first u ∧
      (u.kind? ≠ some (.symbol .semi) → e = first ∧ t = u) := by
  cases n with
  | zero => cases h
  | succ n =>
    rw [sequence] at h
    obtain ⟨_, _, hstart, h⟩ := Gives.bind_eq_ok h
    cases hstart
    obtain ⟨first, u, hfirst, h⟩ := Gives.bind_eq_ok h
    refine ⟨n, first, u, hfirst, fun hsemi => ?_⟩
    obtain ⟨others, v, hothers, h⟩ := Gives.bind_eq_ok h
    cases n with
    | zero => cases hothers
    | succ n =>
      rw [sequenceTail_of_ne n [] hsemi] at hothers
      cases hothers
      cases h
      exact ⟨rfl, rfl⟩

/-- What stands in parentheses is read as a sequence. -/
theorem sequence_of_enclosed (h : enclosed n (.ofKinds ks) = .ok e t) :
    ∃ ms, sequence n (.ofKinds ks) = .ok e (.ofKinds (.symbol .rparen :: ms)) ∧
      t = .ofKinds ms := by
  obtain ⟨inner, u, hinner, h⟩ := Gives.bind_eq_ok h
  obtain ⟨_, v, hv, h⟩ := Gives.bind_eq_ok h
  cases h
  obtain ⟨us, ms, -, rfl, -, -⟩ := accepts_of_sequence hinner
  have hhead := kind?_of_expect hv
  rw [Stream.kind?_ofKinds] at hhead
  obtain ⟨ms, rfl⟩ := List.head?_eq_some_iff.mp hhead
  rw [expect_ofKinds] at hv
  cases hv
  exact ⟨ms, hinner, rfl⟩

/-- An expression that begins with a parenthesis begins with a sequence in parentheses, and ends
with it unless an argument or an operator follows. -/
theorem sequence_of_expression {level : Nat}
    (h : expression n level (.ofKinds (.symbol .lparen :: ks)) = .ok e t) :
    ∃ m inner ms, sequence m (.ofKinds ks) = .ok inner (.ofKinds (.symbol .rparen :: ms)) ∧
      (Idle ms → e = inner ∧ t = .ofKinds ms) := by
  obtain _ | _ | _ | _ | n := n
  · cases h
  · cases h
  · cases h
  · cases h
  rw [expression] at h
  obtain ⟨left, u, hleft, h⟩ := Gives.bind_eq_ok h
  have hoperand : operand (n + 3) (.ofKinds (.symbol .lparen :: ks)) =
      application (n + 2) (.ofKinds (.symbol .lparen :: ks)) := rfl
  rw [hoperand, application] at hleft
  obtain ⟨callee, v, hcallee, hleft⟩ := Gives.bind_eq_ok hleft
  obtain ⟨ms, hinner, rfl⟩ := sequence_of_enclosed hcallee
  refine ⟨n, callee, ms, hinner, fun hidle => ?_⟩
  -- Neither the call nor the operators around it find anything to go on with.
  obtain ⟨hoperator, hatom⟩ := hidle
  rw [← Stream.kind?_ofKinds] at hoperator hatom
  rw [bind_of_ok _ (arguments_of_none n [] hatom)] at hleft
  cases hleft
  rw [operators_of_none _ _ _ hoperator] at h
  cases h
  exact ⟨rfl, rfl⟩

theorem expression_unique {level : Nat} {e' : Expr} {t' : Stream}
    (h : expression n level (.ofKinds ks) = .ok e t)
    (h' : expression m level (.ofKinds ks) = .ok e' t') : e = e' ∧ t = t' := by
  obtain ⟨us, ms, hks, rfl, -, haccepts⟩ := accepts_of_expression h
  obtain ⟨us', ms', hks', rfl, -, haccepts'⟩ := accepts_of_expression h'
  have hfirst := haccepts ms (.inl rfl)
  have hsecond := haccepts' ms' (.inl rfl)
  rw [← hks] at hfirst
  rw [← hks'] at hsecond
  obtain ⟨he, rfl⟩ := hfirst.unique hsecond
  exact ⟨he, rfl⟩

/-- A contract ends where its first term ends, and a sequence where its first expression ends, if
these end in one place, and the sequence before `z`, and no other token follows the contract. -/
theorem end_together {first : ContractExpr} {left inner : Expr} {v : Stream}
    (hz : Stops (z :: rest))
    (hcontract : (Stream.ofKinds ms).kind? ≠ some (.symbol .arrow) → c = first ∧ t = .ofKinds ms)
    (hsequence : v.kind? ≠ some (.symbol .semi) → e = left ∧ .ofKinds (z :: rest) = v)
    (hv : Idle ms → left = inner ∧ v = .ofKinds ms) (ht : ∀ k ∈ t.kind?, k = z) :
    c = first ∧ t = .ofKinds ms ∧ e = inner ∧ ms = z :: rest := by
  -- If nothing goes on in the expression, then the only token that could make the sequence longer
  -- is a semicolon.
  have hidle : Idle ms → ms.head? ≠ some (.symbol .semi) → e = inner ∧ ms = z :: rest := by
    intro hms hsemi
    obtain ⟨rfl, rfl⟩ := hv hms
    rw [Stream.kind?_ofKinds] at hsequence
    obtain ⟨he, hstream⟩ := hsequence hsemi
    exact ⟨he, (Stream.ofKinds_inj hstream).symm⟩
  -- An arrow would go on in the contract alone, but the sequence would stop at it and not at `z`.
  have harrow : ms.head? ≠ some (.symbol .arrow) := by
    intro harrow
    obtain ⟨-, rfl⟩ := hidle ⟨by rw [harrow]; rfl, by rw [harrow]; rfl⟩ (by rw [harrow]; simp)
    exact hz.ne (by simp) (by simp) harrow
  rw [Stream.kind?_ofKinds] at hcontract
  obtain ⟨hc, rfl⟩ := hcontract harrow
  have hstops : Stops ms := by
    intro k hk
    rw [← Stream.kind?_ofKinds] at hk
    rw [ht k hk]
    exact hz z rfl
  exact ⟨hc, rfl, hidle hstops.idle (hstops.ne (by simp) (by simp))⟩

/-- **Only a plain expression is read as a contract.** Let tokens up to a closing parenthesis or a
terminator be a sequence of expressions. If they are read as a contract after which no other token
comes, then they are a plain expression, and the contract is flat. -/
theorem plain_of_contract (hz : Stops (z :: rest))
    (hsequence : sequence n (.ofKinds (ts ++ z :: rest)) = .ok e (.ofKinds (z :: rest)))
    (hcontract : contract m (.ofKinds (ts ++ z :: rest)) = .ok c t)
    (ht : ∀ k ∈ t.kind?, k = z) : c = .flat e ∧ t = .ofKinds (z :: rest) ∧ Plain ts := by
  -- each pair of parentheses takes two steps of the parser of contracts
  induction m using Nat.strongRecOn generalizing n ts z rest e c t with
  | ind m ih =>
    obtain ⟨us, vs, hsplit, hvs, hcomplete, -⟩ := accepts_of_sequence hsequence
    obtain rfl := Stream.ofKinds_inj hvs
    obtain rfl := List.append_cancel_right hsplit
    obtain ⟨k, ts, rfl⟩ := List.exists_cons_of_ne_nil hcomplete.ne_nil
    obtain _ | _ | m := m
    · cases hcontract
    · cases hcontract
    obtain ⟨first, u, hfirst, hend⟩ := contractTerm_of_contract hcontract
    obtain ⟨l, left, v, hleft, hlast⟩ := expression_of_sequence hsequence
    by_cases hk : k = .symbol .lparen
    · subst hk
      -- Both parsers open the same parenthesis, and what they read inside ends before the same
      -- closing one.
      obtain ⟨u', hinner, hexpect⟩ := contract_of_contractTerm hfirst
      obtain ⟨l', inner, ms, hseq, hidle⟩ := sequence_of_expression hleft
      obtain ⟨us, ws, hus, hws, -, -⟩ := accepts_of_sequence hseq
      obtain rfl := Stream.ofKinds_inj hws
      rw [hus] at hinner hseq
      obtain ⟨rfl, rfl, hplain⟩ := ih m (by omega) (.rparen ms) hseq hinner
        fun k hk => Option.some.inj (hk.symm.trans (kind?_of_expect hexpect))
      rw [expect_ofKinds] at hexpect
      cases hexpect
      obtain ⟨rfl, rfl, rfl, rfl⟩ := end_together hz hend hlast hidle ht
      rw [List.append_cons] at hus
      obtain rfl := List.append_cancel_right hus
      exact ⟨rfl, rfl, .parentheses hplain⟩
    · have hhead : (k :: ts ++ z :: rest).head? ≠ some (.symbol .lparen) := by
        intro h
        exact hk (Option.some.inj h)
      -- Without a parenthesis the contract is the expression.
      obtain ⟨e', he', rfl⟩ := expression_of_contractTerm hhead hfirst
      obtain ⟨rfl, rfl⟩ := expression_unique he' hleft
      obtain ⟨us, ms, hus, rfl, -, haccepts⟩ := accepts_of_expression he'
      obtain ⟨rfl, rfl, rfl, rfl⟩ := end_together hz hend hlast (fun _ => ⟨rfl, rfl⟩) ht
      obtain rfl := List.append_cancel_right hus
      have hwhole := haccepts [] (.inr fun _ h => nomatch h)
      rw [List.append_nil] at hwhole
      exact ⟨rfl, rfl, .predicate hhead hwhole⟩

/-- A statement that declares a contract ends with the contract and a terminator. -/
theorem contract_of_statement {x : String} {stmt : Stmt}
    (h : statement n (.ofKinds (.keyword .kwContract :: .ident x :: .symbol .eq :: ks)) =
      .ok stmt t) :
    ∃ c u, contract n (.ofKinds ks) = .ok c u ∧ ∀ k ∈ u.kind?, k = .symbol .semiSemi := by
  have hrun : bareStatement n
      (.ofKinds (.keyword .kwContract :: .ident x :: .symbol .eq :: ks)) =
        (do return Stmt.contract ⟨x, .nowhere⟩ (← contract n) : Parse (Span → Stmt))
          (.ofKinds ks) := rfl
  rw [statement_ofKinds] at h
  obtain ⟨f, u, hf, h⟩ := Gives.bind_eq_ok h
  rw [hrun] at hf
  obtain ⟨c, u, hc, hf⟩ := Gives.bind_eq_ok hf
  cases hf
  refine ⟨c, _, hc, fun k hk => ?_⟩
  rw [ending, Follows.kind?_bind_apply, Option.mem_def.mp hk] at h
  obtain ⟨_, v, hv, -⟩ := Gives.bind_eq_ok h
  exact Option.some.inj (hk.symm.trans (kind?_of_expect hv))

end Parse

/-! ### Texts -/

namespace Program

/-- The text is an expression: it is read as one, up to its end. -/
def IsExpression (source : String) (e : Expr) : Prop :=
  ∃ t, Parse.expression (stepsFor (lex source).length) 0
    (.ofTokens (lex source) source.utf8ByteSize) = .ok e t ∧ t.tokens = []

/-- The declaration of a contract for a name. -/
def declaration (x source : String) : String := "contract " ++ x ++ " = " ++ source ++ ";;"

variable {x source : String} {e : Expr}

theorem IsExpression.accepts (h : IsExpression source e) :
    Parse.Accepts (Parse.expression · 0) ((lex source).map Token.kind) e.bare [] := by
  obtain ⟨t, hrun, ht⟩ := h
  have hsteps := le_stepsFor (lex source).length
  have hbares := Parse.expression_bares (s := .ofTokens (lex source) source.utf8ByteSize) 0
    (Nat.le_of_add_right_le (k := 2) hsteps)
  rw [hrun] at hbares
  generalize hr : Parse.expression _ 0 (.ofKinds _) = r at hbares
  cases hbares with
  | ok _ ha =>
    obtain ⟨us, ms, hks, hms, -, haccepts⟩ := Parse.accepts_of_expression hr
    obtain rfl := Stream.ofKinds_inj hms
    have hwhole := haccepts _ (.inl rfl)
    rwa [← hks, ha, ht] at hwhole

/-- The kinds of the tokens of a declaration, where the contract has the kinds `ts`. -/
def declarationKinds (x : String) (ts : List TokenKind) : List TokenKind :=
  .keyword .kwContract :: .ident x :: .symbol .eq :: (ts ++ [.symbol .semiSemi])

theorem spells_declaration (hx : isName x = true)
    (h : Parse.Complete ((lex source).map Token.kind)) :
    Spells (declaration x source).toList (declarationKinds x ((lex source).map Token.kind)) := by
  obtain ⟨ls, hls⟩ := exists_lexes source.toList
  have hsource : Spells source.toList ((lex source).map Token.kind) :=
    ⟨ls, hls, by rw [hls.lex_eq, Lexeme.kind_tokens]⟩
  obtain ⟨k, hlast, hends⟩ := h
  have hterminated := hsource.terminated fun k' hk' => by
    rw [hlast] at hk'
    cases hk'
    exact hends
  have heq := Symbol.eq.writtenAs.space hterminated
  have hname := (writtenAs_of_isName hx).space heq
  have hcontract := Keyword.kwContract.writtenAs.space hname
  simpa [declaration, declarationKinds, Keyword.spelling, Symbol.spelling] using hcontract

variable {ts : List TokenKind} {c : ContractExpr}

/-- A declaration is read if the contract is accepted up to the terminator. -/
theorem parse_of_contract (hsource : Spells source.toList (declarationKinds x ts))
    (h : Parse.Accepts Parse.contract (ts ++ [.symbol .semiSemi]) c [.symbol .semiSemi]) :
    ∃ p, parse source = .ok p ∧ ∃ c' span span', p.body = [.contract ⟨x, span⟩ c' span'] ∧
      c'.move (fun _ => 0) = c := by
  obtain ⟨n, hrun, hsteps⟩ := ((h.statement_contract x).and
    (Filter.eventually_ge_atTop (8 * (declarationKinds x ts).length + 6))).exists
  have hstatement : Parse.statement n (.ofKinds (declarationKinds x ts)) =
      .ok (.contract ⟨x, .nowhere⟩ c .nowhere) (.ofKinds []) := by
    rw [declarationKinds]
    simp [Parse.statement, Parse.Follows.bind_apply, hrun]
  -- What is read without positions is what is read with them, up to positions.
  obtain ⟨p, hp, stmt, hbody, hmove⟩ :=
    parse_of_entriesOf hsource (entriesOf_of_statement (List.cons_ne_nil _ _) hsteps hstatement)
  refine ⟨p, hp, ?_⟩
  cases stmt with
  | expr e' span => cases hmove
  | define y v span => cases hmove
  | contract y c' span =>
    obtain ⟨hname, hcontract, -⟩ := Stmt.contract.inj hmove
    obtain ⟨y, place⟩ := y
    obtain rfl : y = x := (Ident.mk.inj hname).1
    exact ⟨c', place, span, hbody, hcontract⟩

/-- A text whose first statement is malformed is refused. -/
theorem parse_of_first_malformed {err : SyntaxError} {xs : List Entry}
    (h : entries source = .malformed err :: xs) : parse source = .error err := by
  rcases read_strict_eq source with ⟨hnone, -⟩ | ⟨before, err', after, hentries, -, herrors⟩
  · rw [h] at hnone
    cases hnone
  · rw [h] at hentries
    cases before with
    | nil =>
      cases hentries
      rw [parse, herrors]
    | cons stmt before => cases hentries

/-- A declaration is refused if no contract ends before the terminator. -/
theorem parse_of_no_contract (hsource : Spells source.toList (declarationKinds x ts))
    (h : ∀ m c t, Parse.contract m (.ofKinds (ts ++ [.symbol .semiSemi])) = .ok c t →
      ¬∀ k ∈ t.kind?, k = .symbol .semiSemi) : ∃ err, parse source = .error err := by
  have hlength : (declarationKinds x ts).length = ts.length + 3 + 1 := by simp [declarationKinds]
  -- The first entry is looked at without positions.
  have hbare := entries_bare source
  rw [hsource.kind_lex, entriesOf, hlength, entriesFrom] at hbare
  generalize stepsFor (ts.length + 3 + 1) = n at hbare
  cases hrun : Parse.statement n (.ofKinds (declarationKinds x ts)) with
  | ok stmt t =>
    obtain ⟨c, u, hcontract, hu⟩ := Parse.contract_of_statement hrun
    exact absurd hu (h n c u hcontract)
  | error err t =>
    have hfirst : Entry.first n (.ofKinds (declarationKinds x ts)) = .malformed err := by
      rw [Entry.first, hrun]
    rw [hfirst] at hbare
    obtain ⟨entry, xs, hentries, hentry, -⟩ := List.map_eq_cons_iff.mp hbare
    cases entry with
    | statement stmt => cases hentry
    | malformed err' => exact ⟨err', parse_of_first_malformed hentries⟩

/-- **An expression is a flat contract exactly if it is plain.** Let a text be an expression, and
let it stand as the contract in a declaration for a name. If the expression does not begin with a
parenthesis, or is such an expression with parentheses around it, then the declaration is read, and
the contract is flat and consists of the expression. Otherwise the declaration is refused. -/
theorem flat_contract_iff_plain (hx : isName x = true) (h : IsExpression source e) :
    (Parse.Plain ((lex source).map Token.kind) →
      ∃ p, parse (declaration x source) = .ok p ∧
        ∃ e' span span', p.body = [.contract ⟨x, span⟩ (.flat e') span'] ∧ e'.bare = e.bare) ∧
    (¬Parse.Plain ((lex source).map Token.kind) →
      ∃ err, parse (declaration x source) = .error err) := by
  -- The text is read alike before a terminator, of which the declaration has one.
  obtain ⟨hcomplete, hbefore⟩ := Parse.accepts_before h.accepts
  have hspells := spells_declaration hx hcomplete
  generalize (lex source).map Token.kind = ts at hcomplete hbefore hspells
  have hstops := Parse.Stops.semiSemi []
  obtain ⟨n, hsequence⟩ := (Parse.Accepts.sequence_one (hbefore _ hstops) (by simp)).exists
  constructor
  · intro hplain
    obtain ⟨e', hcontract⟩ := hplain.contract
    obtain ⟨m, hrun⟩ := (hcontract _ hstops).exists
    have hend : ∀ k ∈ (Stream.ofKinds [.symbol .semiSemi]).kind?, k = .symbol .semiSemi :=
      fun k hk => (Option.some.inj hk).symm
    obtain ⟨hflat, -, -⟩ := Parse.plain_of_contract hstops hsequence hrun hend
    obtain ⟨p, hp, c, span, span', hbody, hc⟩ := parse_of_contract hspells (hcontract _ hstops)
    refine ⟨p, hp, ?_⟩
    cases c with
    | arrow ds r place => cases hc
    | flat e'' =>
      refine ⟨e'', span, span', hbody, ?_⟩
      exact (ContractExpr.flat.inj hc).trans (ContractExpr.flat.inj hflat)
  · intro hplain
    refine parse_of_no_contract hspells fun m c t hrun ht => hplain ?_
    exact (Parse.plain_of_contract hstops hsequence hrun ht).2.2

/-- Whether a text is an expression. -/
def readsExpression (source : String) : Bool :=
  match Parse.expression (stepsFor (lex source).length) 0
    (.ofTokens (lex source) source.utf8ByteSize) with
  | .ok _ t => t.tokens.isEmpty
  | .error _ _ => false

theorem exists_isExpression (h : readsExpression source = true) : ∃ e, IsExpression source e := by
  unfold readsExpression at h
  split at h
  · rename_i e t hrun
    exact ⟨e, t, hrun, List.isEmpty_iff.mp h⟩
  · cases h

/-- A function in two pairs of parentheses is plain, the call of a function in parentheses is
not. -/
theorem flat_contract_iff_plain_function_and_call :
    (∃ e, IsExpression "((fun n -> n > 0))" e ∧
      ∃ p, parse "contract c = ((fun n -> n > 0));;" = .ok p ∧
        ∃ e' span span', p.body = [.contract ⟨"c", span⟩ (.flat e') span'] ∧ e'.bare = e.bare) ∧
    ∃ e, IsExpression "(f) x" e ∧ ∃ err, parse "contract c = (f) x;;" = .error err := by
  have hc : isName "c" = true := by decide
  constructor
  · obtain ⟨e, he⟩ : ∃ e, IsExpression "((fun n -> n > 0))" e :=
      exists_isExpression (by decide +kernel)
    obtain ⟨inner, hinner⟩ : ∃ e, IsExpression "fun n -> n > 0" e :=
      exists_isExpression (by decide +kernel)
    have hkinds : (lex "((fun n -> n > 0))").map Token.kind =
        .symbol .lparen :: ((.symbol .lparen :: ((lex "fun n -> n > 0").map Token.kind ++
          [.symbol .rparen])) ++ [.symbol .rparen]) := by
      decide +kernel
    have hplain : Parse.Plain ((lex "((fun n -> n > 0))").map Token.kind) := by
      rw [hkinds]
      exact .parentheses (.parentheses (.predicate (by decide +kernel) hinner.accepts))
    exact ⟨e, he, (flat_contract_iff_plain hc he).1 hplain⟩
  · obtain ⟨e, he⟩ : ∃ e, IsExpression "(f) x" e := exists_isExpression (by decide +kernel)
    have hkinds : (lex "(f) x").map Token.kind =
        [.symbol .lparen, .ident "f", .symbol .rparen, .ident "x"] := by
      decide +kernel
    refine ⟨e, he, (flat_contract_iff_plain hc he).2 ?_⟩
    rw [hkinds]
    generalize hts : [_, _, _, _] = ts
    rintro (⟨hhead, -⟩ | @⟨us, -⟩)
    · rw [← hts] at hhead
      exact hhead rfl
    · have hlast := congrArg List.getLast? (List.cons.inj hts).2
      rw [List.getLast?_concat] at hlast
      cases hlast

/-- An expression that begins with a parenthesised function is not a contract. -/
theorem call_not_flat_contract :
    ∃ source e, IsExpression source e ∧
      ∃ err, parse ("contract c = " ++ source ++ ";;") = .error err := by
  obtain ⟨e, he⟩ : ∃ e, IsExpression "(f) x" e := exists_isExpression (by decide +kernel)
  have hrefused : (parse ("contract c = " ++ "(f) x" ++ ";;")).toOption.isNone = true := by
    decide +kernel
  refine ⟨"(f) x", e, he, ?_⟩
  cases hparse : parse ("contract c = " ++ "(f) x" ++ ";;") with
  | error err => exact ⟨err, rfl⟩
  | ok p =>
    rw [hparse] at hrefused
    cases hrefused

end Program

end ContractML
