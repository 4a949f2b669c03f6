import Mathlib.Order.Filter.AtTopBot.Basic
import ContractML.Proofs.Spelling

/-!
# What the parsers accept

A parser accepts the first tokens of a list if it reads them, and nothing else, as soon as it has
steps enough. There is one rule for each way in which a parser can go on. A rule asks what the
parsers it calls accept, and that the next token is none that would make the parser go on: a text in
which every token is read by some rule is read as a whole.

Only the kinds of tokens are known here, so the expressions that are read stand nowhere. The last
theorem says what that means for a text with these tokens.

## Main definitions

* `Expr.bare` — an expression without positions.
* `Parse.Accepts` — what a parser reads from tokens.

## Main results

* `Parse.Accepts.sequence`, `Parse.Accepts.operators_step`, `Parse.Accepts.application`, … — one
  rule for each parser.
* `Program.parse_of_accepts` — **a text whose tokens are accepted as an expression is read as one
  statement, which is that expression**.
-/

namespace ContractML

/-- The expression without positions. -/
def Expr.bare (e : Expr) : Expr := e.move fun _ => 0

theorem Expr.span_bare (e : Expr) : e.bare.span = .nowhere := e.span_move _

/-- Operators before an operand bind tighter than all others. -/
theorem Operator.level_lt_unaryLevel (o : Operator) : o.level < unaryLevel := by
  rcases o with op | op <;> cases op <;> decide

/-- The token of a literal. -/
def Literal.kind : Literal → TokenKind
  | .int n => .int n
  | .float x => .float x
  | .bool b => .keyword (if b then .kwTrue else .kwFalse)
  | .char c => .char c
  | .str s => .str s

/-! ### Steps of a parser -/

theorem Stream.kind?_ofKinds (ks : List TokenKind) : (ofKinds ks).kind? = ks.head? := by
  cases ks <;> rfl

@[simp] theorem Stream.span_ofKinds (ks : List TokenKind) : (ofKinds ks).span = .nowhere := by
  cases ks <;> rfl

namespace Parse

open Follows (bind_apply)

variable {α β : Type} {ks ms us : List TokenKind} {k : TokenKind}

@[simp] theorem pure_apply (a : α) (s : Stream) : (pure a : Parse α) s = .ok a s := rfl

@[simp] theorem map_apply (f : α → β) (x : Parse α) (s : Stream) :
    (f <$> x) s = match x s with
      | .ok a t => .ok (f a) t
      | .error e t => .error e t := by
  rw [← bind_pure_comp, bind_apply]
  rfl

@[simp] theorem kind?_ofKinds (ks : List TokenKind) :
    kind? (.ofKinds ks) = .ok ks.head? (.ofKinds ks) := by
  rw [← Stream.kind?_ofKinds]
  rfl

@[simp] theorem start_ofKinds (ks : List TokenKind) :
    start (.ofKinds ks) = .ok 0 (.ofKinds ks) := by
  cases ks <;> rfl

@[simp] theorem spanFrom_ofKinds (ks : List TokenKind) :
    spanFrom 0 (.ofKinds ks) = .ok .nowhere (.ofKinds ks) := rfl

@[simp] theorem get_ofKinds (ks : List TokenKind) :
    (get : Parse Stream) (.ofKinds ks) = .ok (.ofKinds ks) (.ofKinds ks) := rfl

@[simp] theorem advance_ofKinds (k : TokenKind) (ks : List TokenKind) :
    advance (.ofKinds (k :: ks)) = .ok () (.ofKinds ks) := rfl

@[simp] theorem atSymbol_ofKinds (s : Symbol) (ks : List TokenKind) :
    atSymbol s (.ofKinds ks) = .ok (ks.head? == some (.symbol s)) (.ofKinds ks) := by
  obtain ⟨b, hb, hrun⟩ := Follows.atSymbol_apply s (.ofKinds ks)
  have hb' : b = (ks.head? == some (.symbol s)) := by
    rw [Bool.eq_iff_iff, hb, Stream.kind?_ofKinds, beq_iff_eq]
  rw [hrun _ rfl, hb']

@[simp] theorem atKeyword_ofKinds (k : Keyword) (ks : List TokenKind) :
    atKeyword k (.ofKinds ks) = .ok (ks.head? == some (.keyword k)) (.ofKinds ks) := by
  obtain ⟨b, hb, hrun⟩ := Follows.atKeyword_apply k (.ofKinds ks)
  have hb' : b = (ks.head? == some (.keyword k)) := by
    rw [Bool.eq_iff_iff, hb, Stream.kind?_ofKinds, beq_iff_eq]
  rw [hrun _ rfl, hb']

@[simp] theorem expect_ofKinds (s : Symbol) (ks : List TokenKind) :
    expect s (.ofKinds (.symbol s :: ks)) = .ok () (.ofKinds ks) := by
  simp [expect, bind_apply]

@[simp] theorem expectKeyword_ofKinds (k : Keyword) (ks : List TokenKind) :
    expectKeyword k (.ofKinds (.keyword k :: ks)) = .ok () (.ofKinds ks) := by
  simp [expectKeyword, bind_apply]

@[simp] theorem identifier_ofKinds (x : String) (ks : List TokenKind) :
    identifier (.ofKinds (.ident x :: ks)) = .ok ⟨x, .nowhere⟩ (.ofKinds ks) := rfl

theorem takeIdentifiers_ofKinds (xs : List String) (acc : List Ident)
    (hks : ∀ x, ks.head? ≠ some (.ident x)) :
    takeIdentifiers 0 acc (Stream.ofKinds (xs.map .ident ++ ks)).tokens 0 =
      (acc.reverse ++ xs.map (⟨·, .nowhere⟩), .ofKinds ks) := by
  induction xs generalizing acc with
  | nil =>
    have hkind : ∀ x, (Stream.ofKinds ks).kind? ≠ some (.ident x) := by
      intro x
      rw [Stream.kind?_ofKinds]
      exact hks x
    rw [List.map_nil, List.map_nil, List.append_nil]
    exact Follows.takeIdentifiers_eq_of_kind? 0 acc hkind
  | cons x xs ih =>
    have hrest := ih (⟨x, .nowhere⟩ :: acc)
    rw [List.reverse_cons, List.append_assoc] at hrest
    exact hrest

theorem identifiers_ofKinds (xs : List String) {ks : List TokenKind}
    (hks : ∀ x, ks.head? ≠ some (.ident x)) :
    identifiers (.ofKinds (xs.map .ident ++ ks)) =
      .ok (xs.map (⟨·, .nowhere⟩)) (.ofKinds ks) := by
  have htake := takeIdentifiers_ofKinds xs [] hks
  have hrun : identifiers (.ofKinds (xs.map .ident ++ ks)) =
      .ok (takeIdentifiers 0 [] (Stream.ofKinds (xs.map .ident ++ ks)).tokens 0).1
        (takeIdentifiers 0 [] (Stream.ofKinds (xs.map .ident ++ ks)).tokens 0).2 := rfl
  rw [hrun, htake]
  rfl

/-! ### Accepted tokens -/

/-- With steps enough, the parser reads the first of the tokens as `a` and leaves `ms`. -/
def Accepts (p : Nat → Parse α) (ks : List TokenKind) (a : α) (ms : List TokenKind) : Prop :=
  ∀ᶠ n in Filter.atTop, p n (.ofKinds ks) = .ok a (.ofKinds ms)

namespace Accepts

/-- A parser whose steps are bounded may take one step. -/
theorem of_succ {p : Nat → Parse α} {a : α}
    (h : ∀ᶠ n in Filter.atTop, p (n + 1) (.ofKinds ks) = .ok a (.ofKinds ms)) :
    Accepts p ks a ms := by
  rw [Accepts, ← Filter.map_add_atTop_eq_nat 1, Filter.eventually_map]
  exact h

/-! Atoms, and calls of them -/

theorem literal (v : Literal) (ms : List TokenKind) :
    Accepts atom (v.kind :: ms) (.lit v .nowhere) ms := by
  refine of_succ (.of_forall fun n => ?_)
  cases v with
  | bool b => cases b <;> simp [Parse.atom, Literal.kind, bind_apply]
  | _ => simp [Parse.atom, Literal.kind, bind_apply]

theorem name (x : String) (ms : List TokenKind) :
    Accepts atom (.ident x :: ms) (.var ⟨x, .nowhere⟩) ms := by
  refine of_succ (.of_forall fun n => ?_)
  simp [Parse.atom, bind_apply]

theorem parentheses {e : Expr} (h : Accepts sequence ks e (.symbol .rparen :: ms)) :
    Accepts atom (.symbol .lparen :: ks) e ms := by
  refine of_succ ?_
  filter_upwards [h] with n h
  simp [Parse.atom, bind_apply, h]

/-- The arguments of a call end before a token that begins no atom. -/
theorem arguments_nil (acc : List Expr) (hms : ∀ k ∈ ms.head?, k.startsAtom = false) :
    Accepts (arguments · acc) ms acc.reverse ms := by
  refine of_succ (.of_forall fun n => ?_)
  cases ms with
  | nil => simp [Parse.arguments, bind_apply]
  | cons k ms => simp [Parse.arguments, bind_apply, hms k rfl]

theorem arguments_cons {e : Expr} {acc es : List Expr} (hk : k.startsAtom = true)
    (h : Accepts atom (k :: ks) e ms) (hrest : Accepts (arguments · (e :: acc)) ms es us) :
    Accepts (arguments · acc) (k :: ks) es us := by
  refine of_succ ?_
  filter_upwards [h, hrest] with n h hrest
  simp [Parse.arguments, bind_apply, hk, h, hrest]

theorem application_one {e : Expr} (h : Accepts atom ks e ms)
    (hms : ∀ k ∈ ms.head?, k.startsAtom = false) : Accepts application ks e ms := by
  refine of_succ ?_
  filter_upwards [h, arguments_nil [] hms] with n h hrest
  simp [Parse.application, bind_apply, h, hrest]

theorem application_call {e : Expr} {es : List Expr} (h : Accepts atom ks e ms)
    (he : e.span = .nowhere) (hrest : Accepts (arguments · []) ms es us) (hes : es ≠ []) :
    Accepts application ks (.call e es .nowhere) us := by
  refine of_succ ?_
  filter_upwards [h, hrest] with n h hrest
  cases es with
  | nil => exact absurd rfl hes
  | cons e' es => simp [Parse.application, bind_apply, h, hrest, he, Span.nowhere]

/-! Operands -/

/-- A token that begins an operand without arguments or operators before it. -/
theorem operand_application {e : Expr} (hk : k.startsAtom = true)
    (h : Accepts application (k :: ks) e ms) : Accepts operand (k :: ks) e ms := by
  refine of_succ ?_
  filter_upwards [h] with n h
  cases k with
  | symbol s =>
    cases s with
    | minus => cases hk
    | _ => simp [Parse.operand, bind_apply, h]
  | keyword k =>
    cases k with
    | kwTrue | kwFalse => simp [Parse.operand, bind_apply, h]
    | _ => cases hk
  | _ => simp [Parse.operand, bind_apply, h]

theorem operand_unary {op : UnaryOp} {e : Expr}
    (h : Accepts (expression · Operator.unaryLevel) ks e ms) :
    Accepts operand (op.kind :: ks) (.unary op e .nowhere) ms := by
  have hunary : Accepts (unary · op) (op.kind :: ks) (.unary op e .nowhere) ms := by
    refine of_succ ?_
    filter_upwards [h] with n h
    simp [Parse.unary, bind_apply, h]
  refine of_succ ?_
  filter_upwards [hunary] with n hunary
  cases op <;> simpa [Parse.operand, bind_apply, UnaryOp.kind] using hunary

theorem operand_lambda (x : String) (xs : List String) {e : Expr} (h : Accepts sequence ks e ms) :
    Accepts operand (.keyword .kwFun :: .ident x :: (xs.map .ident ++ .symbol .arrow :: ks))
      (.lambda ((x :: xs).map (⟨·, .nowhere⟩)) e .nowhere) ms := by
  have harrow : ∀ x, (TokenKind.symbol .arrow :: ks).head? ≠ some (.ident x) := by simp
  have hnames := identifiers_ofKinds xs harrow
  refine of_succ (of_succ ?_)
  filter_upwards [h] with n h
  simp [Parse.operand, Parse.lambda, bind_apply, h, hnames]

theorem operand_conditional {c t e : Expr}
    (hc : Accepts (expression · 0) ks c (.keyword .kwThen :: ms))
    (ht : Accepts (expression · 0) ms t (.keyword .kwElse :: us))
    {vs : List TokenKind} (he : Accepts (expression · 0) us e vs) :
    Accepts operand (.keyword .kwIf :: ks) (.cond c t e .nowhere) vs := by
  refine of_succ (of_succ ?_)
  filter_upwards [hc, ht, he] with n hc ht he
  simp [Parse.operand, Parse.conditional, bind_apply, hc, ht, he]

theorem binding {x : String} {e : Expr} (h : Accepts sequence ks e ms) :
    Accepts Parse.binding (.keyword .kwLet :: .ident x :: .symbol .eq :: ks) (⟨x, .nowhere⟩, e)
      ms := by
  have heq : ∀ x, (TokenKind.symbol .eq :: ks).head? ≠ some (.ident x) := by simp
  have hnames := identifiers_ofKinds [] heq
  refine of_succ ?_
  filter_upwards [h] with n h
  rw [List.map_nil, List.nil_append, List.map_nil] at hnames
  simp [Parse.binding, bind_apply, h, hnames, bindingValue]

theorem localLet {x : Ident} {v e : Expr} (h : Accepts sequence ks e ms) :
    Accepts (Parse.localLet · 0 x v) (.keyword .kwIn :: ks) (.letIn x v e .nowhere) ms := by
  refine of_succ ?_
  filter_upwards [h] with n h
  simp [Parse.localLet, bind_apply, h]

theorem operand_let {x : String} {v e : Expr} (hv : Accepts sequence ks v (.keyword .kwIn :: ms))
    (he : Accepts sequence ms e us) :
    Accepts operand (.keyword .kwLet :: .ident x :: .symbol .eq :: ks)
      (.letIn ⟨x, .nowhere⟩ v e .nowhere) us := by
  refine of_succ ?_
  filter_upwards [binding (x := x) hv, localLet (x := ⟨x, .nowhere⟩) (v := v) he] with n hv he
  simp [Parse.operand, bind_apply, hv, he]

/-! Operators -/

/-- Operators are read up to one that binds less than `level`, or a token that is no operator. -/
theorem operators_stop {left : Expr} {level : Nat}
    (hms : ∀ o ∈ ms.head?.bind Operator.ofKind?, o.level < level) :
    Accepts (operators · left level) ms left ms := by
  refine of_succ (.of_forall fun n => ?_)
  cases ho : ms.head?.bind Operator.ofKind? with
  | none => simp [Parse.operators, bind_apply, ho]
  | some o => simp [Parse.operators, bind_apply, ho, hms o ho]

theorem operators_step {left right e : Expr} {level : Nat} {o : Operator}
    (ho : Operator.ofKind? k = some o) (hlevel : level ≤ o.level)
    (hright : Accepts (expression · o.rightLevel) ks right ms)
    (hrest : Accepts (operators · (o.apply left right) level) ms e us) :
    Accepts (operators · left level) (k :: ks) e us := by
  refine of_succ ?_
  filter_upwards [hright, hrest] with n hright hrest
  simp [Parse.operators, bind_apply, ho, Nat.not_lt.mpr hlevel, hright, hrest]

theorem expression {left e : Expr} {level : Nat} (hleft : Accepts operand ks left ms)
    (hrest : Accepts (operators · left level) ms e us) :
    Accepts (Parse.expression · level) ks e us := by
  refine of_succ ?_
  filter_upwards [hleft, hrest] with n hleft hrest
  simp [Parse.expression, bind_apply, hleft, hrest]

/-! Sequences -/

theorem sequenceTail_nil (acc : List Expr) (hms : ms.head? ≠ some (.symbol .semi)) :
    Accepts (sequenceTail · acc) ms acc.reverse ms := by
  refine of_succ (.of_forall fun n => ?_)
  simp [Parse.sequenceTail, bind_apply, hms]

theorem sequenceTail_cons {e : Expr} {acc es : List Expr}
    (h : Accepts (Parse.expression · 0) ks e ms)
    (hrest : Accepts (sequenceTail · (e :: acc)) ms es us) :
    Accepts (sequenceTail · acc) (.symbol .semi :: ks) es us := by
  refine of_succ ?_
  filter_upwards [h, hrest] with n h hrest
  simp [Parse.sequenceTail, bind_apply, h, hrest]

theorem sequence_one {e : Expr} (h : Accepts (Parse.expression · 0) ks e ms)
    (hms : ms.head? ≠ some (.symbol .semi)) : Accepts sequence ks e ms := by
  refine of_succ ?_
  filter_upwards [h, sequenceTail_nil [] hms] with n h hrest
  simp [Parse.sequence, bind_apply, h, hrest]

theorem sequence_many {e : Expr} {es : List Expr} (h : Accepts (Parse.expression · 0) ks e ms)
    (hrest : Accepts (sequenceTail · []) ms es us) (hes : es ≠ []) :
    Accepts sequence ks (.seq (e :: es) .nowhere) us := by
  refine of_succ ?_
  filter_upwards [h, hrest] with n h hrest
  cases es with
  | nil => exact absurd rfl hes
  | cons e' es => simp [Parse.sequence, bind_apply, h, hrest]

/-! Statements -/

theorem statement_sequence {e : Expr} (hlet : ks.head? ≠ some (.keyword .kwLet))
    (hcontract : ks.head? ≠ some (.keyword .kwContract)) (h : Accepts sequence ks e ms) :
    Accepts bareStatement ks (.expr e) ms := by
  filter_upwards [h] with n h
  cases ks with
  | nil => simp [bareStatement, bind_apply, h]
  | cons k ks =>
    cases k with
    | keyword k =>
      cases k with
      | kwLet => exact absurd rfl hlet
      | kwContract => exact absurd rfl hcontract
      | _ => simp [bareStatement, bind_apply, h]
    | _ => simp [bareStatement, bind_apply, h]

theorem statement_let {x : String} {v e : Expr}
    (hv : Accepts sequence ks v (.keyword .kwIn :: ms)) (he : Accepts sequence ms e us) :
    Accepts bareStatement (.keyword .kwLet :: .ident x :: .symbol .eq :: ks)
      (.expr (.letIn ⟨x, .nowhere⟩ v e .nowhere)) us := by
  filter_upwards [binding (x := x) hv, localLet (x := ⟨x, .nowhere⟩) (v := v) he] with n hv he
  simp [bareStatement, bind_apply, hv, he]

end Accepts

end Parse

/-! ### Texts -/

namespace Program

/-- Tokens that are read as one statement are one entry. -/
theorem entriesOf_of_statement {ks : List TokenKind} {stmt : Stmt} {n : Nat} (hne : ks ≠ [])
    (hsteps : 8 * ks.length + 6 ≤ n)
    (h : Parse.statement n (.ofKinds ks) = .ok stmt (.ofKinds [])) :
    entriesOf ks = [.statement stmt] := by
  cases ks with
  | nil => exact absurd rfl hne
  | cons k ks =>
    have hlength : (Stream.ofKinds (k :: ks)).tokens.length = (k :: ks).length :=
      List.length_map _
    -- The statement is read up to the end, where nothing is left for another entry.
    have hskip := statement_eq (hlength ▸ hsteps)
    rw [h] at hskip
    rw [← entriesFrom_ofKinds hsteps (Nat.le_refl _), List.length_cons, entriesFrom]
    rw [← hskip.1, Entry.first, h, entriesFrom_of_isEmpty _ _ rfl]
    rfl

/-- A text whose tokens are one statement is read as this statement. -/
theorem parse_of_entriesOf {source : String} {ks : List TokenKind} {stmt : Stmt}
    (hsource : Spells source.toList ks) (h : entriesOf ks = [.statement stmt]) :
    ∃ p, parse source = .ok p ∧ ∃ stmt', p.body = [stmt'] ∧ stmt'.move (fun _ => 0) = stmt := by
  have hbare := entries_bare source
  rw [hsource.kind_lex, h, List.map_eq_singleton_iff] at hbare
  obtain ⟨x, hx, hmove⟩ := hbare
  cases x with
  | malformed err => cases hmove
  | statement stmt' =>
    obtain ⟨p, hp, hbody⟩ := parse_of_statement hx
    exact ⟨p, hp, stmt', hbody, Entry.statement.inj hmove⟩

/-- **A text whose tokens are accepted as an expression** is read as one statement, which is that
expression. -/
theorem parse_of_accepts {source : String} {ks : List TokenKind} {e : Expr}
    (hsource : Spells source.toList ks) (hne : ks ≠ [])
    (h : Parse.Accepts Parse.bareStatement ks (.expr e) []) :
    ∃ p, parse source = .ok p ∧ ∃ e' span, p.body = [.expr e' span] ∧ e'.bare = e := by
  -- Of the many steps that are enough, one number is taken that the reader has as well.
  obtain ⟨n, hrun, hsteps⟩ := (h.and (Filter.eventually_ge_atTop (8 * ks.length + 6))).exists
  have hstatement : Parse.statement n (.ofKinds ks) = .ok (.expr e .nowhere) (.ofKinds []) := by
    simp [Parse.statement, Parse.Follows.bind_apply, hrun]
  obtain ⟨p, hp, stmt, hbody, hmove⟩ :=
    parse_of_entriesOf hsource (entriesOf_of_statement hne hsteps hstatement)
  refine ⟨p, hp, ?_⟩
  cases stmt with
  | expr e' span => exact ⟨e', span, hbody, (Stmt.expr.inj hmove).1⟩
  | contract x c span => cases hmove
  | define x v span => cases hmove

end Program

end ContractML
