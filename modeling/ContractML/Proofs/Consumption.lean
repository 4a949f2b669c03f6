import ContractML.Proofs.Streams

/-!
# Parsers take tokens

Every parser goes forward through the tokens, and if it succeeds, it has taken at least one of them:
there is no expression, contract or statement without a token. The parts of a parser that repeat
something may take none.

This holds for any number of steps. The induction is on the steps, over all parsers at once.

## Main definitions

* `Stream.Ahead` — a stream after some tokens of another one.
* `Parse.Consumes` — a parser that takes some tokens if it succeeds, and never goes back.
* `Parse.ConsumesAt`, `Parse.ConsumesContractAt` — the parsers of expressions and of contracts.

## Main results

* `Parse.consumesAt`, `Parse.consumesContractAt`, `Parse.consumes_statement` — **a parser that
  succeeds has taken a token**.
-/

namespace ContractML

/-! ### Streams that go forward -/

/-- The second stream is the first one after at least `k` tokens. -/
structure Stream.Ahead (k : Nat) (s t : Stream) : Prop where
  suffix : t.tokens <:+ s.tokens
  length : t.tokens.length + k ≤ s.tokens.length

namespace Stream.Ahead

variable {k l : Nat} {s t u : Stream}

protected theorem refl (s : Stream) : s.Ahead 0 s := ⟨List.suffix_rfl, Nat.le_refl _⟩

protected theorem trans (h : s.Ahead k t) (h' : t.Ahead l u) : s.Ahead (k + l) u := by
  have hlen := h.length
  have hlen' := h'.length
  exact ⟨h'.suffix.trans h.suffix, by omega⟩

theorem mono (h : s.Ahead k t) (hl : l ≤ k) : s.Ahead l t :=
  ⟨h.suffix, Nat.le_trans (Nat.add_le_add_left hl _) h.length⟩

/-- What is ahead of a later stream is ahead. -/
theorem after (h : s.Ahead k t) (h' : t.Ahead l u) : s.Ahead l u :=
  (h.trans h').mono (Nat.le_add_left l k)

/-- Later streams are ahead, too. -/
theorem before (h : s.Ahead k t) (h' : t.Ahead l u) : s.Ahead k u :=
  (h.trans h').mono (Nat.le_add_right k l)

protected theorem cons (t : Token) (ts : List Token) (lastStop eof : Nat) :
    (Stream.mk (t :: ts) lastStop eof).Ahead 1 ⟨ts, t.span.stop, eof⟩ :=
  ⟨List.suffix_cons t ts, Nat.le_refl _⟩

theorem advance {kind : TokenKind} (hk : s.kind? = some kind) : s.Ahead 1 s.advance := by
  obtain ⟨tokens, lastStop, eof⟩ := s
  cases tokens with
  | nil => cases hk
  | cons t ts => exact .cons t ts lastStop eof

theorem advance_le (s : Stream) : s.Ahead 0 s.advance := by
  obtain ⟨tokens, lastStop, eof⟩ := s
  cases tokens with
  | nil => exact .refl _
  | cons t ts => exact (Ahead.cons t ts lastStop eof).mono (Nat.zero_le _)

theorem skipStatement_le (s : Stream) : s.Ahead 0 s.skipStatement := by
  obtain ⟨tokens, lastStop, eof⟩ := s
  induction tokens generalizing lastStop with
  | nil => exact .refl _
  | cons t ts ih =>
    have hstep := Ahead.cons t ts lastStop eof
    cases ht : t.kind.isTerminator with
    | true =>
      rw [skipStatement_terminator ht]
      exact hstep.mono (Nat.zero_le _)
    | false =>
      rw [skipStatement_cons ht]
      exact hstep.after (ih t.span.stop)

/-- A statement is passed over even if it has been read in part: at least one token is gone. -/
theorem skipStatement (h : s.Ahead 0 t) (hs : s.tokens ≠ []) : s.Ahead 1 t.skipStatement := by
  obtain ⟨tokens, lastStop, eof⟩ := t
  cases tokens with
  | nil => exact ⟨List.nil_suffix, List.length_pos_iff.mpr hs⟩
  | cons x xs =>
    have hlt := length_skipStatement_lt x xs lastStop eof
    exact h.after ⟨(skipStatement_le _).suffix, hlt⟩

end Stream.Ahead

namespace Parse

variable {α β : Type} {k l : Nat} {s : Stream}

/-! ### One run of a parser -/

/-- If the parser succeeds, it has taken at least `k` tokens. If it fails, it has not gone back. -/
def Consumes (k : Nat) (s : Stream) (x : Parse α) : Prop :=
  match x s with
  | .ok _ t => s.Ahead k t
  | .error _ t => s.Ahead 0 t

namespace Consumes

protected theorem pure (a : α) : Consumes 0 s (pure a) := .refl s

/-- What a parser does from a later stream on. -/
theorem of_ahead {t : Stream} (hst : s.Ahead k t) {x y : Parse β} (h : Consumes l t y)
    (hxy : x s = y t) : Consumes (k + l) s x := by
  unfold Consumes at h ⊢
  rw [hxy]
  split at h
  · exact hst.trans h
  · exact hst.after h

theorem mono {x : Parse α} (h : Consumes k s x) (hl : l ≤ k) : Consumes l s x := by
  unfold Consumes at h ⊢
  split at h
  · exact Stream.Ahead.mono h hl
  · exact h

theorem bind_add {x : Parse α} {f : α → Parse β} (hx : Consumes k s x)
    (hf : ∀ a t, Consumes l t (f a)) : Consumes (k + l) s (x >>= f) := by
  cases hxs : x s with
  | ok a t =>
    unfold Consumes at hx
    rw [hxs] at hx
    refine of_ahead hx (hf a t) ?_
    rw [Follows.bind_apply, hxs]
  | error e t =>
    unfold Consumes at hx ⊢
    rw [Follows.bind_apply, hxs]
    rwa [hxs] at hx

/-- The first parser takes the tokens. -/
protected theorem bind {x : Parse α} {f : α → Parse β} (hx : Consumes k s x)
    (hf : ∀ a t, Consumes 0 t (f a)) : Consumes k s (x >>= f) := bind_add hx hf

/-- The parser after the first one takes the tokens. -/
theorem next {x : Parse α} {f : α → Parse β} (hx : Consumes k s x)
    (hf : ∀ a t, Consumes l t (f a)) : Consumes l s (x >>= f) :=
  (bind_add hx hf).mono (Nat.le_add_left l k)

/-! Steps that only look at the stream -/

protected theorem get {f : Stream → Parse β} (h : Consumes k s (f s)) :
    Consumes k s (get >>= f) := h

protected theorem kind? {f : Option TokenKind → Parse β} (h : Consumes k s (f s.kind?)) :
    Consumes k s (kind? >>= f) := h

protected theorem start {f : Nat → Parse β} (h : Consumes k s (f s.span.start)) :
    Consumes k s (start >>= f) := h

protected theorem spanFrom {start : Nat} {f : Span → Parse β}
    (h : Consumes k s (f ⟨start, s.lastStop⟩)) : Consumes k s (spanFrom start >>= f) := h

/-- A test of the token at hand. -/
theorem test {p : Prop} {x : Parse Bool} (hx : ∃ b, (b = true ↔ p) ∧
      ∀ t : Stream, t.kind? = s.kind? → x t = .ok b t) {f : Bool → Parse β}
    (hyes : p → Consumes k s (f true)) (hno : Consumes k s (f false)) :
    Consumes k s (x >>= f) := by
  obtain ⟨b, hb, hrun⟩ := hx
  have hboth : Consumes k s (f b) := by
    cases b with
    | true => exact hyes (hb.mp rfl)
    | false => exact hno
  unfold Consumes at hboth ⊢
  rwa [Follows.bind_apply, hrun s rfl]

protected theorem atSymbol (c : Symbol) {f : Bool → Parse β}
    (hyes : s.kind? = some (.symbol c) → Consumes k s (f true)) (hno : Consumes k s (f false)) :
    Consumes k s (atSymbol c >>= f) :=
  test (Follows.atSymbol_apply c s) hyes hno

protected theorem atKeyword (c : Keyword) {f : Bool → Parse β}
    (hyes : s.kind? = some (.keyword c) → Consumes k s (f true)) (hno : Consumes k s (f false)) :
    Consumes k s (atKeyword c >>= f) :=
  test (Follows.atKeyword_apply c s) hyes hno

/-! Steps that take tokens or fail -/

protected theorem advance {kind : TokenKind} (hk : s.kind? = some kind) : Consumes 1 s advance :=
  Stream.Ahead.advance hk

theorem throw (e : SyntaxError) : Consumes k s (throw e : Parse α) := Stream.Ahead.refl s

protected theorem outOfSteps : Consumes k s (outOfSteps : Parse α) := Stream.Ahead.refl s

protected theorem unexpected (wanted : Expectation) :
    Consumes k s (unexpected wanted : Parse α) := by
  refine Consumes.get ?_
  split
  · exact throw _
  · exact throw _

protected theorem expect (c : Symbol) (s : Stream) : Consumes 1 s (expect c) :=
  Consumes.atSymbol c Consumes.advance (Consumes.unexpected _)

protected theorem expectKeyword (c : Keyword) (s : Stream) : Consumes 1 s (expectKeyword c) :=
  Consumes.atKeyword c Consumes.advance (Consumes.unexpected _)

protected theorem identifier (s : Stream) : Consumes 1 s identifier := by
  refine Consumes.get ?_
  split
  next name hk => exact (Consumes.advance hk).bind fun _ _ => Consumes.pure _
  next => exact Consumes.unexpected _

theorem takeIdentifiers_ahead (eof : Nat) (acc : List Ident) (ts : List Token) (lastStop : Nat) :
    (Stream.mk ts lastStop eof).Ahead 0 (takeIdentifiers eof acc ts lastStop).2 := by
  fun_induction takeIdentifiers eof acc ts lastStop with
  | case1 acc name span ts lastStop ih =>
    exact (Stream.Ahead.cons ⟨.ident name, span⟩ ts lastStop eof).after ih
  | case2 acc ts lastStop hts => exact .refl _

protected theorem identifiers (s : Stream) : Consumes 0 s identifiers :=
  takeIdentifiers_ahead s.eof [] s.tokens s.lastStop

end Consumes

/-! ### Parsers of expressions -/

/-- With `n` steps every parser of expressions that succeeds has taken a token. What follows an
operand, an expression or a callee may be nothing. -/
structure ConsumesAt (n : Nat) : Prop where
  sequence : ∀ s, Consumes 1 s (sequence n)
  sequenceTail : ∀ acc s, Consumes 0 s (sequenceTail n acc)
  expression : ∀ level s, Consumes 1 s (expression n level)
  operators : ∀ left level s, Consumes 0 s (operators n left level)
  operand : ∀ s, Consumes 1 s (operand n)
  unary : ∀ op s, Consumes 1 s (unary n op)
  binding : ∀ s, Consumes 1 s (binding n)
  localLet : ∀ start name value s, Consumes 1 s (localLet n start name value)
  lambda : ∀ s, Consumes 1 s (lambda n)
  conditional : ∀ s, Consumes 1 s (conditional n)
  application : ∀ s, Consumes 1 s (application n)
  arguments : ∀ acc s, Consumes 0 s (arguments n acc)
  atom : ∀ s, Consumes 1 s (atom n)

namespace ConsumesAt

variable {n : Nat}

theorem zero : ConsumesAt 0 where
  sequence _ := Consumes.outOfSteps
  sequenceTail _ _ := Consumes.outOfSteps
  expression _ _ := Consumes.outOfSteps
  operators _ _ _ := Consumes.outOfSteps
  operand _ := Consumes.outOfSteps
  unary _ _ := Consumes.outOfSteps
  binding _ := Consumes.outOfSteps
  localLet _ _ _ _ := Consumes.outOfSteps
  lambda _ := Consumes.outOfSteps
  conditional _ := Consumes.outOfSteps
  application _ := Consumes.outOfSteps
  arguments _ _ := Consumes.outOfSteps
  atom _ := Consumes.outOfSteps

theorem sequence_succ (h : ConsumesAt n) (s : Stream) : Consumes 1 s (Parse.sequence (n + 1)) := by
  refine Consumes.start ((h.expression 0 s).bind fun first t => ?_)
  refine (h.sequenceTail [] t).bind fun rest u => ?_
  cases rest with
  | nil => exact Consumes.pure _
  | cons e es => exact Consumes.spanFrom (Consumes.pure _)

theorem sequenceTail_succ (h : ConsumesAt n) (acc : List Expr) (s : Stream) :
    Consumes 0 s (Parse.sequenceTail (n + 1) acc) := by
  refine Consumes.atSymbol .semi (fun hk => ?_) (Consumes.pure _)
  refine (Consumes.advance hk).next fun _ t => (h.expression 0 t).next fun e u => ?_
  exact h.sequenceTail (e :: acc) u

theorem operators_succ (h : ConsumesAt n) (left : Expr) (level : Nat) (s : Stream) :
    Consumes 0 s (Parse.operators (n + 1) left level) := by
  refine Consumes.kind? ?_
  cases ho : s.kind?.bind Operator.ofKind? with
  | none => exact Consumes.pure _
  | some o =>
    obtain ⟨kind, hk, -⟩ := Option.bind_eq_some_iff.mp ho
    dsimp only
    split
    · exact Consumes.pure _
    · refine (Consumes.advance hk).next fun _ t => ?_
      exact (h.expression o.rightLevel t).next fun right u => h.operators _ level u

theorem operand_succ (h : ConsumesAt n) (s : Stream) : Consumes 1 s (Parse.operand (n + 1)) := by
  refine Consumes.kind? ?_
  split
  · exact h.unary .neg s
  · exact h.unary .not s
  · exact Consumes.start ((h.binding s).next fun b t => h.localLet _ b.1 b.2 t)
  · exact h.lambda s
  · exact h.conditional s
  · exact h.application s

theorem unary_succ (h : ConsumesAt n) (op : UnaryOp) (s : Stream) :
    Consumes 1 s (Parse.unary (n + 1) op) := by
  -- the operator is at hand, but it is enough that the operand takes a token
  refine Consumes.start (Consumes.next (k := 0) (Stream.Ahead.advance_le s) fun _ t => ?_)
  exact (h.expression Operator.unaryLevel t).bind fun e u => Consumes.spanFrom (Consumes.pure _)

theorem binding_succ (h : ConsumesAt n) (s : Stream) : Consumes 1 s (Parse.binding (n + 1)) := by
  refine (Consumes.expectKeyword .kwLet s).bind fun _ t₁ => ?_
  refine (Consumes.identifier t₁).next fun name t₂ => ?_
  refine (Consumes.identifiers t₂).next fun params t₃ => ?_
  refine (Consumes.expect .eq t₃).next fun _ t₄ => Consumes.start ?_
  exact (h.sequence t₄).next fun value t₅ => Consumes.get (Consumes.pure _)

theorem localLet_succ (h : ConsumesAt n) (start : Nat) (name : Ident) (value : Expr) (s : Stream) :
    Consumes 1 s (Parse.localLet (n + 1) start name value) := by
  refine (Consumes.expectKeyword .kwIn s).bind fun _ t => ?_
  exact (h.sequence t).next fun body u => Consumes.spanFrom (Consumes.pure _)

theorem lambda_succ (h : ConsumesAt n) (s : Stream) : Consumes 1 s (Parse.lambda (n + 1)) := by
  refine Consumes.start ((Consumes.expectKeyword .kwFun s).bind fun _ t₁ => ?_)
  refine (Consumes.identifier t₁).next fun first t₂ => ?_
  refine (Consumes.identifiers t₂).next fun rest t₃ => ?_
  refine (Consumes.expect .arrow t₃).next fun _ t₄ => ?_
  exact (h.sequence t₄).next fun body t₅ => Consumes.spanFrom (Consumes.pure _)

theorem conditional_succ (h : ConsumesAt n) (s : Stream) :
    Consumes 1 s (Parse.conditional (n + 1)) := by
  refine Consumes.start ((Consumes.expectKeyword .kwIf s).bind fun _ t₁ => ?_)
  refine (h.expression 0 t₁).next fun test t₂ => ?_
  refine (Consumes.expectKeyword .kwThen t₂).next fun _ t₃ => ?_
  refine (h.expression 0 t₃).next fun yes t₄ => ?_
  refine (Consumes.expectKeyword .kwElse t₄).next fun _ t₅ => ?_
  exact (h.expression 0 t₅).next fun no t₆ => Consumes.spanFrom (Consumes.pure _)

theorem application_succ (h : ConsumesAt n) (s : Stream) :
    Consumes 1 s (Parse.application (n + 1)) := by
  refine (h.atom s).bind fun callee t => (h.arguments [] t).bind fun args u => ?_
  cases args with
  | nil => exact Consumes.pure _
  | cons e es => exact Consumes.spanFrom (Consumes.pure _)

theorem arguments_succ (h : ConsumesAt n) (acc : List Expr) (s : Stream) :
    Consumes 0 s (Parse.arguments (n + 1) acc) := by
  refine Consumes.kind? ?_
  split
  · exact (h.atom s).next fun e t => h.arguments (e :: acc) t
  · exact Consumes.pure _

theorem atom_succ (h : ConsumesAt n) (s : Stream) : Consumes 1 s (Parse.atom (n + 1)) := by
  refine Consumes.get (Consumes.kind? ?_)
  split
  case h_8 hk =>
    refine (Consumes.advance hk).bind fun _ t => (h.sequence t).next fun inner u => ?_
    exact (Consumes.expect .rparen u).next fun _ _ => Consumes.pure _
  case h_9 => exact Consumes.unexpected .expression
  all_goals
    rename_i hk
    exact (Consumes.advance hk).bind fun _ _ => Consumes.pure _

/-- One step more. -/
theorem succ (h : ConsumesAt n) : ConsumesAt (n + 1) where
  sequence := h.sequence_succ
  sequenceTail := h.sequenceTail_succ
  expression level s := (h.operand s).bind fun left t => h.operators left level t
  operators := h.operators_succ
  operand := h.operand_succ
  unary := h.unary_succ
  binding := h.binding_succ
  localLet := h.localLet_succ
  lambda := h.lambda_succ
  conditional := h.conditional_succ
  application := h.application_succ
  arguments := h.arguments_succ
  atom := h.atom_succ

end ConsumesAt

/-- **A parser of expressions that succeeds has taken a token.** -/
theorem consumesAt (n : Nat) : ConsumesAt n := by
  induction n with
  | zero => exact .zero
  | succ n ih => exact ih.succ

/-! ### Parsers of contracts and statements -/

/-- With `n` steps every parser of contracts that succeeds has taken a token. -/
structure ConsumesContractAt (n : Nat) : Prop where
  contract : ∀ s, Consumes 1 s (contract n)
  contractTail : ∀ acc s, Consumes 0 s (contractTail n acc)
  contractTerm : ∀ s, Consumes 1 s (contractTerm n)

namespace ConsumesContractAt

variable {n : Nat}

theorem contract_succ (h : ConsumesContractAt n) (s : Stream) :
    Consumes 1 s (Parse.contract (n + 1)) := by
  refine Consumes.start ((h.contractTerm s).bind fun first t => ?_)
  refine (h.contractTail [] t).bind fun terms u => ?_
  cases terms with
  | nil => exact Consumes.pure _
  | cons range domain => exact Consumes.spanFrom (Consumes.pure _)

theorem contractTail_succ (h : ConsumesContractAt n) (acc : List ContractExpr) (s : Stream) :
    Consumes 0 s (Parse.contractTail (n + 1) acc) := by
  refine Consumes.atSymbol .arrow (fun hk => ?_) (Consumes.pure _)
  refine (Consumes.advance hk).next fun _ t => (h.contractTerm t).next fun c u => ?_
  exact h.contractTail (c :: acc) u

theorem contractTerm_succ (h : ConsumesContractAt n) (s : Stream) :
    Consumes 1 s (Parse.contractTerm (n + 1)) := by
  refine Consumes.atSymbol .lparen (fun hk => ?_) ?_
  · refine (Consumes.advance hk).bind fun _ t => (h.contract t).next fun inner u => ?_
    exact (Consumes.expect .rparen u).next fun _ _ => Consumes.pure _
  · exact ((consumesAt n).expression 0 s).bind fun e t => Consumes.pure _

end ConsumesContractAt

theorem consumesContractAt (n : Nat) : ConsumesContractAt n := by
  induction n with
  | zero =>
    exact ⟨fun _ => Consumes.outOfSteps, fun _ _ => Consumes.outOfSteps,
      fun _ => Consumes.outOfSteps⟩
  | succ n ih => exact ⟨ih.contract_succ, ih.contractTail_succ, ih.contractTerm_succ⟩

theorem consumes_bareStatement (n : Nat) (s : Stream) : Consumes 1 s (bareStatement n) := by
  refine Consumes.kind? ?_
  split
  · refine (Consumes.expectKeyword .kwContract s).bind fun _ t₁ => ?_
    refine (Consumes.identifier t₁).next fun name t₂ => ?_
    refine (Consumes.expect .eq t₂).next fun _ t₃ => ?_
    exact ((consumesContractAt n).contract t₃).next fun c t₄ => Consumes.pure _
  · refine Consumes.start (((consumesAt n).binding s).bind fun b t => ?_)
    refine Consumes.atKeyword .kwIn (fun _ => ?_) (Consumes.pure _)
    exact ((consumesAt n).localLet _ b.1 b.2 t).next fun e u => Consumes.pure _
  · exact ((consumesAt n).sequence s).bind fun e t => Consumes.pure _

theorem consumes_statement (n : Nat) (s : Stream) : Consumes 1 s (statement n) := by
  refine Consumes.start ((consumes_bareStatement n s).bind fun stmt t => Consumes.kind? ?_)
  split
  · exact (Consumes.expect .semiSemi t).next fun _ u => Consumes.spanFrom (Consumes.pure _)
  · exact Consumes.spanFrom (Consumes.pure _)

end Parse

end ContractML
