import ContractML.Proofs.Streams

/-!
# Statements are read from their own tokens

The parser reads a statement without looking beyond the next terminator. So the tokens of a
statement are read the same way wherever they stand: at another place of the text, with other tokens
after the terminator, and with more steps than are needed.

The parsers call each other, so the induction goes over all of them at once, on the steps of two
runs. Every parser needs eight steps for each token that is left, and a few more: as many as there
can be calls before one of them takes a token.

## Main definitions

* `Parse.Ready` — a stream that stands at a site, with steps enough for two runs.
* `Parse.LocalAt`, `Parse.LocalContractAt` — the parsers do the same in both runs.

## Main results

* `Parse.localAt`, `Parse.localContractAt` — the parsers of expressions and of contracts.
* `Parse.statement_local` — **a statement is read from its own tokens**, and reading goes on after
  the next terminator whether or not the statement is well-formed.
-/

namespace ContractML.Parse

variable {S : Site} {s t : Stream}

/-! ### Parsers of expressions -/

/-- The stream stands at the site, and `n` and `m` are steps enough for the two runs: eight for
each token, and `c` more. -/
structure Ready (S : Site) (c n m : Nat) (s : Stream) : Prop where
  fits : S.Fits s
  steps : 8 * s.tokens.length + c ≤ min n m

theorem Ready.next {c c' n m : Nat} (h : Ready S c (n + 1) (m + 1) s) (ht : s.Leads t)
    (hc : 8 * t.tokens.length + c' + 1 ≤ 8 * s.tokens.length + c) : Ready S c' n m t := by
  have hsteps := h.steps
  exact ⟨ht.fits h.fits, by omega⟩

/-- Without steps no stream is ready. -/
theorem Ready.not_of_min_eq_zero {c n m : Nat} (h : min n m = 0) : ¬Ready S (c + 1) n m s := by
  intro hs
  have hsteps := hs.steps
  omega

open Follows (Moved)

/-- With `n` steps on the shorter stream and `m` steps on the longer one, the parsers of expressions
do the same. -/
structure LocalAt (S : Site) (n m : Nat) : Prop where
  sequence : ∀ s, Ready S 5 n m s → Follows S s (Moved S s Expr.move) (sequence n) (sequence m)
  sequenceTail : ∀ acc s, Ready S 1 n m s →
    Follows S s (fun es es' _ => es' = es.map (Expr.move S.move)) (sequenceTail n acc)
      (sequenceTail m (acc.map (Expr.move S.move)))
  expression : ∀ level s, Ready S 4 n m s →
    Follows S s (Moved S s Expr.move) (expression n level) (expression m level)
  operators : ∀ left level s, Ready S 1 n m s →
    Follows S s (fun e e' _ => e' = e.move S.move) (operators n left level)
      (operators m (left.move S.move) level)
  operand : ∀ s, Ready S 3 n m s → Follows S s (Moved S s Expr.move) (operand n) (operand m)
  unary : ∀ op k s, Ready S 1 n m s → s.kind? = some k → k.isTerminator = false →
    Follows S s (Moved S s Expr.move) (unary n op) (unary m op)
  binding : ∀ s, Ready S 1 n m s →
    Follows S s (fun b b' t => b' = (b.1.move S.move, b.2.move S.move) ∧
      t.tokens.length < s.tokens.length) (binding n) (binding m)
  localLet : ∀ start name value s, Ready S 1 n m s →
    Follows S s (Moved S s Expr.move) (localLet n start name value)
      (localLet m (S.move start) (name.move S.move) (value.move S.move))
  lambda : ∀ s, Ready S 1 n m s → Follows S s (Moved S s Expr.move) (lambda n) (lambda m)
  conditional : ∀ s, Ready S 1 n m s →
    Follows S s (Moved S s Expr.move) (conditional n) (conditional m)
  application : ∀ s, Ready S 2 n m s →
    Follows S s (Moved S s Expr.move) (application n) (application m)
  arguments : ∀ acc s, Ready S 2 n m s →
    Follows S s (fun es es' _ => es' = es.map (Expr.move S.move)) (arguments n acc)
      (arguments m (acc.map (Expr.move S.move)))
  atom : ∀ s, Ready S 1 n m s → Follows S s (Moved S s Expr.move) (atom n) (atom m)

namespace LocalAt

variable {n m : Nat}

theorem sequence_succ (h : LocalAt S n m) (s : Stream) (hs : Ready S 5 (n + 1) (m + 1) s) :
    Follows S s (Moved S s Expr.move) (Parse.sequence (n + 1)) (Parse.sequence (m + 1)) := by
  refine Follows.start hs.fits ?_
  refine Follows.bind (h.expression 0 s (hs.next (.refl s) (by omega))) ?_
  -- The first expression has taken a token, and the eight steps of a token pay for the rest.
  rintro first _ t ht ⟨rfl, hlen⟩
  refine Follows.bind (h.sequenceTail [] t (hs.next ht (by omega))) ?_
  rintro rest _ u hu rfl
  have hlen' := hu.length_le
  cases rest with
  | nil => exact Follows.pure ⟨rfl, by omega⟩
  | cons e es =>
    refine Follows.spanFrom (Follows.pure ⟨?_, by omega⟩)
    rw [Expr.move, Expr.moveAll_eq_map]
    rfl

theorem sequenceTail_succ (h : LocalAt S n m) (acc : List Expr) (s : Stream)
    (hs : Ready S 1 (n + 1) (m + 1) s) :
    Follows S s (fun es es' _ => es' = es.map (Expr.move S.move)) (Parse.sequenceTail (n + 1) acc)
      (Parse.sequenceTail (m + 1) (acc.map (Expr.move S.move))) := by
  refine Follows.atSymbol hs.fits .semi (fun hk => ?_) fun _ => ?_
  · have hlen := Stream.length_advance hk
    have hadv := Stream.Leads.advance hk rfl
    refine Follows.advance hk rfl ?_
    refine Follows.bind (h.expression 0 s.advance (hs.next hadv (by omega))) ?_
    rintro e _ t ht ⟨rfl, hlen'⟩
    exact h.sequenceTail (e :: acc) t (hs.next (hadv.trans ht) (by omega))
  · exact Follows.pure (List.map_reverse ..).symm

theorem expression_succ (h : LocalAt S n m) (level : Nat) (s : Stream)
    (hs : Ready S 4 (n + 1) (m + 1) s) :
    Follows S s (Moved S s Expr.move) (Parse.expression (n + 1) level)
      (Parse.expression (m + 1) level) := by
  refine Follows.bind (h.operand s (hs.next (.refl s) (by omega))) ?_
  rintro left _ t ht ⟨rfl, hlen⟩
  refine (h.operators left level t (hs.next ht (by omega))).mono fun e e' u hu he => ?_
  exact ⟨he, hu.length_le.trans_lt hlen⟩

theorem operators_succ (h : LocalAt S n m) (left : Expr) (level : Nat) (s : Stream)
    (hs : Ready S 1 (n + 1) (m + 1) s) :
    Follows S s (fun e e' _ => e' = e.move S.move) (Parse.operators (n + 1) left level)
      (Parse.operators (m + 1) (left.move S.move) level) := by
  refine Follows.kind? hs.fits ?_
  cases hk : s.kind? with
  | none => exact Follows.pure rfl
  | some k =>
    -- Without an operator, or with one that does not bind here, nothing is taken.
    cases ho : Operator.ofKind? k with
    | none =>
      simp only [Option.bind_some, ho]
      exact Follows.pure rfl
    | some o =>
      simp only [Option.bind_some, ho]
      split
      · exact Follows.pure rfl
      · have hlen := Stream.length_advance hk
        have hterm := Operator.isTerminator_of_ofKind? ho
        have hadv := Stream.Leads.advance hk hterm
        refine Follows.advance hk hterm ?_
        refine Follows.bind (h.expression o.rightLevel s.advance (hs.next hadv (by omega))) ?_
        rintro right _ t ht ⟨rfl, hlen'⟩
        rw [← o.apply_move S.mono]
        exact h.operators _ level t (hs.next (hadv.trans ht) (by omega))

theorem operand_succ (h : LocalAt S n m) (s : Stream) (hs : Ready S 3 (n + 1) (m + 1) s) :
    Follows S s (Moved S s Expr.move) (Parse.operand (n + 1)) (Parse.operand (m + 1)) := by
  have happ := h.application s (hs.next (.refl s) (by omega))
  -- The first token chooses the parser, before anything is taken.
  have hone : Ready S 1 n m s := hs.next (.refl s) (by omega)
  refine Follows.kind? hs.fits ?_
  cases hk : s.kind? with
  | none => exact happ
  | some k =>
    cases k with
    | symbol k =>
      cases k with
      | minus => exact h.unary .neg _ s hone hk rfl
      | _ => exact happ
    | keyword k =>
      cases k with
      | kwNot => exact h.unary .not _ s hone hk rfl
      | kwLet =>
        refine Follows.start hs.fits (Follows.bind (h.binding s hone) ?_)
        rintro b _ t ht ⟨rfl, hlen⟩
        refine (h.localLet s.span.start b.1 b.2 t (hs.next ht (by omega))).mono ?_
        rintro e _ u hu ⟨he, hlen'⟩
        exact ⟨he, by omega⟩
      | kwFun => exact h.lambda s hone
      | kwIf => exact h.conditional s hone
      | _ => exact happ
    | _ => exact happ

theorem unary_succ (h : LocalAt S n m) (op : UnaryOp) (k : TokenKind) (s : Stream)
    (hs : Ready S 1 (n + 1) (m + 1) s) (hk : s.kind? = some k) (hterm : k.isTerminator = false) :
    Follows S s (Moved S s Expr.move) (Parse.unary (n + 1) op) (Parse.unary (m + 1) op) := by
  have hlen := Stream.length_advance hk
  refine Follows.start hs.fits (Follows.advance hk hterm ?_)
  refine Follows.bind (h.expression Operator.unaryLevel s.advance
    (hs.next (.advance hk hterm) (by omega))) ?_
  rintro e _ t ht ⟨rfl, hlen'⟩
  exact Follows.spanFrom (Follows.pure ⟨rfl, by omega⟩)

theorem binding_succ (h : LocalAt S n m) (s : Stream) (hs : Ready S 1 (n + 1) (m + 1) s) :
    Follows S s (fun b b' t => b' = (b.1.move S.move, b.2.move S.move) ∧
      t.tokens.length < s.tokens.length) (Parse.binding (n + 1)) (Parse.binding (m + 1)) := by
  refine Follows.bind (Follows.expectKeyword hs.fits .kwLet) fun _ _ t₁ h₁ hlen₁ => ?_
  refine Follows.bind (Follows.identifier (h₁.fits hs.fits)) ?_
  rintro name _ t₂ h₂ ⟨rfl, hlen₂⟩
  have h₂ := h₁.trans h₂
  refine Follows.bind (Follows.identifiers (h₂.fits hs.fits)) ?_
  rintro params _ t₃ h₃ rfl
  have hlen₃ := h₃.length_le
  have h₃ := h₂.trans h₃
  refine Follows.bind (Follows.expect (h₃.fits hs.fits) (by decide)) fun _ _ t₄ h₄ hlen₄ => ?_
  have h₄ := h₃.trans h₄
  refine Follows.start (h₄.fits hs.fits) ?_
  refine Follows.bind (h.sequence t₄ (hs.next h₄ (by omega))) ?_
  rintro value _ t₅ h₅ ⟨rfl, hlen₅⟩
  refine Follows.get (Follows.pure ⟨?_, by omega⟩)
  -- The function begins where the first parameter does, and the site keeps the order of places.
  rw [bindingValue_move S.mono]
  rfl

theorem localLet_succ (h : LocalAt S n m) (start : Nat) (name : Ident) (value : Expr) (s : Stream)
    (hs : Ready S 1 (n + 1) (m + 1) s) :
    Follows S s (Moved S s Expr.move) (Parse.localLet (n + 1) start name value)
      (Parse.localLet (m + 1) (S.move start) (name.move S.move) (value.move S.move)) := by
  refine Follows.bind (Follows.expectKeyword hs.fits .kwIn) fun _ _ t₁ h₁ hlen₁ => ?_
  refine Follows.bind (h.sequence t₁ (hs.next h₁ (by omega))) ?_
  rintro body _ t₂ h₂ ⟨rfl, hlen₂⟩
  exact Follows.spanFrom (Follows.pure ⟨rfl, by omega⟩)

theorem lambda_succ (h : LocalAt S n m) (s : Stream) (hs : Ready S 1 (n + 1) (m + 1) s) :
    Follows S s (Moved S s Expr.move) (Parse.lambda (n + 1)) (Parse.lambda (m + 1)) := by
  refine Follows.start hs.fits ?_
  refine Follows.bind (Follows.expectKeyword hs.fits .kwFun) fun _ _ t₁ h₁ hlen₁ => ?_
  refine Follows.bind (Follows.identifier (h₁.fits hs.fits)) ?_
  rintro first _ t₂ h₂ ⟨rfl, hlen₂⟩
  have h₂ := h₁.trans h₂
  refine Follows.bind (Follows.identifiers (h₂.fits hs.fits)) ?_
  rintro rest _ t₃ h₃ rfl
  have hlen₃ := h₃.length_le
  have h₃ := h₂.trans h₃
  refine Follows.bind (Follows.expect (h₃.fits hs.fits) (by decide)) fun _ _ t₄ h₄ hlen₄ => ?_
  have h₄ := h₃.trans h₄
  refine Follows.bind (h.sequence t₄ (hs.next h₄ (by omega))) ?_
  rintro body _ t₅ h₅ ⟨rfl, hlen₅⟩
  exact Follows.spanFrom (Follows.pure ⟨rfl, by omega⟩)

theorem conditional_succ (h : LocalAt S n m) (s : Stream) (hs : Ready S 1 (n + 1) (m + 1) s) :
    Follows S s (Moved S s Expr.move) (Parse.conditional (n + 1)) (Parse.conditional (m + 1)) := by
  refine Follows.start hs.fits ?_
  refine Follows.bind (Follows.expectKeyword hs.fits .kwIf) fun _ _ t₁ h₁ hlen₁ => ?_
  refine Follows.bind (h.expression 0 t₁ (hs.next h₁ (by omega))) ?_
  rintro test _ t₂ h₂ ⟨rfl, hlen₂⟩
  have h₂ := h₁.trans h₂
  refine Follows.bind (Follows.expectKeyword (h₂.fits hs.fits) .kwThen) fun _ _ t₃ h₃ hlen₃ => ?_
  have h₃ := h₂.trans h₃
  refine Follows.bind (h.expression 0 t₃ (hs.next h₃ (by omega))) ?_
  rintro yes _ t₄ h₄ ⟨rfl, hlen₄⟩
  have h₄ := h₃.trans h₄
  refine Follows.bind (Follows.expectKeyword (h₄.fits hs.fits) .kwElse) fun _ _ t₅ h₅ hlen₅ => ?_
  have h₅ := h₄.trans h₅
  refine Follows.bind (h.expression 0 t₅ (hs.next h₅ (by omega))) ?_
  rintro no _ t₆ h₆ ⟨rfl, hlen₆⟩
  exact Follows.spanFrom (Follows.pure ⟨rfl, by omega⟩)

theorem application_succ (h : LocalAt S n m) (s : Stream) (hs : Ready S 2 (n + 1) (m + 1) s) :
    Follows S s (Moved S s Expr.move) (Parse.application (n + 1)) (Parse.application (m + 1)) := by
  refine Follows.bind (h.atom s (hs.next (.refl s) (by omega))) ?_
  rintro callee _ t ht ⟨rfl, hlen⟩
  refine Follows.bind (h.arguments [] t (hs.next ht (by omega))) ?_
  rintro args _ u hu rfl
  have hlen' := hu.length_le
  cases args with
  | nil => exact Follows.pure ⟨rfl, by omega⟩
  | cons a as =>
    refine Follows.spanFrom (Follows.pure ⟨?_, by omega⟩)
    rw [Expr.move, Expr.moveAll_eq_map, Expr.span_move]
    rfl

theorem arguments_succ (h : LocalAt S n m) (acc : List Expr) (s : Stream)
    (hs : Ready S 2 (n + 1) (m + 1) s) :
    Follows S s (fun es es' _ => es' = es.map (Expr.move S.move)) (Parse.arguments (n + 1) acc)
      (Parse.arguments (m + 1) (acc.map (Expr.move S.move))) := by
  refine Follows.kind? hs.fits ?_
  split
  · refine Follows.bind (h.atom s (hs.next (.refl s) (by omega))) ?_
    rintro e _ t ht ⟨rfl, hlen⟩
    exact h.arguments (e :: acc) t (hs.next ht (by omega))
  · exact Follows.pure (List.map_reverse ..).symm

theorem atom_succ (h : LocalAt S n m) (s : Stream) (hs : Ready S 1 (n + 1) (m + 1) s) :
    Follows S s (Moved S s Expr.move) (Parse.atom (n + 1)) (Parse.atom (m + 1)) := by
  have hfail : Follows S s (Moved S s Expr.move) (unexpected .expression)
      (unexpected .expression) := Follows.unexpected hs.fits .expression
  -- A token that stands for an expression of its own.
  have htake : ∀ {k : TokenKind} (e : Span → Expr), s.kind? = some k → k.isTerminator = false →
      (∀ span, e (span.move S.move) = (e span).move S.move) →
      Follows S s (Moved S s Expr.move) (do advance; return e s.span)
        (do advance; return e (s.inside S).span) := by
    intro k e hk hterm he
    have hlen := Stream.length_advance hk
    rw [s.span_inside hs.fits, he]
    exact Follows.advance hk hterm (Follows.pure ⟨rfl, by omega⟩)
  refine Follows.get (Follows.kind? hs.fits ?_)
  cases hk : s.kind? with
  | none => exact hfail
  | some k =>
    cases k with
    | int v => exact htake (.lit (.int v)) hk rfl fun _ => rfl
    | float v => exact htake (.lit (.float v)) hk rfl fun _ => rfl
    | char v => exact htake (.lit (.char v)) hk rfl fun _ => rfl
    | str v => exact htake (.lit (.str v)) hk rfl fun _ => rfl
    | ident name => exact htake (fun span => .var ⟨name, span⟩) hk rfl fun _ => rfl
    | faulty fault => exact hfail
    | keyword k =>
      cases k with
      | kwTrue => exact htake (.lit (.bool true)) hk rfl fun _ => rfl
      | kwFalse => exact htake (.lit (.bool false)) hk rfl fun _ => rfl
      | _ => exact hfail
    | symbol k =>
      cases k with
      | lparen =>
        have hlen := Stream.length_advance hk
        have hadv := Stream.Leads.advance hk rfl
        refine Follows.advance hk rfl ?_
        refine Follows.bind (h.sequence s.advance (hs.next hadv (by omega))) ?_
        rintro inner _ t ht ⟨rfl, hlen'⟩
        refine Follows.bind (Follows.expect ((hadv.trans ht).fits hs.fits) (by decide)) ?_
        exact fun _ _ u hu hlen'' => Follows.pure ⟨rfl, by omega⟩
      | _ => exact hfail

/-- One step more on both sides. -/
theorem succ (h : LocalAt S n m) : LocalAt S (n + 1) (m + 1) where
  sequence := h.sequence_succ
  sequenceTail := h.sequenceTail_succ
  expression := h.expression_succ
  operators := h.operators_succ
  operand := h.operand_succ
  unary := h.unary_succ
  binding := h.binding_succ
  localLet := h.localLet_succ
  lambda := h.lambda_succ
  conditional := h.conditional_succ
  application := h.application_succ
  arguments := h.arguments_succ
  atom := h.atom_succ

end LocalAt

theorem LocalAt.of_min_eq_zero {n m : Nat} (h : min n m = 0) : LocalAt S n m := by
  constructor
  all_goals
    intros
    exact (Ready.not_of_min_eq_zero h (by assumption)).elim

/-- **The parsers of expressions read their own tokens only.** -/
theorem localAt (S : Site) (n m : Nat) : LocalAt S n m := by
  induction n generalizing m with
  | zero => exact .of_min_eq_zero (by omega)
  | succ n ih =>
    cases m with
    | zero => exact .of_min_eq_zero (by omega)
    | succ m => exact (ih m).succ

/-! ### Parsers of contracts and statements -/

/-- With `n` and `m` steps the parsers of contracts do the same on both streams. -/
structure LocalContractAt (S : Site) (n m : Nat) : Prop where
  contract : ∀ s, Ready S 6 n m s →
    Follows S s (Moved S s ContractExpr.move) (contract n) (contract m)
  contractTail : ∀ acc s, Ready S 1 n m s →
    Follows S s (fun cs cs' _ => cs' = cs.map (ContractExpr.move S.move)) (contractTail n acc)
      (contractTail m (acc.map (ContractExpr.move S.move)))
  contractTerm : ∀ s, Ready S 5 n m s →
    Follows S s (Moved S s ContractExpr.move) (contractTerm n) (contractTerm m)

namespace LocalContractAt

variable {n m : Nat}

theorem contract_succ (h : LocalContractAt S n m) (s : Stream)
    (hs : Ready S 6 (n + 1) (m + 1) s) :
    Follows S s (Moved S s ContractExpr.move) (Parse.contract (n + 1))
      (Parse.contract (m + 1)) := by
  refine Follows.start hs.fits ?_
  refine Follows.bind (h.contractTerm s (hs.next (.refl s) (by omega))) ?_
  rintro first _ t ht ⟨rfl, hlen⟩
  refine Follows.bind (h.contractTail [] t (hs.next ht (by omega))) ?_
  rintro terms _ u hu rfl
  have hlen' := hu.length_le
  cases terms with
  | nil => exact Follows.pure ⟨rfl, by omega⟩
  | cons range domain =>
    refine Follows.spanFrom (Follows.pure ⟨?_, by omega⟩)
    rw [ContractExpr.move, ContractExpr.moveAll_eq_map, List.map_cons, List.map_reverse]
    rfl

theorem contractTail_succ (h : LocalContractAt S n m) (acc : List ContractExpr) (s : Stream)
    (hs : Ready S 1 (n + 1) (m + 1) s) :
    Follows S s (fun cs cs' _ => cs' = cs.map (ContractExpr.move S.move))
      (Parse.contractTail (n + 1) acc)
      (Parse.contractTail (m + 1) (acc.map (ContractExpr.move S.move))) := by
  refine Follows.atSymbol hs.fits .arrow (fun hk => ?_) fun _ => Follows.pure rfl
  have hlen := Stream.length_advance hk
  have hadv := Stream.Leads.advance hk rfl
  refine Follows.advance hk rfl ?_
  refine Follows.bind (h.contractTerm s.advance (hs.next hadv (by omega))) ?_
  rintro c _ t ht ⟨rfl, hlen'⟩
  exact h.contractTail (c :: acc) t (hs.next (hadv.trans ht) (by omega))

theorem contractTerm_succ (h : LocalContractAt S n m) (s : Stream)
    (hs : Ready S 5 (n + 1) (m + 1) s) :
    Follows S s (Moved S s ContractExpr.move) (Parse.contractTerm (n + 1))
      (Parse.contractTerm (m + 1)) := by
  refine Follows.atSymbol hs.fits .lparen (fun hk => ?_) fun _ => ?_
  · have hlen := Stream.length_advance hk
    have hadv := Stream.Leads.advance hk rfl
    refine Follows.advance hk rfl ?_
    refine Follows.bind (h.contract s.advance (hs.next hadv (by omega))) ?_
    rintro inner _ t ht ⟨rfl, hlen'⟩
    refine Follows.bind (Follows.expect ((hadv.trans ht).fits hs.fits) (by decide)) ?_
    exact fun _ _ u hu hlen'' => Follows.pure ⟨rfl, by omega⟩
  · refine Follows.bind ((localAt S n m).expression 0 s (hs.next (.refl s) (by omega))) ?_
    rintro e _ t ht ⟨rfl, hlen⟩
    exact Follows.pure ⟨rfl, hlen⟩

end LocalContractAt

theorem LocalContractAt.of_min_eq_zero {n m : Nat} (h : min n m = 0) : LocalContractAt S n m := by
  constructor
  all_goals
    intros
    exact (Ready.not_of_min_eq_zero h (by assumption)).elim

theorem localContractAt (S : Site) (n m : Nat) : LocalContractAt S n m := by
  induction n generalizing m with
  | zero => exact .of_min_eq_zero (by omega)
  | succ n ih =>
    cases m with
    | zero => exact .of_min_eq_zero (by omega)
    | succ m => exact ⟨(ih m).contract_succ, (ih m).contractTail_succ, (ih m).contractTerm_succ⟩

/-- A statement before its terminator. -/
theorem bareStatement_local {n m : Nat} (hs : Ready S 6 n m s) :
    Follows S s (fun stmt stmt' _ => (∀ span, stmt' (span.move S.move) = (stmt span).move S.move) ∧
      ∀ span, (stmt span).span = span) (bareStatement n) (bareStatement m) := by
  have hsteps := hs.steps
  -- Neither parser of statements uses up a step of its own.
  have hready : ∀ {c : Nat} {t : Stream}, s.Leads t → 8 * t.tokens.length + c ≤
      8 * s.tokens.length + 6 → Ready S c n m t := fun ht hc => ⟨ht.fits hs.fits, by omega⟩
  have hexpr : Follows S s (fun stmt stmt' _ =>
      (∀ span, stmt' (span.move S.move) = (stmt span).move S.move) ∧
        ∀ span, (stmt span).span = span)
      (do return Stmt.expr (← sequence n)) (do return Stmt.expr (← sequence m)) := by
    refine Follows.bind ((localAt S n m).sequence s (hready (.refl s) (by omega))) ?_
    rintro e _ t ht ⟨rfl, -⟩
    exact Follows.pure ⟨fun _ => rfl, fun _ => rfl⟩
  refine Follows.kind? hs.fits ?_
  cases hk : s.kind? with
  | none => exact hexpr
  | some k =>
    cases k with
    | keyword k =>
      cases k with
      | kwContract =>
        refine Follows.bind (Follows.expectKeyword hs.fits .kwContract) fun _ _ t₁ h₁ hlen₁ => ?_
        refine Follows.bind (Follows.identifier (h₁.fits hs.fits)) ?_
        rintro name _ t₂ h₂ ⟨rfl, hlen₂⟩
        have h₂ := h₁.trans h₂
        refine Follows.bind (Follows.expect (h₂.fits hs.fits) (by decide)) ?_
        intro _ _ t₃ h₃ hlen₃
        have h₃ := h₂.trans h₃
        refine Follows.bind ((localContractAt S n m).contract t₃ (hready h₃ (by omega))) ?_
        rintro c _ t₄ h₄ ⟨rfl, -⟩
        exact Follows.pure ⟨fun _ => rfl, fun _ => rfl⟩
      | kwLet =>
        refine Follows.start hs.fits ?_
        refine Follows.bind ((localAt S n m).binding s (hready (.refl s) (by omega))) ?_
        rintro b _ t₁ h₁ ⟨rfl, hlen₁⟩
        refine Follows.atKeyword (h₁.fits hs.fits) .kwIn (fun _ => ?_) fun _ => ?_
        · refine Follows.bind ((localAt S n m).localLet s.span.start b.1 b.2 t₁
            (hready h₁ (by omega))) ?_
          rintro e _ t₂ h₂ ⟨rfl, -⟩
          exact Follows.pure ⟨fun _ => rfl, fun _ => rfl⟩
        · exact Follows.pure ⟨fun _ => rfl, fun _ => rfl⟩
      | _ => exact hexpr
    | _ => exact hexpr

/-- The end of a statement: its terminator, or the end of the text. -/
def ending (start : Nat) (stmt : Span → Stmt) : Parse Stmt := do
  if (← kind?).isSome then expect .semiSemi
  return stmt (← spanFrom start)

theorem ending_of_none {start : Nat} {stmt : Span → Stmt} (h : t.kind? = none) :
    ending start stmt t = .ok (stmt ⟨start, t.lastStop⟩) t := by
  change (if t.kind?.isSome then _ else _ : Parse Stmt) t = _
  rw [h]
  rfl

theorem ending_of_terminator {start : Nat} {stmt : Span → Stmt}
    (h : t.kind? = some (.symbol .semiSemi)) :
    ending start stmt t = .ok (stmt ⟨start, t.advance.lastStop⟩) t.advance := by
  obtain ⟨b, hb, hrun⟩ := Follows.atSymbol_apply .semiSemi t
  obtain rfl : b = true := hb.mpr h
  have hexpect : expect .semiSemi t = .ok () t.advance := by
    change (atSymbol .semiSemi >>= _) t = _
    rw [Follows.bind_apply, hrun t rfl]
    rfl
  change (if t.kind?.isSome then expect .semiSemi >>= _ else _ : Parse Stmt) t = _
  rw [h, Option.isSome_some, if_pos rfl, Follows.bind_apply, hexpect]
  rfl

/-- Any other token is an error. -/
theorem ending_of_other {start start' : Nat} {stmt stmt' : Span → Stmt}
    {Q : Stmt → Stmt → Stream → Prop} (hs : S.Fits s) {k : TokenKind} (hk : s.kind? = some k)
    (hterm : k.isTerminator = false) :
    Follows S s Q (ending start stmt) (ending start' stmt') := by
  refine Follows.kind? hs ?_
  rw [hk, Option.isSome_some, if_pos rfl, if_pos rfl]
  refine Follows.bind (Q := fun _ _ _ => False) ?_ fun _ _ _ _ h => h.elim
  refine Follows.atSymbol hs .semiSemi (fun h => ?_) fun _ => Follows.unexpected hs _
  rw [hk, Option.some.injEq] at h
  rw [h] at hterm
  cases hterm

/-- **A statement is read from its own tokens.** Whether or not it is well-formed, reading goes on
after the next terminator. A statement that is read begins with the token at hand; an error is
noticed before the next terminator or at it, and never for want of steps. -/
theorem statement_local {n m : Nat} (hs : Ready S 6 n m s) :
    match statement n s, statement m (s.inside S) with
    | .ok stmt t, .ok stmt' u =>
      stmt' = stmt.move S.move ∧ t = s.skipStatement ∧ u = s.skipStatement.inside S ∧
        stmt.span.start = s.span.start
    | .error e t, .error e' u =>
      e' = e.move S.move ∧ s.Leads t ∧ u.skipStatement = s.skipStatement.inside S ∧
        e.span = t.span ∧ e.cause ≠ .outOfSteps
    | _, _ => False := by
  have hbare := bareStatement_local hs
  have hstart : (s.inside S).span.start = S.move s.span.start := by
    rw [s.span_inside hs.fits, Span.start_move]
  -- What is left of a statement is its end, which starts from where the statement began.
  have hleft : statement n s = (bareStatement n >>= ending s.span.start) s := rfl
  have hright : statement m (s.inside S) =
      (bareStatement m >>= ending (S.move s.span.start)) (s.inside S) := by
    rw [← hstart]
    rfl
  unfold Follows at hbare
  rw [hleft, hright, Follows.bind_apply, Follows.bind_apply]
  cases hx : bareStatement n s with
  | error e t =>
    cases hy : bareStatement m (s.inside S) with
    | ok stmt' u => rw [hx, hy] at hbare; exact hbare.elim
    | error e' u =>
      rw [hx, hy] at hbare
      -- The statement failed before its terminator, and both streams skip to the same one.
      obtain ⟨rfl, hst, he, hspan, hcause⟩ := hbare
      refine ⟨he, hst, ?_, hspan, hcause⟩
      rw [Stream.skipStatement_inside (hst.fits hs.fits), hst.skipStatement_eq]
  | ok stmt t =>
    cases hy : bareStatement m (s.inside S) with
    | error e' u => rw [hx, hy] at hbare; exact hbare.elim
    | ok stmt' u =>
      rw [hx, hy] at hbare
      obtain ⟨rfl, hst, hmove, hspan⟩ := hbare
      have hkind := t.kind?_inside (hst.fits hs.fits)
      dsimp only
      cases hk : t.kind? with
      | none =>
        rw [ending_of_none hk, ending_of_none (hkind.trans hk)]
        -- Nothing is left, and so nothing is skipped.
        have hskip : s.skipStatement = t := by
          rw [← hst.skipStatement_eq, t.skipStatement_of_none hk]
        exact ⟨hmove ⟨s.span.start, t.lastStop⟩, hskip.symm, by rw [hskip], by rw [hspan]⟩
      | some k =>
        cases hterm : k.isTerminator with
        | true =>
          obtain rfl := TokenKind.isTerminator_eq_true hterm
          rw [ending_of_terminator hk, ending_of_terminator (hkind.trans hk),
            Stream.advance_inside hk]
          have hskip : s.skipStatement = t.advance := by
            rw [← hst.skipStatement_eq, t.skipStatement_of_terminator hk]
          exact ⟨hmove ⟨s.span.start, t.advance.lastStop⟩, hskip.symm, by rw [hskip],
            by rw [hspan]⟩
        | false =>
          -- Another token than the terminator is an error at that token, in both streams.
          have hfail : Follows S t (fun _ _ _ => False) (ending s.span.start stmt)
              (ending (S.move s.span.start) stmt') :=
            ending_of_other (hst.fits hs.fits) hk hterm
          unfold Follows at hfail
          revert hfail
          cases ending s.span.start stmt t with
          | ok a v =>
            cases ending (S.move s.span.start) stmt' (t.inside S) with
            | ok b w => exact fun h => h.2.2.elim
            | error e' w => exact fun h => h.elim
          | error e v =>
            cases ending (S.move s.span.start) stmt' (t.inside S) with
            | ok b w => exact fun h => h.elim
            | error e' w =>
              rintro ⟨rfl, htv, he, hspan, hcause⟩
              have hsv := hst.trans htv
              refine ⟨he, hsv, ?_, hspan, hcause⟩
              rw [Stream.skipStatement_inside (hsv.fits hs.fits), hsv.skipStatement_eq]

end ContractML.Parse
