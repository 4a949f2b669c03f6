import ContractML.Parser.Program
import ContractML.Proofs.Tree

/-!
# Parsed programs are regular

No parser builds a monitored expression or an empty sequence, so every program that is read from a
source text is regular, whether the reader is strict or recovers from errors. A regular program is
plain.

The parsers of expressions call each other, each with one step less. The induction is on the number
of steps, and goes over all of them at once.

## Main definitions

* `Expr.Regular`, `Stmt.Regular`, `Program.Regular` — what parsers build.
* `Parse.Gives` — whatever a parser gives has a property.
* `Program.Parsed` — programs that are read from a source text.

## Main results

* `Parse.regularAt` — the parsers of expressions give regular expressions.
* `Program.Parsed.regular`, `Program.Parsed.plain` — **a parsed program is regular, and so plain**.
-/

namespace ContractML

/-! ### Regular trees -/

/-- Whether an expression is of a form that parsers build: neither monitored nor an empty
sequence. -/
def Expr.isRegular (e : Expr) : Bool := !e.isMonitored && !e.isHollow

theorem Expr.isRegular_iff {e : Expr} :
    e.isRegular = true ↔ e.isMonitored = false ∧ e.isHollow = false := by
  simp [Expr.isRegular]

/-- An expression without annotations and empty sequences. -/
def Expr.Regular (e : Expr) : Prop := e.All fun n => n.isRegular = true

/-- A contract without annotations and empty sequences. -/
def ContractExpr.Regular (c : ContractExpr) : Prop := c.All fun n => n.isRegular = true

/-- A statement whose expressions and contracts have no annotations and empty sequences. -/
def Stmt.Regular (stmt : Stmt) : Prop := ∀ n ∈ stmt.nodes, n.isRegular = true

/-- A program without annotations and empty sequences. -/
def Program.Regular (p : Program) : Prop := ∀ stmt ∈ p.body, stmt.Regular

theorem Stmt.Regular.plain {stmt : Stmt} (h : stmt.Regular) : stmt.Plain := by
  cases stmt <;> exact fun n hn => (Expr.isRegular_iff.mp (h n hn)).1

namespace Parse

variable {α β : Type} {P : α → Prop} {Q : β → Prop}

/-! ### Properties of results -/

/-- If the parser succeeds, its result has a property. -/
def Gives (x : Parse α) (P : α → Prop) : Prop := ∀ s a t, x s = .ok a t → P a

namespace Gives

protected theorem pure {a : α} (h : P a) : Gives (pure a) P := by
  intro s b t hb
  cases hb
  exact h

protected theorem throw (e : SyntaxError) : Gives (throw e : Parse α) P := by
  intro s b t hb
  cases hb

theorem bind_eq_ok {x : Parse α} {k : α → Parse β} {s t : Stream} {b : β}
    (h : (x >>= k) s = .ok b t) : ∃ a u, x s = .ok a u ∧ k a u = .ok b t := by
  change EStateM.bind x k s = _ at h
  rw [EStateM.bind.eq_def] at h
  cases hx : x s with
  | ok a u =>
    rw [hx] at h
    exact ⟨a, u, rfl, h⟩
  | error e u =>
    rw [hx] at h
    cases h

protected theorem bind {x : Parse α} {k : α → Parse β} (hx : Gives x P)
    (hk : ∀ a, P a → Gives (k a) Q) : Gives (x >>= k) Q := by
  intro s b t h
  obtain ⟨a, u, ha, hb⟩ := bind_eq_ok h
  exact hk a (hx s a u ha) u b t hb

/-- A step of which nothing has to be known. -/
theorem after {x : Parse α} {k : α → Parse β} (hk : ∀ a, Gives (k a) Q) : Gives (x >>= k) Q :=
  Gives.bind (fun _ _ _ _ => trivial) fun a (_ : True) => hk a

theorem outOfSteps : Gives (outOfSteps : Parse α) P := after fun _ => Gives.throw _

theorem unexpected (wanted : Expectation) : Gives (unexpected wanted : Parse α) P := by
  refine after fun s => ?_
  split
  · exact Gives.throw _
  · exact Gives.throw _

end Gives

/-! ### Parsers of expressions -/

/-- The value of a binding is regular if it is regular without its parameters. -/
theorem regular_bindingValue {params : List Ident} {value : Expr} (h : value.Regular)
    (valueStart stop : Nat) : (bindingValue params value valueStart stop).Regular := by
  cases params with
  | nil => exact h
  | cons p ps => exact Expr.all_lambda.mpr ⟨rfl, h⟩

theorem regular_apply (o : Operator) {l r : Expr} (hl : l.Regular) (hr : r.Regular) :
    (o.apply l r).Regular := by
  cases o with
  | binary op => exact Expr.all_binary.mpr ⟨rfl, hl, hr⟩
  | logical op => exact Expr.all_logical.mpr ⟨rfl, hl, hr⟩

/-- With `n` steps the parsers of expressions give regular expressions. -/
structure RegularAt (n : Nat) : Prop where
  sequence : Gives (sequence n) Expr.Regular
  sequenceTail : ∀ acc, (∀ e ∈ acc, e.Regular) →
    Gives (sequenceTail n acc) fun es => ∀ e ∈ es, e.Regular
  expression : ∀ level, Gives (expression n level) Expr.Regular
  operators : ∀ left level, left.Regular → Gives (operators n left level) Expr.Regular
  operand : Gives (operand n) Expr.Regular
  unary : ∀ op, Gives (unary n op) Expr.Regular
  binding : Gives (binding n) fun b => b.2.Regular
  localLet : ∀ start name value, value.Regular → Gives (localLet n start name value) Expr.Regular
  lambda : Gives (lambda n) Expr.Regular
  conditional : Gives (conditional n) Expr.Regular
  application : Gives (application n) Expr.Regular
  arguments : ∀ acc, (∀ e ∈ acc, e.Regular) → Gives (arguments n acc) fun es => ∀ e ∈ es, e.Regular
  atom : Gives (atom n) Expr.Regular

namespace RegularAt

variable {n : Nat}

theorem zero : RegularAt 0 where
  sequence := Gives.outOfSteps
  sequenceTail _ _ := Gives.outOfSteps
  expression _ := Gives.outOfSteps
  operators _ _ _ := Gives.outOfSteps
  operand := Gives.outOfSteps
  unary _ := Gives.outOfSteps
  binding := Gives.outOfSteps
  localLet _ _ _ _ := Gives.outOfSteps
  lambda := Gives.outOfSteps
  conditional := Gives.outOfSteps
  application := Gives.outOfSteps
  arguments _ _ := Gives.outOfSteps
  atom := Gives.outOfSteps

theorem sequence_succ (h : RegularAt n) : Gives (Parse.sequence (n + 1)) Expr.Regular := by
  refine Gives.after fun start => ?_
  refine Gives.bind (h.expression 0) fun first hfirst => ?_
  refine Gives.bind (h.sequenceTail [] (by simp)) fun rest hrest => ?_
  cases rest with
  | nil => exact Gives.pure hfirst
  | cons e es =>
    refine Gives.after fun span => Gives.pure ?_
    exact Expr.all_seq.mpr ⟨rfl, List.forall_mem_cons.mpr ⟨hfirst, hrest⟩⟩

theorem sequenceTail_succ (h : RegularAt n) (acc : List Expr) (hacc : ∀ e ∈ acc, e.Regular) :
    Gives (Parse.sequenceTail (n + 1) acc) fun es => ∀ e ∈ es, e.Regular := by
  refine Gives.after fun more => ?_
  cases more with
  | false => exact Gives.pure fun e he => hacc e (List.mem_reverse.mp he)
  | true =>
    refine Gives.after fun _ => ?_
    refine Gives.bind (h.expression 0) fun e he => ?_
    exact h.sequenceTail (e :: acc) (List.forall_mem_cons.mpr ⟨he, hacc⟩)

theorem operators_succ (h : RegularAt n) (left : Expr) (level : Nat) (hleft : left.Regular) :
    Gives (Parse.operators (n + 1) left level) Expr.Regular := by
  refine Gives.after fun kind => ?_
  split
  · exact Gives.pure hleft
  · rename_i o _
    split
    · exact Gives.pure hleft
    · refine Gives.after fun _ => ?_
      refine Gives.bind (h.expression o.rightLevel) fun right hright => ?_
      exact h.operators _ level (regular_apply o hleft hright)

theorem operand_succ (h : RegularAt n) : Gives (Parse.operand (n + 1)) Expr.Regular := by
  refine Gives.after fun kind => ?_
  split
  · exact h.unary .neg
  · exact h.unary .not
  · refine Gives.after fun start => ?_
    refine Gives.bind h.binding fun b hb => ?_
    exact h.localLet start b.1 b.2 hb
  · exact h.lambda
  · exact h.conditional
  · exact h.application

theorem binding_succ (h : RegularAt n) : Gives (Parse.binding (n + 1)) fun b => b.2.Regular := by
  refine Gives.after fun _ => Gives.after fun name => Gives.after fun params => ?_
  refine Gives.after fun _ => Gives.after fun valueStart => ?_
  refine Gives.bind h.sequence fun value hvalue => ?_
  exact Gives.after fun s => Gives.pure (regular_bindingValue hvalue valueStart s.lastStop)

theorem conditional_succ (h : RegularAt n) : Gives (Parse.conditional (n + 1)) Expr.Regular := by
  refine Gives.after fun start => Gives.after fun _ => ?_
  refine Gives.bind (h.expression 0) fun test htest => Gives.after fun _ => ?_
  refine Gives.bind (h.expression 0) fun yes hyes => Gives.after fun _ => ?_
  refine Gives.bind (h.expression 0) fun no hno => Gives.after fun span => Gives.pure ?_
  exact Expr.all_cond.mpr ⟨rfl, htest, hyes, hno⟩

theorem application_succ (h : RegularAt n) : Gives (Parse.application (n + 1)) Expr.Regular := by
  refine Gives.bind h.atom fun callee hcallee => ?_
  refine Gives.bind (h.arguments [] (by simp)) fun args hargs => ?_
  cases args with
  | nil => exact Gives.pure hcallee
  | cons a as =>
    refine Gives.after fun span => Gives.pure ?_
    exact Expr.all_call.mpr ⟨rfl, hcallee, hargs⟩

theorem arguments_succ (h : RegularAt n) (acc : List Expr) (hacc : ∀ e ∈ acc, e.Regular) :
    Gives (Parse.arguments (n + 1) acc) fun es => ∀ e ∈ es, e.Regular := by
  refine Gives.after fun kind => ?_
  split
  · refine Gives.bind h.atom fun e he => ?_
    exact h.arguments (e :: acc) (List.forall_mem_cons.mpr ⟨he, hacc⟩)
  · exact Gives.pure fun e he => hacc e (List.mem_reverse.mp he)

theorem atom_succ (h : RegularAt n) : Gives (Parse.atom (n + 1)) Expr.Regular := by
  refine Gives.after fun s => Gives.after fun kind => ?_
  split
  case h_8 =>
    refine Gives.after fun _ => Gives.bind h.sequence fun inner hinner => ?_
    exact Gives.after fun _ => Gives.pure hinner
  case h_9 => exact Gives.unexpected .expression
  case h_7 => exact Gives.after fun _ => Gives.pure (Expr.all_var.mpr rfl)
  all_goals exact Gives.after fun _ => Gives.pure (Expr.all_lit.mpr rfl)

/-- One step more. -/
theorem succ (h : RegularAt n) : RegularAt (n + 1) where
  sequence := h.sequence_succ
  sequenceTail := h.sequenceTail_succ
  expression level := Gives.bind h.operand fun left hleft => h.operators left level hleft
  operators := h.operators_succ
  operand := h.operand_succ
  unary op := by
    refine Gives.after fun start => Gives.after fun _ => ?_
    refine Gives.bind (h.expression Operator.unaryLevel) fun e he => ?_
    exact Gives.after fun span => Gives.pure (Expr.all_unary.mpr ⟨rfl, he⟩)
  binding := h.binding_succ
  localLet start name value hvalue := by
    refine Gives.after fun _ => Gives.bind h.sequence fun body hbody => ?_
    exact Gives.after fun span => Gives.pure (Expr.all_letIn.mpr ⟨rfl, hvalue, hbody⟩)
  lambda := by
    refine Gives.after fun start => Gives.after fun _ => Gives.after fun first => ?_
    refine Gives.after fun rest => Gives.after fun _ => Gives.bind h.sequence fun body hbody => ?_
    exact Gives.after fun span => Gives.pure (Expr.all_lambda.mpr ⟨rfl, hbody⟩)
  conditional := h.conditional_succ
  application := h.application_succ
  arguments := h.arguments_succ
  atom := h.atom_succ

end RegularAt

/-- **The parsers of expressions give regular expressions**, with any number of steps. -/
theorem regularAt (n : Nat) : RegularAt n := by
  induction n with
  | zero => exact RegularAt.zero
  | succ n ih => exact ih.succ

/-! ### Parsers of contracts and statements -/

/-- With `n` steps the parsers of contracts give regular contracts. -/
structure RegularContractAt (n : Nat) : Prop where
  contract : Gives (contract n) ContractExpr.Regular
  contractTail : ∀ acc, (∀ c ∈ acc, c.Regular) →
    Gives (contractTail n acc) fun cs => ∀ c ∈ cs, c.Regular
  contractTerm : Gives (contractTerm n) ContractExpr.Regular

namespace RegularContractAt

variable {n : Nat}

theorem contract_succ (h : RegularContractAt n) :
    Gives (Parse.contract (n + 1)) ContractExpr.Regular := by
  refine Gives.after fun start => ?_
  refine Gives.bind h.contractTerm fun first hfirst => ?_
  refine Gives.bind (h.contractTail [] (by simp)) fun terms hterms => ?_
  cases terms with
  | nil => exact Gives.pure hfirst
  | cons range domain =>
    rw [List.forall_mem_cons] at hterms
    refine Gives.after fun span => Gives.pure (ContractExpr.all_arrow.mpr ⟨?_, hterms.1⟩)
    refine List.forall_mem_cons.mpr ⟨hfirst, fun d hd => ?_⟩
    exact hterms.2 d (List.mem_reverse.mp hd)

theorem contractTail_succ (h : RegularContractAt n) (acc : List ContractExpr)
    (hacc : ∀ c ∈ acc, c.Regular) :
    Gives (Parse.contractTail (n + 1) acc) fun cs => ∀ c ∈ cs, c.Regular := by
  refine Gives.after fun more => ?_
  cases more with
  | false => exact Gives.pure hacc
  | true =>
    refine Gives.after fun _ => ?_
    refine Gives.bind h.contractTerm fun c hc => ?_
    exact h.contractTail (c :: acc) (List.forall_mem_cons.mpr ⟨hc, hacc⟩)

theorem contractTerm_succ (h : RegularContractAt n) :
    Gives (Parse.contractTerm (n + 1)) ContractExpr.Regular := by
  refine Gives.after fun nested => ?_
  cases nested with
  | true =>
    refine Gives.after fun _ => ?_
    refine Gives.bind h.contract fun inner hinner => ?_
    exact Gives.after fun _ => Gives.pure hinner
  | false =>
    refine Gives.bind ((regularAt n).expression 0) fun e he => Gives.pure ?_
    exact ContractExpr.all_flat.mpr he

end RegularContractAt

theorem regularContractAt (n : Nat) : RegularContractAt n := by
  induction n with
  | zero => exact ⟨Gives.outOfSteps, fun _ _ => Gives.outOfSteps, Gives.outOfSteps⟩
  | succ n ih => exact ⟨ih.contract_succ, ih.contractTail_succ, ih.contractTerm_succ⟩

theorem gives_bareStatement (n : Nat) :
    Gives (bareStatement n) fun stmt => ∀ span, (stmt span).Regular := by
  refine Gives.after fun kind => ?_
  split
  · refine Gives.after fun _ => Gives.after fun name => Gives.after fun _ => ?_
    exact Gives.bind (regularContractAt n).contract fun c hc => Gives.pure fun _ => hc
  · refine Gives.after fun start => Gives.bind (regularAt n).binding fun b hb => ?_
    refine Gives.after fun isLocal => ?_
    cases isLocal with
    | true =>
      refine Gives.bind ((regularAt n).localLet start b.1 b.2 hb) fun e he => ?_
      exact Gives.pure fun _ => he
    | false => exact Gives.pure fun _ => hb
  · exact Gives.bind (regularAt n).sequence fun e he => Gives.pure fun _ => he

/-- A statement that is parsed is regular. -/
theorem gives_statement (n : Nat) : Gives (statement n) Stmt.Regular := by
  refine Gives.after fun start => Gives.bind (gives_bareStatement n) fun stmt hstmt => ?_
  refine Gives.after fun kind => ?_
  split
  · exact Gives.after fun _ => Gives.after fun span => Gives.pure (hstmt span)
  · exact Gives.after fun span => Gives.pure (hstmt span)

end Parse

/-! ### Programs -/

/-- A program that is read from a source text, strictly or recovering from errors. -/
def Program.Parsed (p : Program) : Prop :=
  ∃ recovering source, (Program.read recovering source).program = p

theorem Program.parsed_recover (source : String) : (Program.recover source).program.Parsed :=
  ⟨true, source, rfl⟩

/-- A reader that starts from regular statements gives a regular program. -/
theorem Program.regular_readFrom (recovering : Bool) (steps start : Nat) :
    ∀ (fuel : Nat) (s : Stream) (body : List Stmt) (errors : List SyntaxError),
      (∀ stmt ∈ body, stmt.Regular) →
        (readFrom recovering steps start fuel s body errors).program.Regular := by
  intro fuel
  induction fuel with
  | zero => exact fun s body errors hbody stmt h => hbody stmt (List.mem_reverse.mp h)
  | succ fuel ih =>
    intro s body errors hbody
    -- The statements read so far are kept in reverse.
    have hdone : ∀ span, (Program.mk body.reverse span).Regular :=
      fun span stmt h => hbody stmt (List.mem_reverse.mp h)
    rw [readFrom]
    split
    · exact hdone _
    · split
      · rename_i stmt next hstmt
        have hregular : stmt.Regular := Parse.gives_statement steps s stmt next hstmt
        exact ih next (stmt :: body) errors (List.forall_mem_cons.mpr ⟨hregular, hbody⟩)
      · split
        · exact ih _ body _ hbody
        · exact hdone _

/-- **A parsed program is regular.** -/
theorem Program.Parsed.regular {p : Program} (h : p.Parsed) : p.Regular := by
  obtain ⟨recovering, source, rfl⟩ := h
  exact Program.regular_readFrom recovering _ _ _ _ [] [] (by simp)

/-- **A parsed program is plain.** -/
theorem Program.Parsed.plain {p : Program} (h : p.Parsed) : p.Plain :=
  fun stmt hstmt => (h.regular stmt hstmt).plain

end ContractML
