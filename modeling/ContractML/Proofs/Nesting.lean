import ContractML.Proofs.TokenSpans

/-!
# Spans are nested

The parser computes spans in several ways: from one token, from the first token of a construct to
the last one taken, from the spans of two operands, or from a callee or a parameter on. Parentheses
leave no node, but the constructs around them take them in. However a span is computed, nodes stand
where they should: a parser goes forward through the tokens, and what it has read is a row of nodes
that ends with the token taken last.

## Main definitions

* `Parse.Lays` — a parser that goes forward and fails within the text.
* `Program.Laid`, `Reading.Laid` — what is read stands where it should.

## Main results

* `Parse.laysAt`, `Parse.laysContractAt`, `Parse.lays_statement` — one node for each construct.
* `Program.laid_read` — both readers give what stands where it should.
* `Program.spans_nested` — **the spans of a program are well-formed and nested**.
-/

namespace ContractML

/-! ### Rows and streams -/

/-- A row that goes on with the token at hand. -/
theorem Row.next {source : String} {s : Stream} {lo hi : Nat} {ns ms : List Node}
    (h : Row source lo s.lastStop ns) (hs : s.Laid source) (h' : Row source s.span.start hi ms) :
    Row source lo hi (ns ++ ms) :=
  h.append (h'.mono hs.lastStop_le le_rfl)

/-- A row before further tokens. -/
theorem Row.passed {source : String} {s t : Stream} {lo : Nat} {ns : List Node}
    (h : Row source lo s.lastStop ns) (hst : s.Precedes t) : Row source lo t.lastStop ns :=
  h.mono le_rfl hst.lastStop_le

/-- A row after further tokens. -/
theorem Row.sooner {source : String} {s t : Stream} {hi : Nat} {ns : List Node}
    (h : Row source t.span.start hi ns) (hst : s.Precedes t) : Row source s.span.start hi ns :=
  h.mono hst.start_le le_rfl

/-! ### One run of a parser -/

namespace Parse

variable {α β : Type} {source : String} {s t : Stream}

/-- From a stream that stands where it should, the parser goes forward to another one. It gives a
result with the property `Q`, or fails at a place of the text. -/
def Lays (source : String) (s : Stream) (Q : α → Stream → Prop) (x : Parse α) : Prop :=
  match x s with
  | .ok a t => t.Laid source ∧ s.Precedes t ∧ Q a t
  | .error e t => t.Laid source ∧ s.Precedes t ∧ e.span.Within source

namespace Lays

variable {Q : α → Stream → Prop} {R : β → Stream → Prop}

protected theorem pure (hs : s.Laid source) {a : α} (h : Q a s) : Lays source s Q (pure a) :=
  ⟨hs, .refl s, h⟩

/-- What is parsed from a later stream on. -/
theorem of_precedes (hst : s.Precedes t) {x y : Parse β} (h : Lays source t R y)
    (hxy : x s = y t) : Lays source s R x := by
  unfold Lays at h ⊢
  rw [hxy]
  split at h
  · exact ⟨h.1, hst.trans h.2.1, h.2.2⟩
  · exact ⟨h.1, hst.trans h.2.1, h.2.2⟩

protected theorem bind {x : Parse α} {f : α → Parse β} (hx : Lays source s Q x)
    (hf : ∀ a t, t.Laid source → s.Precedes t → Q a t → Lays source t R (f a)) :
    Lays source s R (x >>= f) := by
  cases hxs : x s with
  | ok a t =>
    unfold Lays at hx
    rw [hxs] at hx
    refine of_precedes hx.2.1 (hf a t hx.1 hx.2.1 hx.2.2) ?_
    rw [Follows.bind_apply, hxs]
  | error e t =>
    unfold Lays at hx ⊢
    rw [Follows.bind_apply, hxs]
    rwa [hxs] at hx

/-! Steps that only look at the stream -/

protected theorem get {f : Stream → Parse β} (h : Lays source s R (f s)) :
    Lays source s R (get >>= f) := h

protected theorem kind? {f : Option TokenKind → Parse β} (h : Lays source s R (f s.kind?)) :
    Lays source s R (kind? >>= f) := h

protected theorem start {f : Nat → Parse β} (h : Lays source s R (f s.span.start)) :
    Lays source s R (start >>= f) := h

protected theorem spanFrom {start : Nat} {f : Span → Parse β}
    (h : Lays source s R (f ⟨start, s.lastStop⟩)) : Lays source s R (spanFrom start >>= f) := h

protected theorem atSymbol (k : Symbol) {f : Bool → Parse β}
    (h : ∀ b, Lays source s R (f b)) : Lays source s R (atSymbol k >>= f) := by
  obtain ⟨b, -, hrun⟩ := Follows.atSymbol_apply k s
  refine of_precedes (.refl s) (h b) ?_
  rw [Follows.bind_apply, hrun s rfl]

protected theorem atKeyword (k : Keyword) {f : Bool → Parse β}
    (h : ∀ b, Lays source s R (f b)) : Lays source s R (atKeyword k >>= f) := by
  obtain ⟨b, -, hrun⟩ := Follows.atKeyword_apply k s
  refine of_precedes (.refl s) (h b) ?_
  rw [Follows.bind_apply, hrun s rfl]

/-! Steps that take tokens or fail -/

protected theorem advance (hs : s.Laid source) {f : Unit → Parse β}
    (h : s.advance.Laid source → s.Precedes s.advance → Lays source s.advance R (f ())) :
    Lays source s R (advance >>= f) :=
  of_precedes hs.advance.2 (h hs.advance.1 hs.advance.2) rfl

/-- A parser that fails at the token at hand. -/
theorem fails (hs : s.Laid source) {x : Parse α} {cause : SyntaxError.Cause}
    (h : x s = .error ⟨cause, s.span⟩ s) : Lays source s Q x := by
  unfold Lays
  rw [h]
  exact ⟨hs, .refl s, hs.span_within⟩

theorem unexpected (hs : s.Laid source) (wanted : Expectation) :
    Lays source s Q (Parse.unexpected wanted) := by
  refine Lays.get ?_
  split
  · exact fails hs rfl
  · exact fails hs rfl

theorem outOfSteps (hs : s.Laid source) : Lays source s Q Parse.outOfSteps :=
  fails hs rfl

protected theorem expect (hs : s.Laid source) (k : Symbol) :
    Lays source s (fun _ _ => True) (expect k) := by
  refine Lays.atSymbol k fun b => ?_
  cases b with
  | true => exact ⟨hs.advance.1, hs.advance.2, trivial⟩
  | false => exact unexpected hs _

protected theorem expectKeyword (hs : s.Laid source) (k : Keyword) :
    Lays source s (fun _ _ => True) (expectKeyword k) := by
  refine Lays.atKeyword k fun b => ?_
  cases b with
  | true => exact ⟨hs.advance.1, hs.advance.2, trivial⟩
  | false => exact unexpected hs _

protected theorem identifier (hs : s.Laid source) :
    Lays source s (fun x t => Row source s.span.start t.lastStop [.ident x]) identifier := by
  refine Lays.get ?_
  split
  next name hk =>
    refine Lays.advance hs fun ht _ => Lays.pure ht (hs.row_token hk rfl rfl ?_)
    rintro x ⟨⟩
    rfl
  next => exact unexpected hs .identifier

theorem takeIdentifiers_laid (hs : s.Laid source) {lo : Nat} {acc : List Ident}
    (hacc : Row source lo s.lastStop (acc.reverse.map .ident)) :
    (takeIdentifiers s.eof acc s.tokens s.lastStop).2.Laid source ∧
      s.Precedes (takeIdentifiers s.eof acc s.tokens s.lastStop).2 ∧
      Row source lo (takeIdentifiers s.eof acc s.tokens s.lastStop).2.lastStop
        ((takeIdentifiers s.eof acc s.tokens s.lastStop).1.map .ident) := by
  obtain ⟨ts, lastStop, eof⟩ := s
  dsimp only at hacc ⊢
  fun_induction takeIdentifiers eof acc ts lastStop with
  | case2 acc ts lastStop hts => exact ⟨hs, .refl _, hacc⟩
  | case1 acc name span ts lastStop ih =>
    obtain ⟨hrest, hstep⟩ := hs.tail
    have hname : Row source span.start span.stop [.ident ⟨name, span⟩] := by
      refine hs.row_token (k := .ident name) rfl rfl rfl ?_
      rintro x ⟨⟩
      rfl
    -- The row is in the order of the text, and the list of names the other way round.
    have hrow := hacc.next hs hname
    obtain ⟨hlaid, hprecedes, hall⟩ := ih hrest (by simpa using hrow)
    exact ⟨hlaid, hstep.trans hprecedes, hall⟩

protected theorem identifiers (hs : s.Laid source) :
    Lays source s (fun xs t => Row source s.lastStop t.lastStop (xs.map .ident)) identifiers :=
  takeIdentifiers_laid hs (.nil le_rfl)

end Lays

/-! ### Parsers of expressions -/

/-- The name and the value of a binding, which is a function if there are parameters. -/
theorem row_bindingValue {lo mid valueStart stop : Nat} {name : Ident} {params : List Ident}
    {value : Expr} (hname : Row source lo mid [.ident name])
    (hparams : Row source mid valueStart (params.map .ident))
    (hvalue : Row source valueStart stop [.expr value])
    (hstop : String.Pos.Raw.IsValid source ⟨stop⟩) :
    Row source lo stop [.ident name, .expr (bindingValue params value valueStart stop)] := by
  cases params with
  | nil => exact hname.append (hvalue.mono hparams.le le_rfl)
  | cons p ps =>
    -- A function begins at its first parameter, and that stands before the value.
    have hp : p.span.Within source :=
      (hparams.laid (.ident p) List.mem_cons_self).placed.within
    have hle : p.span.start ≤ valueStart :=
      hp.start_le.trans (hparams.high (.ident p) List.mem_cons_self)
    have hspan : Span.mk (min p.span.start valueStart) stop = ⟨p.span.start, stop⟩ := by
      rw [Nat.min_eq_left hle]
    have hfun : Row source p.span.start stop
        [.expr (.lambda (p :: ps) value ⟨min p.span.start valueStart, stop⟩)] :=
      (hparams.append hvalue).from_head.node (List.cons_ne_nil _ _) hp.start_valid hstop hspan
    exact hname.append (hfun.mono (hparams.low (.ident p) List.mem_cons_self) le_rfl)

/-- An operator between its operands. -/
theorem row_apply {lo hi : Nat} {l r : Expr} (o : Operator)
    (h : Row source lo hi [.expr l, .expr r]) : Row source lo hi [.expr (o.apply l r)] := by
  cases o with
  | binary op => exact h.between rfl rfl
  | logical op => exact h.between rfl rfl

/-- With `n` steps the parsers of expressions give nodes that stand where they should. -/
structure LaysAt (source : String) (n : Nat) : Prop where
  sequence : ∀ {s}, s.Laid source →
    Lays source s (fun e t => Row source s.span.start t.lastStop [.expr e]) (sequence n)
  sequenceTail : ∀ {s acc lo}, s.Laid source →
    Row source lo s.lastStop (acc.reverse.map .expr) →
      Lays source s (fun es t => Row source lo t.lastStop (es.map .expr)) (sequenceTail n acc)
  expression : ∀ {s} level, s.Laid source →
    Lays source s (fun e t => Row source s.span.start t.lastStop [.expr e]) (expression n level)
  operators : ∀ {s left lo} level, s.Laid source → Row source lo s.lastStop [.expr left] →
    Lays source s (fun e t => Row source lo t.lastStop [.expr e]) (operators n left level)
  operand : ∀ {s}, s.Laid source →
    Lays source s (fun e t => Row source s.span.start t.lastStop [.expr e]) (operand n)
  unary : ∀ {s} op, s.Laid source →
    Lays source s (fun e t => Row source s.span.start t.lastStop [.expr e]) (unary n op)
  binding : ∀ {s}, s.Laid source →
    Lays source s (fun b t => Row source s.span.start t.lastStop [.ident b.1, .expr b.2])
      (binding n)
  localLet : ∀ {s start name value}, s.Laid source →
    String.Pos.Raw.IsValid source ⟨start⟩ →
    Row source start s.lastStop [.ident name, .expr value] →
      Lays source s (fun e t => Row source start t.lastStop [.expr e])
        (localLet n start name value)
  lambda : ∀ {s}, s.Laid source →
    Lays source s (fun e t => Row source s.span.start t.lastStop [.expr e]) (lambda n)
  conditional : ∀ {s}, s.Laid source →
    Lays source s (fun e t => Row source s.span.start t.lastStop [.expr e]) (conditional n)
  application : ∀ {s}, s.Laid source →
    Lays source s (fun e t => Row source s.span.start t.lastStop [.expr e]) (application n)
  arguments : ∀ {s acc lo}, s.Laid source →
    Row source lo s.lastStop (acc.reverse.map .expr) →
      Lays source s (fun es t => Row source lo t.lastStop (es.map .expr)) (arguments n acc)
  atom : ∀ {s}, s.Laid source →
    Lays source s (fun e t => Row source s.span.start t.lastStop [.expr e]) (atom n)

namespace LaysAt

variable {n : Nat}

theorem zero : LaysAt source 0 where
  sequence hs := Lays.outOfSteps hs
  sequenceTail hs _ := Lays.outOfSteps hs
  expression _ hs := Lays.outOfSteps hs
  operators _ hs _ := Lays.outOfSteps hs
  operand hs := Lays.outOfSteps hs
  unary _ hs := Lays.outOfSteps hs
  binding hs := Lays.outOfSteps hs
  localLet hs _ _ := Lays.outOfSteps hs
  lambda hs := Lays.outOfSteps hs
  conditional hs := Lays.outOfSteps hs
  application hs := Lays.outOfSteps hs
  arguments hs _ := Lays.outOfSteps hs
  atom hs := Lays.outOfSteps hs

theorem sequence_succ (h : LaysAt source n) (hs : s.Laid source) :
    Lays source s (fun e t => Row source s.span.start t.lastStop [.expr e])
      (Parse.sequence (n + 1)) := by
  refine Lays.start ?_
  refine (h.expression 0 hs).bind fun first t ht hst hfirst => ?_
  refine (h.sequenceTail ht (.nil le_rfl)).bind fun rest u hu htu hrest => ?_
  -- A single expression keeps its own span, also if there are parentheses around it.
  cases rest with
  | nil => exact Lays.pure hu (hfirst.passed htu)
  | cons e es =>
    refine Lays.spanFrom (Lays.pure hu ?_)
    exact (hfirst.append hrest).node (List.cons_ne_nil _ _) hs.span_within.start_valid hu.valid rfl

theorem sequenceTail_succ (h : LaysAt source n) {acc : List Expr} {lo : Nat} (hs : s.Laid source)
    (hacc : Row source lo s.lastStop (acc.reverse.map .expr)) :
    Lays source s (fun es t => Row source lo t.lastStop (es.map .expr))
      (Parse.sequenceTail (n + 1) acc) := by
  refine Lays.atSymbol .semi fun more => ?_
  cases more with
  | false => exact Lays.pure hs hacc
  | true =>
    refine Lays.advance hs fun ht hst => ?_
    refine (h.expression 0 ht).bind fun e u hu _ he => ?_
    refine h.sequenceTail hu ?_
    rw [List.reverse_cons, List.map_append]
    exact (hacc.passed hst).next ht he

theorem expression_succ (h : LaysAt source n) (level : Nat) (hs : s.Laid source) :
    Lays source s (fun e t => Row source s.span.start t.lastStop [.expr e])
      (Parse.expression (n + 1) level) :=
  (h.operand hs).bind fun _ _ ht _ hleft => h.operators level ht hleft

theorem operators_succ (h : LaysAt source n) {left : Expr} {lo : Nat} (level : Nat)
    (hs : s.Laid source) (hleft : Row source lo s.lastStop [.expr left]) :
    Lays source s (fun e t => Row source lo t.lastStop [.expr e])
      (Parse.operators (n + 1) left level) := by
  refine Lays.kind? ?_
  split
  · exact Lays.pure hs hleft
  · -- An operator of a lower level is left where it is, to a construct further out.
    rename_i o _
    split
    · exact Lays.pure hs hleft
    · refine Lays.advance hs fun ht hst => ?_
      refine (h.expression o.rightLevel ht).bind fun right u hu _ hright => ?_
      exact h.operators level hu (row_apply o ((hleft.passed hst).next ht hright))

theorem operand_succ (h : LaysAt source n) (hs : s.Laid source) :
    Lays source s (fun e t => Row source s.span.start t.lastStop [.expr e])
      (Parse.operand (n + 1)) := by
  refine Lays.kind? ?_
  split
  · exact h.unary .neg hs
  · exact h.unary .not hs
  · refine Lays.start ((h.binding hs).bind fun b t ht _ hb => ?_)
    exact h.localLet ht hs.span_within.start_valid hb
  · exact h.lambda hs
  · exact h.conditional hs
  · exact h.application hs

theorem unary_succ (h : LaysAt source n) (op : UnaryOp) (hs : s.Laid source) :
    Lays source s (fun e t => Row source s.span.start t.lastStop [.expr e])
      (Parse.unary (n + 1) op) := by
  refine Lays.start (Lays.advance hs fun ht hst => ?_)
  refine (h.expression Operator.unaryLevel ht).bind fun e u hu _ he => ?_
  refine Lays.spanFrom (Lays.pure hu ?_)
  exact (he.sooner hst).node (List.cons_ne_nil _ _) hs.span_within.start_valid hu.valid rfl

theorem binding_succ (h : LaysAt source n) (hs : s.Laid source) :
    Lays source s (fun b t => Row source s.span.start t.lastStop [.ident b.1, .expr b.2])
      (Parse.binding (n + 1)) := by
  refine (Lays.expectKeyword hs .kwLet).bind fun _ t ht hst _ => ?_
  refine (Lays.identifier ht).bind fun name u hu _ hname => ?_
  refine (Lays.identifiers hu).bind fun params v hv _ hparams => ?_
  refine (Lays.expect hv .eq).bind fun _ w hw hvw _ => Lays.start ?_
  refine (h.sequence hw).bind fun value x hx _ hvalue => Lays.get (Lays.pure hx ?_)
  have hbefore := (hparams.passed hvw).mono le_rfl hw.lastStop_le
  exact row_bindingValue (hname.sooner hst) hbefore hvalue hx.valid

theorem localLet_succ (h : LaysAt source n) {start : Nat} {name : Ident} {value : Expr}
    (hs : s.Laid source) (hstart : String.Pos.Raw.IsValid source ⟨start⟩)
    (hbinding : Row source start s.lastStop [.ident name, .expr value]) :
    Lays source s (fun e t => Row source start t.lastStop [.expr e])
      (Parse.localLet (n + 1) start name value) := by
  refine (Lays.expectKeyword hs .kwIn).bind fun _ t ht hst _ => ?_
  refine (h.sequence ht).bind fun body u hu _ hbody => Lays.spanFrom (Lays.pure hu ?_)
  have hrow := (hbinding.passed hst).next ht hbody
  exact hrow.node (List.cons_ne_nil _ _) hstart hu.valid rfl

theorem lambda_succ (h : LaysAt source n) (hs : s.Laid source) :
    Lays source s (fun e t => Row source s.span.start t.lastStop [.expr e])
      (Parse.lambda (n + 1)) := by
  refine Lays.start ((Lays.expectKeyword hs .kwFun).bind fun _ t ht hst _ => ?_)
  refine (Lays.identifier ht).bind fun first u hu _ hfirst => ?_
  refine (Lays.identifiers hu).bind fun rest v hv _ hrest => ?_
  refine (Lays.expect hv .arrow).bind fun _ w hw hvw _ => ?_
  refine (h.sequence hw).bind fun body x hx _ hbody => Lays.spanFrom (Lays.pure hx ?_)
  have hparams := (hfirst.sooner hst).append (hrest.passed hvw)
  exact (hparams.next hw hbody).node (List.cons_ne_nil _ _) hs.span_within.start_valid hx.valid rfl

theorem conditional_succ (h : LaysAt source n) (hs : s.Laid source) :
    Lays source s (fun e t => Row source s.span.start t.lastStop [.expr e])
      (Parse.conditional (n + 1)) := by
  refine Lays.start ((Lays.expectKeyword hs .kwIf).bind fun _ t ht hst _ => ?_)
  refine (h.expression 0 ht).bind fun test u hu _ htest => ?_
  refine (Lays.expectKeyword hu .kwThen).bind fun _ v hv huv _ => ?_
  refine (h.expression 0 hv).bind fun yes w hw _ hyes => ?_
  refine (Lays.expectKeyword hw .kwElse).bind fun _ x hx hwx _ => ?_
  refine (h.expression 0 hx).bind fun no y hy _ hno => Lays.spanFrom (Lays.pure hy ?_)
  have hbranches := (((htest.sooner hst).passed huv).next hv hyes).passed hwx
  exact (hbranches.next hx hno).node (List.cons_ne_nil _ _) hs.span_within.start_valid hy.valid rfl

theorem application_succ (h : LaysAt source n) (hs : s.Laid source) :
    Lays source s (fun e t => Row source s.span.start t.lastStop [.expr e])
      (Parse.application (n + 1)) := by
  refine (h.atom hs).bind fun callee t ht _ hcallee => ?_
  refine (h.arguments ht (.nil le_rfl)).bind fun args u hu htu hargs => ?_
  cases args with
  | nil => exact Lays.pure hu (hcallee.passed htu)
  | cons a as =>
    refine Lays.spanFrom (Lays.pure hu ?_)
    -- A call begins where its callee begins. If that was in parentheses, this is after the token at
    -- hand, and the row is widened to it.
    have hcall := (hcallee.append hargs).from_head
    have hstart := (hcallee.laid (.expr callee) List.mem_cons_self).placed.within.start_valid
    refine Row.mono ?_ (hcallee.low (.expr callee) List.mem_cons_self) le_rfl
    exact hcall.node (List.cons_ne_nil _ _) hstart hu.valid rfl

theorem arguments_succ (h : LaysAt source n) {acc : List Expr} {lo : Nat} (hs : s.Laid source)
    (hacc : Row source lo s.lastStop (acc.reverse.map .expr)) :
    Lays source s (fun es t => Row source lo t.lastStop (es.map .expr))
      (Parse.arguments (n + 1) acc) := by
  refine Lays.kind? ?_
  split
  · refine (h.atom hs).bind fun e t ht _ he => h.arguments ht ?_
    rw [List.reverse_cons, List.map_append]
    exact hacc.next hs he
  · exact Lays.pure hs hacc

theorem atom_succ (h : LaysAt source n) (hs : s.Laid source) :
    Lays source s (fun e t => Row source s.span.start t.lastStop [.expr e])
      (Parse.atom (n + 1)) := by
  refine Lays.get (Lays.kind? ?_)
  split
  case h_8 =>
    -- Parentheses leave no node: what is inside is the row, and the row may be wider than its
    -- nodes.
    refine Lays.advance hs fun ht hst => ?_
    refine (h.sequence ht).bind fun inner u hu _ hinner => ?_
    refine (Lays.expect hu .rparen).bind fun _ v hv huv _ => Lays.pure hv ?_
    exact (hinner.sooner hst).passed huv
  case h_9 => exact Lays.unexpected hs .expression
  case h_7 name hk =>
    refine Lays.advance hs fun ht _ => Lays.pure ht ?_
    have hname : Row source s.span.start s.advance.lastStop [.ident ⟨name, s.span⟩] := by
      refine hs.row_token hk rfl rfl ?_
      rintro x ⟨⟩
      rfl
    exact hname.same rfl rfl
  all_goals
    rename_i hk
    exact Lays.advance hs fun ht _ => Lays.pure ht (hs.row_token hk rfl rfl nofun)

/-- One step more. -/
theorem succ (h : LaysAt source n) : LaysAt source (n + 1) where
  sequence := h.sequence_succ
  sequenceTail := h.sequenceTail_succ
  expression := h.expression_succ
  operators := h.operators_succ
  operand := h.operand_succ
  unary := h.unary_succ
  binding := h.binding_succ
  localLet := h.localLet_succ
  lambda := h.lambda_succ
  conditional := h.conditional_succ
  application := h.application_succ
  arguments := h.arguments_succ
  atom := h.atom_succ

end LaysAt

/-- **The expressions that are parsed stand where they should**, with any number of steps. -/
theorem laysAt (source : String) (n : Nat) : LaysAt source n := by
  induction n with
  | zero => exact LaysAt.zero
  | succ n ih => exact ih.succ

/-! ### Parsers of contracts and statements -/

/-- With `n` steps the parsers of contracts give nodes that stand where they should. -/
structure LaysContractAt (source : String) (n : Nat) : Prop where
  contract : ∀ {s}, s.Laid source →
    Lays source s (fun c t => Row source s.span.start t.lastStop [.contract c]) (contract n)
  contractTail : ∀ {s acc lo}, s.Laid source →
    Row source lo s.lastStop (acc.reverse.map .contract) →
      Lays source s (fun cs t => Row source lo t.lastStop (cs.reverse.map .contract))
        (contractTail n acc)
  contractTerm : ∀ {s}, s.Laid source →
    Lays source s (fun c t => Row source s.span.start t.lastStop [.contract c]) (contractTerm n)

namespace LaysContractAt

variable {n : Nat}

theorem contract_succ (h : LaysContractAt source n) (hs : s.Laid source) :
    Lays source s (fun c t => Row source s.span.start t.lastStop [.contract c])
      (Parse.contract (n + 1)) := by
  refine Lays.start ((h.contractTerm hs).bind fun first t ht _ hfirst => ?_)
  refine (h.contractTail ht (.nil le_rfl)).bind fun terms u hu htu hterms => ?_
  cases terms with
  | nil => exact Lays.pure hu (hfirst.passed htu)
  | cons range domain =>
    refine Lays.spanFrom (Lays.pure hu ?_)
    -- The range was read last, so it is the head of the list of terms.
    have hrow := hfirst.append hterms
    rw [List.reverse_cons, List.map_append] at hrow
    exact hrow.node (List.cons_ne_nil _ _) hs.span_within.start_valid hu.valid rfl

theorem contractTail_succ (h : LaysContractAt source n) {acc : List ContractExpr} {lo : Nat}
    (hs : s.Laid source) (hacc : Row source lo s.lastStop (acc.reverse.map .contract)) :
    Lays source s (fun cs t => Row source lo t.lastStop (cs.reverse.map .contract))
      (Parse.contractTail (n + 1) acc) := by
  refine Lays.atSymbol .arrow fun more => ?_
  cases more with
  | false => exact Lays.pure hs hacc
  | true =>
    refine Lays.advance hs fun ht hst => ?_
    refine (h.contractTerm ht).bind fun c u hu _ hc => h.contractTail hu ?_
    rw [List.reverse_cons, List.map_append]
    exact (hacc.passed hst).next ht hc

theorem contractTerm_succ (h : LaysContractAt source n) (hs : s.Laid source) :
    Lays source s (fun c t => Row source s.span.start t.lastStop [.contract c])
      (Parse.contractTerm (n + 1)) := by
  refine Lays.atSymbol .lparen fun nested => ?_
  cases nested with
  | true =>
    refine Lays.advance hs fun ht hst => ?_
    refine (h.contract ht).bind fun inner u hu _ hinner => ?_
    refine (Lays.expect hu .rparen).bind fun _ v hv huv _ => Lays.pure hv ?_
    exact (hinner.sooner hst).passed huv
  | false =>
    refine ((laysAt source n).expression 0 hs).bind fun e t ht _ he => Lays.pure ht ?_
    exact he.same rfl rfl

end LaysContractAt

theorem laysContractAt (source : String) (n : Nat) : LaysContractAt source n := by
  induction n with
  | zero => exact ⟨Lays.outOfSteps, fun hs _ => Lays.outOfSteps hs, Lays.outOfSteps⟩
  | succ n ih => exact ⟨ih.contract_succ, ih.contractTail_succ, ih.contractTerm_succ⟩

/-- The parts of a statement are a row, whichever span the statement gets. -/
theorem lays_bareStatement (n : Nat) (hs : s.Laid source) :
    Lays source s (fun stmt t => ∀ span, (stmt span).span = span ∧
      (Node.stmt (stmt span)).parts ≠ [] ∧
      Row source s.span.start t.lastStop (Node.stmt (stmt span)).parts) (bareStatement n) := by
  refine Lays.kind? ?_
  split
  · refine (Lays.expectKeyword hs .kwContract).bind fun _ t ht hst _ => ?_
    refine (Lays.identifier ht).bind fun name u hu _ hname => ?_
    refine (Lays.expect hu .eq).bind fun _ v hv huv _ => ?_
    refine ((laysContractAt source n).contract hv).bind fun c w hw _ hc => ?_
    have hrow := ((hname.sooner hst).passed huv).next hv hc
    exact Lays.pure hw fun span => ⟨rfl, List.cons_ne_nil _ _, hrow⟩
  · refine Lays.start (((laysAt source n).binding hs).bind fun b t ht _ hb => ?_)
    refine Lays.atKeyword .kwIn fun isLocal => ?_
    cases isLocal with
    | false => exact Lays.pure ht fun span => ⟨rfl, List.cons_ne_nil _ _, hb⟩
    | true =>
      refine ((laysAt source n).localLet ht hs.span_within.start_valid hb).bind ?_
      exact fun e u hu _ he => Lays.pure hu fun span => ⟨rfl, List.cons_ne_nil _ _, he⟩
  · refine ((laysAt source n).sequence hs).bind fun e t ht _ he => ?_
    exact Lays.pure ht fun span => ⟨rfl, List.cons_ne_nil _ _, he⟩

/-- A statement that is parsed stands where it should. -/
theorem lays_statement (n : Nat) (hs : s.Laid source) :
    Lays source s (fun stmt t => Row source s.span.start t.lastStop [.stmt stmt])
      (statement n) := by
  refine Lays.start ((lays_bareStatement n hs).bind fun stmt t ht _ hstmt => Lays.kind? ?_)
  -- The span of a statement takes in the terminator, if there is one.
  have hdone : ∀ {u}, u.Laid source → t.Precedes u →
      Row source s.span.start u.lastStop [.stmt (stmt ⟨s.span.start, u.lastStop⟩)] := by
    intro u hu htu
    obtain ⟨hspan, hne, hrow⟩ := hstmt ⟨s.span.start, u.lastStop⟩
    exact (hrow.passed htu).node hne hs.span_within.start_valid hu.valid hspan
  split
  · refine (Lays.expect ht .semiSemi).bind fun _ u hu htu _ => ?_
    exact Lays.spanFrom (Lays.pure hu (hdone hu htu))
  · exact Lays.spanFrom (Lays.pure ht (hdone ht (.refl t)))

end Parse

/-! ### Programs -/

/-- A program whose nodes stand where they should: each statement stands after the one before it,
inside the program. -/
structure Program.Laid (source : String) (p : Program) : Prop where
  within : p.span.Within source
  placed : ∀ stmt ∈ p.body, ∀ n, (Node.stmt stmt).Contains n → n.Placed source
  inside : ∀ stmt ∈ p.body, stmt.span.Inside p.span
  ordered : p.body.Pairwise fun a b => a.span.stop ≤ b.span.start

/-- A program whose nodes stand where they should, and syntax errors at places of the text. -/
structure Reading.Laid (source : String) (r : Reading) : Prop where
  program : r.program.Laid source
  errors : ∀ e ∈ r.errors, e.span.Within source

namespace Program

variable {source : String} {start : Nat} {s t : Stream} {body : List Stmt}
  {errors : List SyntaxError}

theorem laid_of_row {lo hi : Nat} (h : Row source lo hi (body.map .stmt))
    (hwithin : (Span.mk lo hi).Within source) : (Program.mk body ⟨lo, hi⟩).Laid source where
  within := hwithin
  placed stmt hstmt := h.laid (.stmt stmt) (List.mem_map_of_mem hstmt)
  inside stmt hstmt :=
    ⟨h.low (.stmt stmt) (List.mem_map_of_mem hstmt),
      h.high (.stmt stmt) (List.mem_map_of_mem hstmt)⟩
  ordered := List.pairwise_map.mp h.ordered

/-- Wherever the reader stops, the program ends with the token at hand. -/
theorem laid_stop (hstart : String.Pos.Raw.IsValid source ⟨start⟩)
    (hbody : Row source start s.span.start (body.reverse.map .stmt)) (ht : t.Laid source)
    (hst : s.Precedes t) (herrors : ∀ e ∈ errors, e.span.Within source) :
    Reading.Laid source ⟨⟨body.reverse, ⟨start, t.span.stop⟩⟩, errors.reverse⟩ := by
  have hrow := hbody.mono le_rfl (hst.start_le.trans ht.span_within.start_le)
  have hwithin : (Span.mk start t.span.stop).Within source :=
    Span.within_of_valid hrow.le hstart ht.span_within.stop_valid
  exact ⟨laid_of_row hrow hwithin, fun e he => herrors e (List.mem_reverse.mp he)⟩

theorem laid_readFrom (recovering : Bool) (steps : Nat)
    (hstart : String.Pos.Raw.IsValid source ⟨start⟩) (fuel : Nat) (hs : s.Laid source)
    (hbody : Row source start s.span.start (body.reverse.map .stmt))
    (herrors : ∀ e ∈ errors, e.span.Within source) :
    (readFrom recovering steps start fuel s body errors).Laid source := by
  induction fuel generalizing s body errors with
  | zero => exact laid_stop hstart hbody hs (.refl s) herrors
  | succ fuel ih =>
    have hstatement := Parse.lays_statement steps hs
    unfold Parse.Lays at hstatement
    rw [readFrom]
    split
    · exact laid_stop hstart hbody hs (.refl s) herrors
    · cases hrun : Parse.statement steps s with
      | ok stmt next =>
        rw [hrun] at hstatement
        obtain ⟨hnext, -, hstmt⟩ := hstatement
        refine ih hnext ?_ herrors
        rw [List.reverse_cons, List.map_append]
        exact hbody.append (hstmt.mono le_rfl hnext.lastStop_le)
      | error e stuck =>
        rw [hrun] at hstatement
        obtain ⟨hstuck, hle, he⟩ := hstatement
        -- What is skipped after an error only lets the next statement begin later.
        have hall : ∀ e' ∈ e :: errors, e'.span.Within source :=
          List.forall_mem_cons.mpr ⟨he, herrors⟩
        dsimp only
        split
        · have hskip := hstuck.skipStatement
          exact ih hskip.1 (hbody.mono le_rfl (hle.trans hskip.2).start_le) hall
        · exact laid_stop hstart hbody hstuck hle hall

theorem laid_read (recovering : Bool) (source : String) : (read recovering source).Laid source :=
  have hs := Stream.laid_ofTokens source
  laid_readFrom recovering _ hs.span_within.start_valid _ hs (.nil le_rfl) (by simp)

/-- **The spans of a program are well-formed and nested**, whether it is read recovering from errors
or strictly. Every node takes some characters of the source text, from one boundary between
characters to another; its parts stand inside it, one after the other; a name is what the text says
there. The statements stand one after the other, inside the program. The syntax errors are at places
of the text, too. -/
theorem spans_nested (source : String) :
    (recover source).program.Laid source ∧
      (∀ p, parse source = .ok p → p.Laid source) ∧
      (∀ e ∈ (recover source).errors, e.span.Within source) ∧
      ∀ e, parse source = .error e → e.span.Within source := by
  have hstrict := laid_read false source
  refine ⟨(laid_read true source).program, ?_, (laid_read true source).errors, ?_⟩
  · intro p hp
    simp only [parse] at hp
    split at hp
    next => exact Except.ok.inj hp ▸ hstrict.program
    next => cases hp
  · intro e he
    simp only [parse] at he
    split at he
    next => cases he
    next e' es herrors =>
      cases he
      exact hstrict.errors e (herrors ▸ List.mem_cons_self)

/-- Characters of several bytes, parentheses, and a function that is written as a binding with a
parameter; then a text in which the last character begins no token. -/
theorem spans_nested_multibyte :
    let source := "(* é *) let f x = (x ^ \"ü\");; (f) \"\""
    let wrong := "\"ü\" é"
    (∃ p, parse source = .ok p ∧ p.body.map Stmt.span = [⟨9, 31⟩, ⟨32, 38⟩] ∧ p.Laid source) ∧
      ∃ e, parse wrong = .error e ∧ e.message = "unexpected character `é`" ∧
        e.span.Within wrong := by
  intro source wrong
  have hok : parse source = .ok (read false source).program := by
    have herrors : (read false source).errors = [] := List.isEmpty_iff.mp (by decide +kernel)
    simp only [parse, herrors]
  have hmessage : (read false wrong).errors.map SyntaxError.message =
      ["unexpected character `é`"] := by decide +kernel
  obtain ⟨e, herrors, he⟩ := List.map_eq_singleton_iff.mp hmessage
  have herror : parse wrong = .error e := by simp only [parse, herrors]
  refine ⟨⟨_, hok, by decide +kernel, (spans_nested source).2.1 _ hok⟩, ?_⟩
  exact ⟨e, herror, he, (spans_nested wrong).2.2.2 e herror⟩

end Program

end ContractML
