import ContractML.Proofs.Acceptance

/-!
# Reading what was written

The written form of an expression is read back as the expression, up to positions, on a fragment of
the language: literals that are written as they are read, and operators, choices and bindings where
the written form leaves no doubt what belongs to them. Functions, calls, sequences and operators
between operands are written in parentheses and can stand anywhere. An operator before its operand
is written without, so it must not stand where an atom is expected. A choice or a binding goes on as
far as it can, so it must be followed by a token that ends it.

The proof has two layers. The written form consists of the tokens `Expr.kinds`, whatever token may
follow; and the parser reads these tokens as the expression, whatever follows that does not belong
to it.

## Main definitions

* `Expr.Readable` — the fragment, and what may stand where.
* `Expr.kinds` — the tokens of the written form.
* `Expr.ReadAt` — the parser reads these tokens as the expression.

## Main results

* `Expr.Readable.spells` — the written form consists of these tokens.
* `Expr.Readable.readAt` — the parser reads them back.
* `Expr.Readable.parse_render` — **the written form is read back as the expression**.
-/

namespace ContractML

/-! ### The fragment -/

/-- Where an expression stands. -/
inductive Slot where
  /-- Where it is followed by a token that ends every expression, or by the end of the text. -/
  | free
  /-- Where no argument can follow it. -/
  | operand
  /-- Where it is applied, or is an argument. -/
  | argument
  deriving DecidableEq

/-- A literal that is written as it is read: no number with a sign or a point, and no character that
is written by its code point. -/
def Literal.isReadable : Literal → Bool
  | .int n => decide (0 ≤ n.toInt)
  | .float _ => false
  | .bool _ => true
  | .char c => Text.isLegible c
  | .str s => s.toList.all Text.isLegible

/-- The fragment of expressions that are read back from their written form. -/
inductive Expr.Readable : Slot → Expr → Prop
  | lit {p : Slot} {v : Literal} {s : Span} (hv : v.isReadable = true) : Readable p (.lit v s)
  | var {p : Slot} {x : Ident} (hx : isName x.text = true) : Readable p (.var x)
  | unary {p : Slot} {op : UnaryOp} {e : Expr} {s : Span} (hp : p ≠ .argument)
      (he : Readable .operand e) : Readable p (.unary op e s)
  | binary {p : Slot} {op : BinaryOp} {l r : Expr} {s : Span} (hl : Readable .operand l)
      (hr : Readable .operand r) : Readable p (.binary op l r s)
  | logical {p : Slot} {op : LogicalOp} {l r : Expr} {s : Span} (hl : Readable .operand l)
      (hr : Readable .operand r) : Readable p (.logical op l r s)
  | cond {c t e : Expr} {s : Span} (hc : Readable .free c) (ht : Readable .free t)
      (he : Readable .free e) : Readable .free (.cond c t e s)
  | lambda {p : Slot} {ps : List Ident} {b : Expr} {s : Span} (hne : ps ≠ [])
      (hps : ∀ x ∈ ps, isName x.text = true) (hb : Readable .free b) : Readable p (.lambda ps b s)
  | call {p : Slot} {f : Expr} {args : List Expr} {s : Span} (hf : Readable .argument f)
      (hne : args ≠ []) (hargs : ∀ a ∈ args, Readable .argument a) : Readable p (.call f args s)
  | letIn {x : Ident} {v b : Expr} {s : Span} (hx : isName x.text = true) (hv : Readable .free v)
      (hb : Readable .free b) : Readable .free (.letIn x v b s)
  | seq {p : Slot} {es : List Expr} {s : Span} (hlen : 2 ≤ es.length)
      (hes : ∀ e ∈ es, Readable .operand e) : Readable p (.seq es s)

/-! ### The tokens of the written form -/

mutual

/-- The tokens of the written form of an expression. -/
def Expr.kinds : Expr → List TokenKind
  | .lit v _ => [v.kind]
  | .var x => [.ident x.text]
  | .unary op e _ => op.kind :: e.kinds
  | .binary op l r _ => .symbol .lparen ::
      (l.kinds ++ (Operator.binary op).kind :: (r.kinds ++ [.symbol .rparen]))
  | .logical op l r _ => .symbol .lparen ::
      (l.kinds ++ (Operator.logical op).kind :: (r.kinds ++ [.symbol .rparen]))
  | .cond c t e _ => .keyword .kwIf ::
      (c.kinds ++ .keyword .kwThen :: (t.kinds ++ .keyword .kwElse :: e.kinds))
  | .lambda ps b _ => .symbol .lparen :: .keyword .kwFun ::
      (ps.map (.ident ·.text) ++ .symbol .arrow :: (b.kinds ++ [.symbol .rparen]))
  | .call f args _ => .symbol .lparen :: (f.kinds ++ (Expr.argumentKinds args ++ [.symbol .rparen]))
  | .letIn x v b _ => .keyword .kwLet :: .ident x.text :: .symbol .eq ::
      (v.kinds ++ .keyword .kwIn :: b.kinds)
  | .seq es _ => .symbol .lparen :: (Expr.itemKinds es ++ [.symbol .rparen])
  | .monitored e _ _ _ => e.kinds

/-- The tokens of the arguments of a call. -/
def Expr.argumentKinds : List Expr → List TokenKind
  | [] => []
  | e :: es => e.kinds ++ Expr.argumentKinds es

/-- The tokens of the items of a sequence. -/
def Expr.itemKinds : List Expr → List TokenKind
  | [] => []
  | [e] => e.kinds
  | e :: es => e.kinds ++ .symbol .semi :: Expr.itemKinds es

end

/-! ### Characters between tokens -/

/-- The characters that the written form puts after an expression. -/
def isBreak (c : Char) : Bool := c == ' ' || c == ')' || c == ';'

/-- They make no word or number longer. -/
theorem isBreak_cases {c : Char} (h : isBreak c = true) :
    continuesWord c = false ∧ c.isDigit = false ∧ c ≠ '_' ∧ c ≠ '.' := by
  simp only [isBreak, Bool.or_eq_true, beq_iff_eq] at h
  rcases h with (rfl | rfl) | rfl <;> decide

/-- A character that may follow an opening parenthesis and a minus sign: it opens no comment and
makes no other symbol of them. -/
def opensExpr (c : Char) : Bool := Symbol.breaks .lparen c && Symbol.breaks .minus c

theorem opensExpr_of_ne {c : Char} (hstar : c ≠ '*') (harrow : c ≠ '>') (hpoint : c ≠ '.') :
    opensExpr c = true := by
  have hlparen : Symbol.ofTwo? '(' c = none := by
    unfold Symbol.ofTwo?
    split <;> simp_all
  have hminus : Symbol.ofTwo? '-' c = none := by
    unfold Symbol.ofTwo?
    split <;> simp_all
  simp [opensExpr, Symbol.breaks, Symbol.spelling, hlparen, hminus, hstar]

theorem opensExpr_of_alphanum {c : Char} (h : c.isAlphanum = true ∨ c = '_') :
    opensExpr c = true := by
  refine opensExpr_of_ne ?_ ?_ ?_ <;> rintro rfl <;> revert h <;> decide

theorem Spells.rparen {w : List Char} {ks : List TokenKind} (h : Spells w ks) :
    Spells (')' :: w) (.symbol .rparen :: ks) := by
  refine h.symbol .rparen fun d _ => ?_
  have htwo : Symbol.ofTwo? ')' d = none := by
    unfold Symbol.ofTwo?
    split <;> simp_all
  simp [Symbol.breaks, Symbol.spelling, htwo]

theorem Spells.lparen {w : List Char} {ks : List TokenKind}
    (hw : ∀ d ∈ w.head?, opensExpr d = true) (h : Spells w ks) :
    Spells ('(' :: w) (.symbol .lparen :: ks) :=
  h.symbol .lparen fun d hd => (Bool.and_eq_true_iff.mp (hw d hd)).1

/-! ### The written form consists of its tokens -/

/-- The written form consists of the tokens, if a break or the end of the text follows. -/
structure Expr.Spelled (e : Expr) : Prop where
  opens : ∀ (w : List Char), ∀ c ∈ (e.render.toList ++ w).head?, opensExpr c = true
  spells : ∀ (w : List Char) (ks : List TokenKind), (∀ c ∈ w.head?, isBreak c = true) →
    Spells w ks → Spells (e.render.toList ++ w) (e.kinds ++ ks)

theorem Literal.opens {v : Literal} (hv : v.isReadable = true) (w : List Char) :
    ∀ c ∈ (v.render.toList ++ w).head?, opensExpr c = true := by
  cases v with
  | int n =>
    have hn : 0 ≤ n.toInt := of_decide_eq_true hv
    rw [Literal.render, Int64.toList_toString hn]
    -- A number is written with digits, of which there is at least one.
    cases hdigits : Nat.toDigits 10 n.toInt.toNat with
    | nil => exact absurd hdigits Nat.toDigits_ne_nil
    | cons d u =>
      rintro c ⟨⟩
      have hd : d.isDigit = true :=
        Nat.isDigit_of_mem_toDigits (by decide) (by decide) (hdigits ▸ List.mem_cons_self)
      exact opensExpr_of_alphanum (.inl (by simp [Char.isAlphanum, hd]))
  | float x => cases hv
  | bool b =>
    cases b with
    | true => rintro c ⟨⟩; rfl
    | false => rintro c ⟨⟩; rfl
  | char c =>
    rw [Literal.render, Text.quoteChar, String.toList_ofList]
    rintro d ⟨⟩
    rfl
  | str s =>
    rw [Literal.render, Text.quoteString, String.toList_ofList]
    rintro d ⟨⟩
    rfl

theorem Literal.spells {v : Literal} (hv : v.isReadable = true) {w : List Char}
    {ks : List TokenKind} (hw : ∀ c ∈ w.head?, isBreak c = true) (h : Spells w ks) :
    Spells (v.render.toList ++ w) (v.kind :: ks) := by
  cases v with
  | int n => exact h.int (of_decide_eq_true hv) fun c hc => (isBreak_cases (hw c hc)).2
  | float x => cases hv
  | bool b =>
    cases b with
    | true => exact h.keyword .kwTrue fun c hc => (isBreak_cases (hw c hc)).1
    | false => exact h.keyword .kwFalse fun c hc => (isBreak_cases (hw c hc)).1
  | char c => exact h.char hv
  | str s => exact h.str (List.all_eq_true.mp hv)

theorem isBreak_space {cs : List Char} : ∀ c ∈ (' ' :: cs).head?, isBreak c = true := by
  rintro c ⟨⟩
  rfl

theorem isBreak_rparen {cs : List Char} : ∀ c ∈ (')' :: cs).head?, isBreak c = true := by
  rintro c ⟨⟩
  rfl

namespace Expr

/-- An operator between two operands. -/
theorem Spelled.operation {l r : Expr} (hl : l.Spelled) (hr : r.Spelled) (o : Operator)
    {w : List Char} {ks : List TokenKind} (h : Spells w ks) :
    Spells ('(' :: (l.render.toList ++
        ' ' :: (o.symbol.toList ++ ' ' :: (r.render.toList ++ ')' :: w))))
      (.symbol .lparen :: (l.kinds ++ o.kind :: (r.kinds ++ .symbol .rparen :: ks))) := by
  have hright := hr.spells _ _ isBreak_rparen h.rparen
  have hleft := hl.spells _ _ isBreak_space (o.writtenAs.space hright).space
  exact hleft.lparen (hl.opens _)

/-- The parameters of a function, each after a space. -/
theorem spells_params {ps : List Ident} (hps : ∀ x ∈ ps, isName x.text = true) {w : List Char}
    {ks : List TokenKind} (h : Spells (' ' :: w) ks) :
    Spells ((String.join (ps.map fun x => " " ++ x.text)).toList ++ ' ' :: w)
      (ps.map (.ident ·.text) ++ ks) := by
  induction ps with
  | nil => simpa using h
  | cons x ps ih =>
    rw [List.forall_mem_cons] at hps
    have hrest := ih hps.2
    have hword : ∀ c ∈ ((String.join (ps.map fun x => " " ++ x.text)).toList ++ ' ' :: w).head?,
        c = ' ' := by
      cases ps <;> simp
    have hname := writtenAs_of_isName hps.1 _ _ hword hrest
    simpa using hname.space

theorem isBreak_args (args : List Expr) (w : List Char) :
    ∀ c ∈ ((renderArgs args).toList ++ ')' :: w).head?, isBreak c = true := by
  cases args with
  | nil => exact isBreak_rparen
  | cons a args => simp [renderArgs, isBreak]

/-- The arguments of a call, each after a space. -/
theorem spells_args {args : List Expr} (hargs : ∀ a ∈ args, a.Spelled) {w : List Char}
    {ks : List TokenKind} (h : Spells (')' :: w) ks) :
    Spells ((renderArgs args).toList ++ ')' :: w) (argumentKinds args ++ ks) := by
  induction args with
  | nil => simpa [renderArgs, argumentKinds] using h
  | cons a args ih =>
    rw [List.forall_mem_cons] at hargs
    have hrest := ih hargs.2
    have harg := hargs.1.spells _ _ (isBreak_args args w) hrest
    simpa [renderArgs, argumentKinds] using harg.space

/-- The items of a sequence, with semicolons between them. -/
theorem spells_items {es : List Expr} (hes : ∀ e ∈ es, e.Spelled) {w : List Char}
    {ks : List TokenKind} (h : Spells (')' :: w) ks) :
    Spells ((renderItems es).toList ++ ')' :: w) (itemKinds es ++ ks) := by
  induction es with
  | nil => simpa [renderItems, itemKinds] using h
  | cons e es ih =>
    rw [List.forall_mem_cons] at hes
    cases es with
    | nil => exact hes.1.spells _ _ isBreak_rparen h
    | cons e' es =>
      have hsemi : Spells (';' :: ' ' :: ((renderItems (e' :: es)).toList ++ ')' :: w))
          (.symbol .semi :: (itemKinds (e' :: es) ++ ks)) := Symbol.semi.writtenAs.space (ih hes.2)
      have hitem := hes.1.spells _ _ (by rintro c ⟨⟩; rfl) hsemi
      simpa [renderItems, itemKinds] using hitem

/-- A sequence begins as its first item does. -/
theorem opens_items {es : List Expr} (hne : es ≠ [])
    (hes : ∀ e ∈ es, ∀ w, ∀ c ∈ (e.render.toList ++ w).head?, opensExpr c = true)
    (w : List Char) : ∀ c ∈ ((renderItems es).toList ++ w).head?, opensExpr c = true := by
  match es with
  | [] => exact absurd rfl hne
  | [e] => exact hes e List.mem_cons_self w
  | e :: e' :: es =>
    have hhead := hes e List.mem_cons_self (';' :: ' ' :: ((renderItems (e' :: es)).toList ++ w))
    simpa [renderItems] using hhead

/-- The first character of the written form makes nothing else of a parenthesis or a minus sign
before it. -/
theorem Readable.opens {p : Slot} {e : Expr} (h : e.Readable p) (w : List Char) :
    ∀ c ∈ (e.render.toList ++ w).head?, opensExpr c = true := by
  have hlparen : opensExpr '(' = true := by decide
  cases h with
  | lit hv => exact Literal.opens hv w
  | @var _ x hx =>
    rw [render]
    -- A name begins with a letter or an underscore.
    have hword := (Bool.and_eq_true_iff.mp hx).1
    cases hx : x.text.toList with
    | nil =>
      rw [hx] at hword
      cases hword
    | cons d u =>
      rintro c ⟨⟩
      have hd : beginsWord d = true := by
        rw [hx, isWord, Bool.and_eq_true] at hword
        exact hword.1
      simp only [beginsWord, Bool.or_eq_true, beq_iff_eq] at hd
      exact opensExpr_of_alphanum (hd.imp_left fun hd => by simp [Char.isAlphanum, hd])
  | @unary _ op e s hp he =>
    cases op with
    | neg =>
      simp only [render, UnaryOp.lead, String.toList_append]
      rintro c ⟨⟩
      decide
    | not =>
      simp only [render, UnaryOp.lead, String.toList_append]
      rintro c ⟨⟩
      decide
  | cond | letIn =>
    simp only [render, String.toList_append]
    rintro c ⟨⟩
    decide
  | binary | logical | lambda | call | seq => simp [render, hlparen]

/-- **The written form consists of its tokens.** -/
theorem Readable.spelled {p : Slot} {e : Expr} (h : e.Readable p) : e.Spelled := by
  refine ⟨h.opens, ?_⟩
  -- the text is put together from its end, each piece in front of what is known to be read
  induction h with
  | lit hv => exact fun w ks hw h => Literal.spells hv hw h
  | var hx => exact fun w ks hw h => h.name hx fun c hc => (isBreak_cases (hw c hc)).1
  | @unary p op e s hp he ih =>
    intro w ks hw h
    have hrest := ih w ks hw h
    cases op with
    | neg =>
      have hminus : Spells ('-' :: (e.render.toList ++ w)) (.symbol .minus :: (e.kinds ++ ks)) :=
        hrest.symbol .minus fun c hc => (Bool.and_eq_true_iff.mp (he.opens w c hc)).2
      simpa [render, kinds, UnaryOp.lead, UnaryOp.kind] using hminus
    | not =>
      have hnot := Keyword.kwNot.writtenAs.space hrest
      simpa [render, kinds, UnaryOp.lead, UnaryOp.kind, Keyword.spelling] using hnot
  | @binary p op l r s hl hr ihl ihr =>
    intro w ks hw h
    have hnode := Spelled.operation ⟨hl.opens, ihl⟩ ⟨hr.opens, ihr⟩ (.binary op) h
    simpa [render, kinds, Operator.symbol] using hnode
  | @logical p op l r s hl hr ihl ihr =>
    intro w ks hw h
    have hnode := Spelled.operation ⟨hl.opens, ihl⟩ ⟨hr.opens, ihr⟩ (.logical op) h
    simpa [render, kinds, Operator.symbol] using hnode
  | cond hc ht he ihc iht ihe =>
    intro w ks hw h
    have helse := Keyword.kwElse.writtenAs.space (ihe w ks hw h)
    have hthen := Keyword.kwThen.writtenAs.space (iht _ _ isBreak_space helse.space)
    have hif := Keyword.kwIf.writtenAs.space (ihc _ _ isBreak_space hthen.space)
    simpa [render, kinds, Keyword.spelling] using hif
  | @lambda p ps b s hne hps hb ih =>
    intro w ks hw h
    have hbody := Symbol.arrow.writtenAs.space (ih _ _ isBreak_rparen h.rparen)
    have hparams := spells_params hps hbody.space
    have hfun := hparams.keyword .kwFun (by cases ps <;> simp [continuesWord])
    have hopen := hfun.lparen (by simp [Keyword.spelling]; decide)
    simpa [render, kinds, Keyword.spelling, Symbol.spelling] using hopen
  | @call p f args s hf hne hargs ihf ihargs =>
    intro w ks hw h
    have hrest := spells_args (fun a ha => ⟨(hargs a ha).opens, ihargs a ha⟩) h.rparen
    have hcall := (ihf _ _ (isBreak_args args w) hrest).lparen (hf.opens _)
    simpa [render, kinds] using hcall
  | @letIn x v b s hx hv hb ihv ihb =>
    intro w ks hw h
    have hin := Keyword.kwIn.writtenAs.space (ihb w ks hw h)
    have hvalue := Symbol.eq.writtenAs.space (ihv _ _ isBreak_space hin.space)
    have hlet := Keyword.kwLet.writtenAs.space ((writtenAs_of_isName hx).space hvalue)
    simpa [render, kinds, Keyword.spelling, Symbol.spelling] using hlet
  | @seq p es s hlen hes ih =>
    intro w ks hw h
    have hitems := spells_items (fun e he => ⟨(hes e he).opens, ih e he⟩) h.rparen
    have hopens : ∀ c ∈ ((renderItems es).toList ++ ')' :: w).head?, opensExpr c = true := by
      refine opens_items ?_ (fun e he => (hes e he).opens) _
      rintro rfl
      cases hlen
    have hseq := hitems.lparen hopens
    simpa [render, kinds] using hseq

end Expr

/-! ### The parser reads the tokens back -/

/-- A token that ends every expression. -/
def TokenKind.isClosing : TokenKind → Bool
  | .symbol .rparen | .keyword .kwThen | .keyword .kwElse | .keyword .kwIn => true
  | _ => false

/-- It begins no atom and is no operator. -/
theorem TokenKind.isClosing_cases {k : TokenKind} (h : k.isClosing = true) :
    k.startsAtom = false ∧ Operator.ofKind? k = none ∧ k ≠ .symbol .semi := by
  unfold isClosing at h
  split at h
  · exact ⟨rfl, rfl, by simp⟩
  · exact ⟨rfl, rfl, by simp⟩
  · exact ⟨rfl, rfl, by simp⟩
  · exact ⟨rfl, rfl, by simp⟩
  · cases h

theorem isClosing_cons (k : TokenKind) (h : k.isClosing = true) (ms : List TokenKind) :
    ∀ k' ∈ (k :: ms).head?, k'.isClosing = true := by
  rintro k' ⟨⟩
  exact h

/-- What may follow an expression. -/
def Slot.Ends : Slot → List TokenKind → Prop
  | .free, ms => ∀ k ∈ ms.head?, k.isClosing = true
  | _, ms => ∀ k ∈ ms.head?, k.startsAtom = false

theorem Slot.Ends.startsAtom {p : Slot} {ms : List TokenKind} (h : p.Ends ms) :
    ∀ k ∈ ms.head?, k.startsAtom = false := by
  cases p with
  | free => exact fun k hk => (TokenKind.isClosing_cases (h k hk)).1
  | operand => exact h
  | argument => exact h

/-- Where a closing token follows, everything may stand. -/
theorem Slot.ends_of_isClosing {ms : List TokenKind} (h : ∀ k ∈ ms.head?, k.isClosing = true)
    (p : Slot) : p.Ends ms := by
  cases p with
  | free => exact h
  | operand => exact fun k hk => (TokenKind.isClosing_cases (h k hk)).1
  | argument => exact fun k hk => (TokenKind.isClosing_cases (h k hk)).1

namespace Expr

open Parse

/-- The parser reads the tokens of the expression back, whatever follows that may follow it. -/
structure ReadAt (p : Slot) (e : Expr) : Prop where
  operand : ∀ ms, p.Ends ms → Accepts Parse.operand (e.kinds ++ ms) e.bare ms
  atom : p = .argument → ∀ ms, Accepts Parse.atom (e.kinds ++ ms) e.bare ms
  head : p = .argument → ∃ k ks, e.kinds = k :: ks ∧ k.startsAtom = true

namespace ReadAt

variable {p : Slot} {e : Expr} {ms : List TokenKind}

/-- An atom can stand anywhere. -/
theorem of_atom (hhead : ∃ k ks, e.kinds = k :: ks ∧ k.startsAtom = true)
    (h : ∀ ms, Accepts Parse.atom (e.kinds ++ ms) e.bare ms) : e.ReadAt p := by
  refine ⟨fun ms hms => ?_, fun _ => h, fun _ => hhead⟩
  have happ := (h ms).application_one hms.startsAtom
  obtain ⟨k, ks, hkinds, hk⟩ := hhead
  rw [hkinds] at happ ⊢
  exact Accepts.operand_application hk happ

theorem expression (h : e.ReadAt p) (hms : p.Ends ms) {level : Nat}
    (hlevel : ∀ o ∈ ms.head?.bind Operator.ofKind?, o.level < level) :
    Accepts (Parse.expression · level) (e.kinds ++ ms) e.bare ms :=
  (h.operand ms hms).expression (Accepts.operators_stop hlevel)

theorem expression_of_isClosing (h : e.ReadAt p) (hms : ∀ k ∈ ms.head?, k.isClosing = true)
    (level : Nat) : Accepts (Parse.expression · level) (e.kinds ++ ms) e.bare ms := by
  refine h.expression (Slot.ends_of_isClosing hms p) fun o ho => ?_
  obtain ⟨k, hk, ho⟩ := Option.bind_eq_some_iff.mp ho
  rw [(TokenKind.isClosing_cases (hms k hk)).2.1] at ho
  cases ho

theorem sequence (h : e.ReadAt p) (hms : ∀ k ∈ ms.head?, k.isClosing = true) :
    Accepts Parse.sequence (e.kinds ++ ms) e.bare ms :=
  (h.expression_of_isClosing hms 0).sequence_one fun hk =>
    (TokenKind.isClosing_cases (hms _ hk)).2.2 rfl

end ReadAt

theorem bare_call (f : Expr) (args : List Expr) (s : Span) :
    (Expr.call f args s).bare = .call f.bare (args.map bare) .nowhere := by
  rw [bare, move, moveAll_eq_map]
  rfl

theorem bare_seq (es : List Expr) (s : Span) :
    (Expr.seq es s).bare = .seq (es.map bare) .nowhere := by
  rw [bare, move, moveAll_eq_map]
  rfl

/-- An operand in parentheses is an atom. -/
theorem accepts_parentheses {e : Expr} {ks ms : List TokenKind}
    (h : Accepts Parse.operand ks e (.symbol .rparen :: ms)) :
    Accepts Parse.atom (.symbol .lparen :: ks) e ms := by
  have hexpr : Accepts (Parse.expression · 0) ks e (.symbol .rparen :: ms) :=
    h.expression (Accepts.operators_stop (by simp [Operator.ofKind?, Operator.ofSymbol?]))
  exact (hexpr.sequence_one (by simp)).parentheses

/-- An operator between two operands. -/
theorem ReadAt.operation {l r : Expr} (hl : l.ReadAt .operand) (hr : r.ReadAt .operand)
    (o : Operator) (ms : List TokenKind) :
    Accepts Parse.atom
      (.symbol .lparen :: (l.kinds ++ o.kind :: (r.kinds ++ .symbol .rparen :: ms)))
      (o.apply l r).bare ms := by
  have hnext : Slot.Ends .operand (o.kind :: (r.kinds ++ .symbol .rparen :: ms)) := by
    rintro k ⟨⟩
    exact o.startsAtom_kind
  -- The left operand is read, then the operator takes the right one as far as the parenthesis.
  have hleft := hl.operand _ hnext
  have hright := hr.expression_of_isClosing (isClosing_cons (.symbol .rparen) rfl ms) o.rightLevel
  have hstop : Accepts (operators · (o.apply l.bare r.bare) 0) (.symbol .rparen :: ms)
      (o.apply l.bare r.bare) (.symbol .rparen :: ms) :=
    Accepts.operators_stop (by simp [Operator.ofKind?, Operator.ofSymbol?])
  have hexpr := hleft.expression
    (Accepts.operators_step o.ofKind?_kind (Nat.zero_le _) hright hstop)
  have hbare : (o.apply l r).bare = o.apply l.bare r.bare := o.apply_move monotone_const l r
  rw [hbare]
  exact (hexpr.sequence_one (by simp)).parentheses

/-- The arguments of a call. -/
theorem accepts_arguments {args : List Expr} (hargs : ∀ a ∈ args, a.ReadAt .argument)
    {ms : List TokenKind} (hms : ∀ k ∈ ms.head?, k.startsAtom = false) (acc : List Expr) :
    Accepts (arguments · acc) (argumentKinds args ++ ms) (acc.reverse ++ args.map bare) ms := by
  induction args generalizing acc with
  | nil => simpa [argumentKinds] using Accepts.arguments_nil acc hms
  | cons a args ih =>
    rw [List.forall_mem_cons] at hargs
    have hatom := hargs.1.atom rfl (argumentKinds args ++ ms)
    have hrest := ih hargs.2 (a.bare :: acc)
    obtain ⟨k, ks, hkinds, hk⟩ := hargs.1.head rfl
    rw [hkinds] at hatom
    have hcons := hatom.arguments_cons hk hrest
    simpa [argumentKinds, hkinds] using hcons

theorem itemKinds_cons (e : Expr) (es : List Expr) :
    itemKinds (e :: es) = e.kinds ++ es.flatMap fun e => .symbol .semi :: e.kinds := by
  induction es generalizing e with
  | nil => simp [itemKinds]
  | cons e' es ih => simp [itemKinds, ih]

/-- What follows an item of a sequence. -/
theorem head_items (es : List Expr) (ms : List TokenKind) :
    ∀ k ∈ (es.flatMap (fun e => .symbol .semi :: e.kinds) ++ .symbol .rparen :: ms).head?,
      k = .symbol .semi ∨ k = .symbol .rparen := by
  cases es <;> simp

/-- An item of a sequence is read up to the next one. -/
theorem ReadAt.item {e : Expr} (h : e.ReadAt .operand) (es : List Expr) (ms : List TokenKind) :
    Accepts (Parse.expression · 0)
      (e.kinds ++ (es.flatMap (fun e => .symbol .semi :: e.kinds) ++ .symbol .rparen :: ms)) e.bare
      (es.flatMap (fun e => .symbol .semi :: e.kinds) ++ .symbol .rparen :: ms) := by
  refine h.expression ?_ ?_
  · intro k hk
    rcases head_items es ms k hk with rfl | rfl <;> rfl
  · intro o ho
    obtain ⟨k, hk, ho⟩ := Option.bind_eq_some_iff.mp ho
    rcases head_items es ms k hk with rfl | rfl <;> cases ho

/-- The further items of a sequence. -/
theorem accepts_items {es : List Expr} (hes : ∀ e ∈ es, e.ReadAt .operand) (ms : List TokenKind)
    (acc : List Expr) :
    Accepts (sequenceTail · acc)
      (es.flatMap (fun e => .symbol .semi :: e.kinds) ++ .symbol .rparen :: ms)
      (acc.reverse ++ es.map bare) (.symbol .rparen :: ms) := by
  induction es generalizing acc with
  | nil => simpa using Accepts.sequenceTail_nil acc (by simp)
  | cons e es ih =>
    rw [List.forall_mem_cons] at hes
    have hrest := ih hes.2 (e.bare :: acc)
    have hcons := (hes.1.item es ms).sequenceTail_cons hrest
    simpa using hcons

/-- **The parser reads the tokens back.** -/
theorem Readable.readAt {p : Slot} {e : Expr} (h : e.Readable p) : e.ReadAt p := by
  induction h with
  | @lit p v s hv =>
    refine .of_atom ⟨v.kind, [], rfl, ?_⟩ (Accepts.literal v)
    cases v with
    | bool b => cases b <;> rfl
    | _ => rfl
  | @var p x hx => exact .of_atom ⟨_, _, rfl, rfl⟩ (Accepts.name x.text)
  | @unary p op e s hp he ih =>
    -- Signs are not in parentheses, so a sign is not an argument. Its operand ends before every
    -- operator, since none binds as tightly.
    refine ⟨fun ms hms => ?_, fun h => absurd h hp, fun h => absurd h hp⟩
    exact Accepts.operand_unary (ih.expression hms.startsAtom fun o _ => o.level_lt_unaryLevel)
  | @binary p op l r s hl hr ihl ihr =>
    refine .of_atom ⟨_, _, rfl, rfl⟩ fun ms => ?_
    simp only [kinds, List.cons_append, List.append_assoc, List.nil_append]
    exact ihl.operation ihr (.binary op) ms
  | @logical p op l r s hl hr ihl ihr =>
    refine .of_atom ⟨_, _, rfl, rfl⟩ fun ms => ?_
    simp only [kinds, List.cons_append, List.append_assoc, List.nil_append]
    exact ihl.operation ihr (.logical op) ms
  | @cond c t e s hc ht he ihc iht ihe =>
    refine ⟨fun ms hms => ?_, nofun, nofun⟩
    simp only [kinds, List.cons_append, List.append_assoc]
    -- Each part ends at the keyword after it, the last one where the whole ends.
    have htest := ihc.expression_of_isClosing (isClosing_cons (.keyword .kwThen) rfl
      (t.kinds ++ .keyword .kwElse :: (e.kinds ++ ms))) 0
    have hyes := iht.expression_of_isClosing (isClosing_cons (.keyword .kwElse) rfl
      (e.kinds ++ ms)) 0
    have hno := ihe.expression_of_isClosing hms 0
    exact htest.operand_conditional hyes hno
  | @lambda p ps b s hne hps hb ih =>
    refine .of_atom ⟨_, _, rfl, rfl⟩ fun ms => ?_
    have hbody := ih.sequence (isClosing_cons (.symbol .rparen) rfl ms)
    cases ps with
    | nil => exact absurd rfl hne
    | cons x xs =>
      have hbare : (Expr.lambda (x :: xs) b s).bare =
          .lambda ((x.text :: xs.map Ident.text).map (⟨·, .nowhere⟩)) b.bare .nowhere := by
        rw [← List.map_cons, List.map_map]
        rfl
      have hnames : xs.map (TokenKind.ident ·.text) = (xs.map Ident.text).map .ident := by
        rw [List.map_map]
        rfl
      simp only [kinds, List.map_cons, hnames, List.cons_append, List.append_assoc,
        List.nil_append]
      rw [hbare]
      exact accepts_parentheses (hbody.operand_lambda x.text (xs.map Ident.text))
  | @call p f args s hf hne hargs ihf ihargs =>
    refine .of_atom ⟨_, _, rfl, rfl⟩ fun ms => ?_
    simp only [kinds, bare_call, List.cons_append, List.append_assoc, List.nil_append]
    -- The callee is read as an atom, and its arguments go as far as the closing parenthesis.
    have hrparen : ∀ k ∈ (TokenKind.symbol .rparen :: ms).head?, k.startsAtom = false := by
      simp [TokenKind.startsAtom]
    have hrest := accepts_arguments ihargs hrparen []
    have hcall := (ihf.atom rfl _).application_call f.span_bare hrest (by simpa using hne)
    obtain ⟨k, ks, hkinds, hk⟩ := ihf.head rfl
    rw [hkinds, List.cons_append] at hcall ⊢
    exact accepts_parentheses (hcall.operand_application hk)
  | @letIn x v b s hx hv hb ihv ihb =>
    refine ⟨fun ms hms => ?_, nofun, nofun⟩
    simp only [kinds, List.cons_append, List.append_assoc]
    have hvalue := ihv.sequence (isClosing_cons (.keyword .kwIn) rfl (b.kinds ++ ms))
    exact hvalue.operand_let (ihb.sequence hms)
  | @seq p es s hlen hes ih =>
    refine .of_atom ⟨_, _, rfl, rfl⟩ fun ms => ?_
    cases es with
    | nil => simp at hlen
    | cons e es =>
      rw [List.forall_mem_cons] at ih
      simp only [kinds, itemKinds_cons, bare_seq, List.cons_append, List.append_assoc,
        List.nil_append]
      have hrest := accepts_items ih.2 ms []
      refine (Accepts.sequence_many (ih.1.item es ms) hrest ?_).parentheses
      cases es with
      | nil => simp at hlen
      | cons e' es => simp

/-! ### Statements -/

/-- How the written form begins: with no word that begins a declaration, if it is no binding. -/
theorem Readable.exists_head {p : Slot} {e : Expr} (h : e.Readable p) :
    ∃ k ks, e.kinds = k :: ks ∧ k ≠ .keyword .kwContract ∧
      (k = .keyword .kwLet → ∃ x v b s, e = .letIn x v b s) := by
  cases h with
  | @lit _ v s hv =>
    refine ⟨v.kind, [], rfl, ?_⟩
    cases v with
    | bool b => cases b <;> simp [Literal.kind]
    | _ => simp [Literal.kind]
  | @unary _ op e s hp he =>
    refine ⟨op.kind, e.kinds, rfl, ?_⟩
    cases op <;> simp [UnaryOp.kind]
  | letIn => exact ⟨_, _, rfl, by simp, fun _ => ⟨_, _, _, _, rfl⟩⟩
  | _ => exact ⟨_, _, rfl, by simp, by simp⟩

/-- The tokens form a statement. -/
theorem Readable.accepts {e : Expr} (h : e.Readable .free) :
    Accepts bareStatement e.kinds (.expr e.bare) [] := by
  have hend : ∀ k ∈ ([] : List TokenKind).head?, k.isClosing = true := by simp
  obtain ⟨k, ks, hkinds, hcontract, hlet⟩ := h.exists_head
  by_cases hk : k = .keyword .kwLet
  · obtain ⟨x, v, b, s, rfl⟩ := hlet hk
    -- a binding is read as a declaration, up to the word that makes it a local one
    cases h with
    | letIn hx hv hb =>
      have hvalue := hv.readAt.sequence (isClosing_cons (.keyword .kwIn) rfl b.kinds)
      have hbody := hb.readAt.sequence hend
      rw [List.append_nil] at hbody
      exact hvalue.statement_let hbody
  · have hsequence := h.readAt.sequence hend
    rw [List.append_nil, hkinds] at hsequence
    rw [hkinds]
    exact hsequence.statement_sequence (by simpa using hk) (by simpa using hcontract)

/-- **The written form is read back as the expression.** Let an expression of the fragment be
written, with whatever positions. The text is read without an error as exactly one statement, which
is an expression, and this expression is the one that was written, up to positions. -/
theorem Readable.parse_render {e : Expr} (h : e.Readable .free) :
    ∃ p, Program.parse e.render = .ok p ∧ ∃ e' span, p.body = [.expr e' span] ∧
      e'.bare = e.bare := by
  have hspells := h.spelled.spells [] [] (by simp) Spells.nil
  rw [List.append_nil, List.append_nil] at hspells
  obtain ⟨k, ks, hkinds, -⟩ := h.exists_head
  exact Program.parse_of_accepts hspells (by simp [hkinds]) h.accepts

/-- A binding whose value is a choice, of a function whose body is a binding, a call, and a sequence
of signs, characters that are escaped and operators. -/
theorem Readable.parse_render_nested :
    let x (text : String) : Ident := ⟨text, .nowhere⟩
    let v (text : String) : Expr := .var (x text)
    let one : Expr := .lit (.int 1) .nowhere
    let e : Expr := .letIn (x "f")
      (.cond (.unary .not (v "b") .nowhere)
        (.lambda [x "x", x "y'"] (.letIn (x "_z") (.unary .neg (.unary .neg one .nowhere) .nowhere)
          (.binary .pow (v "x") (.unary .neg (v "_z") .nowhere) .nowhere) .nowhere) .nowhere)
        (v "g") .nowhere)
      (.call (v "f") [.seq [.lit (.char '\'') .nowhere, .lit (.str "(* \"\n\\") .nowhere,
        .unary .neg (.logical .or (.lit (.bool true) .nowhere) one .nowhere) .nowhere] .nowhere,
        one] .nowhere) .nowhere
    e.Readable .free ∧
      ∃ p, Program.parse e.render = .ok p ∧ ∃ e' span, p.body = [.expr e' span] ∧
        e'.bare = e.bare := by
  intro x v one e
  have hone : ∀ p, one.Readable p := fun p => .lit (by decide)
  have hvar : ∀ p text, isName text = true → (v text).Readable p := fun p text h => .var h
  have hlambda : Readable .free (.lambda [x "x", x "y'"] (.letIn (x "_z")
      (.unary .neg (.unary .neg one .nowhere) .nowhere)
      (.binary .pow (v "x") (.unary .neg (v "_z") .nowhere) .nowhere) .nowhere) .nowhere) := by
    refine .lambda (by simp) (by decide) (.letIn (by decide) ?_ ?_)
    · exact .unary nofun (.unary nofun (hone _))
    · exact .binary (hvar _ _ (by decide)) (.unary nofun (hvar _ _ (by decide)))
  have hseq : Readable .argument (.seq [.lit (.char '\'') .nowhere,
      .lit (.str "(* \"\n\\") .nowhere,
      .unary .neg (.logical .or (.lit (.bool true) .nowhere) one .nowhere) .nowhere] .nowhere) := by
    refine .seq (by simp) ?_
    simp only [List.forall_mem_cons]
    refine ⟨.lit (by decide +kernel), .lit (by decide +kernel), ?_, by simp⟩
    exact .unary nofun (.logical (.lit rfl) (hone _))
  have hreadable : e.Readable .free := by
    refine .letIn (by decide) (.cond (.unary nofun (hvar _ _ (by decide))) hlambda
      (hvar _ _ (by decide))) (.call (hvar _ _ (by decide)) (by simp) ?_)
    simp only [List.forall_mem_cons]
    exact ⟨hseq, hone _, by simp⟩
  exact ⟨hreadable, hreadable.parse_render⟩

end Expr

end ContractML
