import ContractML.Proofs.BindingForms

/-!
# Respelled texts

Let one text have the short form of a binding of a function where another one has the long form. Up
to the binding the texts are the same, and after it too. The parser reads the same from both, up to
positions, whether or not the texts are well-formed, and it stops at the same token.

Two runs of a parser, one on each text, go side by side: token by token up to the binding, over it
in one go, and on. The induction is on the steps of both runs and goes over all parsers at once.
Positions are left out at first: they make no difference to what is read.

## Main definitions

* `Respelled` — kinds of tokens that differ in the form of one binding.
* `Parse.Agree`, `Parse.Both` — two runs give the same and stop at the same token.

## Main results

* `Parse.agreeAt`, `Parse.agreeContractAt` — the parsers of expressions and of contracts agree.
* `Parse.Both.statement` — **the parser of statements does the same on respelled texts**.
-/

namespace ContractML

/-! ### Kinds that differ in the form of a binding -/

/-- The kinds have the two forms of the binding before `rest`, or they are the same since the
binding has been passed. -/
inductive Respelled (b : FunctionBinding) (rest : List TokenKind) :
    List TokenKind → List TokenKind → Prop
  | before (ks : List TokenKind) :
      Respelled b rest (ks ++ (b.short ++ rest)) (ks ++ (b.long ++ rest))
  | after {ks : List TokenKind} (h : ks <:+ rest) : Respelled b rest ks ks

namespace Respelled

variable {b : FunctionBinding} {rest ks ls : List TokenKind} {k : TokenKind}

theorem head?_eq (h : Respelled b rest ks ls) : ls.head? = ks.head? := by
  cases h with
  | before ks => cases ks <;> rfl
  | after h => rfl

/-- The first token is the `let` of the binding, or it stands in both texts. -/
theorem cons_cases (h : Respelled b rest (k :: ks) ls) :
    (k :: ks = b.short ++ rest ∧ ls = b.long ++ rest) ∨
      ∃ ls', ls = k :: ls' ∧ Respelled b rest ks ls' := by
  generalize hk : k :: ks = kks at h
  cases h with
  | before us =>
    cases us with
    | nil => exact .inl ⟨rfl, rfl⟩
    | cons u us =>
      obtain ⟨rfl, rfl⟩ := List.cons.inj hk
      exact .inr ⟨us ++ (b.long ++ rest), rfl, .before us⟩
  | after h =>
    subst hk
    exact .inr ⟨ks, rfl, .after ((List.suffix_cons k ks).trans h)⟩

/-- A token that does not begin the binding stands in both texts. -/
theorem tail (h : Respelled b rest (k :: ks) ls)
    (hk : k = .keyword .kwLet → k :: ks ≠ b.short ++ rest) :
    ∃ ls', ls = k :: ls' ∧ Respelled b rest ks ls' := by
  rcases h.cons_cases with ⟨hbinding, -⟩ | h
  · exact absurd hbinding (hk (List.cons.inj hbinding).1)
  · exact h

/-- Where no more is left than `rest`, the binding has been passed. -/
theorem eq_of_length_le (h : Respelled b rest ks ls) (hlen : ks.length ≤ rest.length) :
    ls = ks ∧ ks <:+ rest := by
  cases h with
  | before ks =>
    have hshort := b.length_short_append rest
    rw [List.length_append] at hlen
    omega
  | after h => exact ⟨rfl, h⟩

/-- At the binding one text has the short form and the other one the long form. -/
theorem eq_long (h : Respelled b rest ks ls) (hks : ks = b.short ++ rest) :
    ls = b.long ++ rest := by
  cases h with
  | before us => rw [List.append_left_eq_self.mp hks, List.nil_append]
  | after h =>
    have hlen := h.length_le
    have hshort := b.length_short_append rest
    rw [hks] at hlen
    omega

/-- Names at the beginning stand in both texts. -/
theorem identifiers (h : Respelled b rest ks ls) :
    ∃ (xs : List String) (ks' ls' : List TokenKind), ks = xs.map .ident ++ ks' ∧
      ls = xs.map .ident ++ ls' ∧ Respelled b rest ks' ls' ∧ ∀ x, ks'.head? ≠ some (.ident x) := by
  induction ks generalizing ls with
  | nil => exact ⟨[], [], ls, rfl, rfl, h, by simp⟩
  | cons k ks ih =>
    by_cases hk : ∃ x, k = .ident x
    · obtain ⟨x, rfl⟩ := hk
      obtain ⟨ls', rfl, h'⟩ := h.tail (by simp)
      obtain ⟨xs, us, vs, rfl, rfl, huv, hus⟩ := ih h'
      exact ⟨x :: xs, us, vs, rfl, rfl, huv, hus⟩
    · refine ⟨[], k :: ks, ls, rfl, rfl, h, fun x hx => hk ⟨x, ?_⟩⟩
      exact Option.some.inj hx

end Respelled

namespace Parse

variable {α β : Type} {b : FunctionBinding} {rest ks ls : List TokenKind} {k : TokenKind}
  {c d : Nat}

/-! ### Two runs side by side -/

/-- Two runs on texts without positions have one result or one error, and stop at the same token:
with at most `c` tokens left, and after a success with less than `d`. -/
inductive Agree (b : FunctionBinding) (rest : List TokenKind) (c d : Nat) :
    EStateM.Result SyntaxError Stream α → EStateM.Result SyntaxError Stream α → Prop
  | ok {a : α} {ks ls : List TokenKind} (h : Respelled b rest ks ls) (hc : ks.length ≤ c)
      (hd : ks.length < d) : Agree b rest c d (.ok a (.ofKinds ks)) (.ok a (.ofKinds ls))
  | error {e : SyntaxError} {ks ls : List TokenKind} (h : Respelled b rest ks ls)
      (hc : ks.length ≤ c) : Agree b rest c d (.error e (.ofKinds ks)) (.error e (.ofKinds ls))

/-- What `x` does on the kinds `ks`, `y` does on the kinds `ls`. -/
def Both (b : FunctionBinding) (rest : List TokenKind) (d : Nat) (x y : Parse α)
    (ks ls : List TokenKind) : Prop :=
  Agree b rest ks.length d (x (.ofKinds ks)) (y (.ofKinds ls))

theorem Agree.mono {r r' : EStateM.Result SyntaxError Stream α} {c' d' : Nat}
    (h : Agree b rest c d r r') (hc : c ≤ c') (hd : d ≤ d') : Agree b rest c' d' r r' := by
  cases h with
  | ok h hc' hd' => exact .ok h (hc'.trans hc) (hd'.trans_le hd)
  | error h hc' => exact .error h (hc'.trans hc)

/-- The parsers that go on start where the first ones stopped. -/
theorem Agree.bind {x y : Parse α} {f g : α → Parse β} {s t : Stream} {d' : Nat}
    (hx : Agree b rest c d (x s) (y t))
    (hf : ∀ a ks ls, Respelled b rest ks ls → ks.length ≤ c → ks.length < d →
      Both b rest d' (f a) (g a) ks ls) :
    Agree b rest c d' ((x >>= f) s) ((y >>= g) t) := by
  generalize hr : x s = r at hx
  generalize hr' : y t = r' at hx
  cases hx with
  | ok h hc hd =>
    rw [bind_of_ok f hr, bind_of_ok g hr']
    exact (hf _ _ _ h hc hd).mono hc le_rfl
  | error h hc =>
    rw [bind_of_error f hr, bind_of_error g hr']
    exact .error h hc

namespace Both

variable {f g : α → Parse β} {d' : Nat}

theorem mono {x y : Parse α} (h : Both b rest d x y ks ls) (hd : d ≤ d') :
    Both b rest d' x y ks ls :=
  Agree.mono h le_rfl hd

protected theorem pure (a : α) (h : Respelled b rest ks ls) (hd : ks.length < d) :
    Both b rest d (pure a) (pure a) ks ls :=
  .ok h le_rfl hd

protected theorem bind {x y : Parse α} (hx : Both b rest d x y ks ls)
    (hf : ∀ a ks' ls', Respelled b rest ks' ls' → ks'.length ≤ ks.length → ks'.length < d →
      Both b rest d' (f a) (g a) ks' ls') :
    Both b rest d' (x >>= f) (y >>= g) ks ls :=
  Agree.bind hx hf

/-! Steps that only look at the tokens -/

protected theorem kind? {f g : Option TokenKind → Parse β} (h : Respelled b rest ks ls)
    (hf : Both b rest d (f ks.head?) (g ks.head?) ks ls) :
    Both b rest d (kind? >>= f) (kind? >>= g) ks ls := by
  unfold Both
  rw [bind_of_ok f (kind?_ofKinds ks), bind_of_ok g (kind?_ofKinds ls), h.head?_eq]
  exact hf

protected theorem start {f g : Nat → Parse β} (hf : Both b rest d (f 0) (g 0) ks ls) :
    Both b rest d (start >>= f) (start >>= g) ks ls := by
  unfold Both
  rw [bind_of_ok f (start_ofKinds ks), bind_of_ok g (start_ofKinds ls)]
  exact hf

protected theorem spanFrom {f g : Span → Parse β} {start : Nat}
    (hf : Both b rest d (f ⟨start, 0⟩) (g ⟨start, 0⟩) ks ls) :
    Both b rest d (spanFrom start >>= f) (spanFrom start >>= g) ks ls := hf

protected theorem get {f g : Stream → Parse β}
    (hf : Both b rest d (f (.ofKinds ks)) (g (.ofKinds ls)) ks ls) :
    Both b rest d (get >>= f) (get >>= g) ks ls := hf

/-- A test of the token at hand has the same answer on both sides. -/
theorem test {x : Parse Bool} {f g : Bool → Parse β}
    (hx : ∀ ks, x (.ofKinds ks) = .ok (ks.head? == some k) (.ofKinds ks))
    (h : Respelled b rest ks ls)
    (hyes : ks.head? = some k → Both b rest d (f true) (g true) ks ls)
    (hno : ks.head? ≠ some k → Both b rest d (f false) (g false) ks ls) :
    Both b rest d (x >>= f) (x >>= g) ks ls := by
  unfold Both
  rw [bind_of_ok f (hx ks), bind_of_ok g (hx ls), h.head?_eq]
  by_cases hk : ks.head? = some k
  · rw [beq_iff_eq.mpr hk]
    exact hyes hk
  · rw [beq_eq_false_iff_ne.mpr hk]
    exact hno hk

protected theorem atSymbol {f g : Bool → Parse β} (h : Respelled b rest ks ls) (s : Symbol)
    (hyes : ks.head? = some (.symbol s) → Both b rest d (f true) (g true) ks ls)
    (hno : ks.head? ≠ some (.symbol s) → Both b rest d (f false) (g false) ks ls) :
    Both b rest d (atSymbol s >>= f) (atSymbol s >>= g) ks ls :=
  test (atSymbol_ofKinds s) h hyes hno

protected theorem atKeyword {f g : Bool → Parse β} (h : Respelled b rest ks ls) (w : Keyword)
    (hyes : ks.head? = some (.keyword w) → Both b rest d (f true) (g true) ks ls)
    (hno : ks.head? ≠ some (.keyword w) → Both b rest d (f false) (g false) ks ls) :
    Both b rest d (atKeyword w >>= f) (atKeyword w >>= g) ks ls :=
  test (atKeyword_ofKinds w) h hyes hno

/-! Steps that take tokens or fail -/

/-- Passing over a token that does not begin the binding. -/
protected theorem advance {f g : Unit → Parse β} (h : Respelled b rest ks ls)
    (hhead : ks.head? = some k) (hk : k = .keyword .kwLet → ks ≠ b.short ++ rest)
    (hf : ∀ ks' ls', Respelled b rest ks' ls' → ks'.length + 1 = ks.length →
      Both b rest d (f ()) (g ()) ks' ls') :
    Both b rest d (advance >>= f) (advance >>= g) ks ls := by
  obtain ⟨ks', rfl⟩ := List.head?_eq_some_iff.mp hhead
  obtain ⟨ls', rfl, h'⟩ := h.tail hk
  exact Agree.mono (hf ks' ls' h' rfl) (Nat.le_succ _) le_rfl

protected theorem unexpected (h : Respelled b rest ks ls) (wanted : Expectation) :
    Both b rest d (unexpected wanted : Parse α) (unexpected wanted) ks ls := by
  have hhead := h.head?_eq
  refine Both.get ?_
  rw [Stream.kind?_ofKinds, Stream.kind?_ofKinds, Stream.span_ofKinds, Stream.span_ofKinds, hhead]
  split
  · exact .error h le_rfl
  · exact .error h le_rfl

/-- Taking a token that does not begin the binding. -/
theorem taken (h : Respelled b rest ks ls) (hhead : ks.head? = some k)
    (hk : k = .keyword .kwLet → ks ≠ b.short ++ rest) :
    Both b rest ks.length advance advance ks ls :=
  Both.advance (f := pure) (g := pure) h hhead hk fun _ _ h' hlen =>
    Both.pure () h' (by omega)

protected theorem expect (h : Respelled b rest ks ls) (s : Symbol) :
    Both b rest ks.length (expect s) (expect s) ks ls :=
  Both.atSymbol h s (fun hs => taken h hs (by simp)) fun _ => Both.unexpected h _

protected theorem expectKeyword (h : Respelled b rest ks ls) {w : Keyword}
    (hw : w = .kwLet → ks ≠ b.short ++ rest) :
    Both b rest ks.length (expectKeyword w) (expectKeyword w) ks ls := by
  refine Both.atKeyword h w (fun hs => taken h hs fun hlet => ?_) fun _ => Both.unexpected h _
  exact hw (TokenKind.keyword.inj hlet)

protected theorem identifier (h : Respelled b rest ks ls) :
    Both b rest ks.length identifier identifier ks ls := by
  have hhead := h.head?_eq
  refine Both.get ?_
  rw [Stream.kind?_ofKinds, Stream.kind?_ofKinds, Stream.span_ofKinds, Stream.span_ofKinds, hhead]
  split
  · rename_i x hx
    exact Both.advance h hx (by simp) fun _ _ h' hlen => Both.pure _ h' (by omega)
  · exact Both.unexpected h .identifier

protected theorem identifiers (h : Respelled b rest ks ls) :
    Both b rest (ks.length + 1) identifiers identifiers ks ls := by
  obtain ⟨xs, us, vs, rfl, rfl, huv, hus⟩ := h.identifiers
  -- Identifiers end at the same token in both texts.
  have hvs : ∀ x, vs.head? ≠ some (.ident x) := by
    rw [huv.head?_eq]
    exact hus
  have hlen : us.length ≤ (xs.map TokenKind.ident ++ us).length := by
    rw [List.length_append]
    exact Nat.le_add_left _ _
  unfold Both
  rw [identifiers_ofKinds xs hus, identifiers_ofKinds xs hvs]
  exact .ok huv hlen (Nat.lt_succ_of_le hlen)

end Both

/-! ### Parsers of expressions -/

/-- The kinds are respelled, and there are steps enough for the runs on both: eight for each token,
and `c` more. The long form has two tokens more. -/
structure Prepared (b : FunctionBinding) (rest : List TokenKind) (c n m : Nat)
    (ks ls : List TokenKind) : Prop where
  respelled : Respelled b rest ks ls
  steps : 8 * ks.length + c ≤ n
  steps' : 8 * (ks.length + 2) + c ≤ m

theorem Prepared.next {c' n m : Nat} {ks' ls' : List TokenKind}
    (h : Prepared b rest c (n + 1) (m + 1) ks ls) (h' : Respelled b rest ks' ls')
    (hc : 8 * ks'.length + c' + 1 ≤ 8 * ks.length + c) : Prepared b rest c' n m ks' ls' := by
  have hsteps := h.steps
  have hsteps' := h.steps'
  exact ⟨h', by omega, by omega⟩

/-- With `n` steps on the first text and `m` steps on the second one, the parsers of expressions do
the same. -/
structure AgreeAt (b : FunctionBinding) (rest : List TokenKind) (n m : Nat) : Prop where
  sequence : ∀ {ks ls}, Prepared b rest 5 n m ks ls →
    Both b rest ks.length (sequence n) (sequence m) ks ls
  sequenceTail : ∀ {ks ls} acc, Prepared b rest 1 n m ks ls →
    Both b rest (ks.length + 1) (sequenceTail n acc) (sequenceTail m acc) ks ls
  expression : ∀ {ks ls} level, Prepared b rest 4 n m ks ls →
    Both b rest ks.length (expression n level) (expression m level) ks ls
  operators : ∀ {ks ls} left level, Prepared b rest 1 n m ks ls →
    Both b rest (ks.length + 1) (operators n left level) (operators m left level) ks ls
  operand : ∀ {ks ls}, Prepared b rest 3 n m ks ls →
    Both b rest ks.length (operand n) (operand m) ks ls
  unary : ∀ {k ks ls} op, Prepared b rest 1 n m ks ls → ks.head? = some k →
    (k = .keyword .kwLet → ks ≠ b.short ++ rest) →
      Both b rest ks.length (unary n op) (unary m op) ks ls
  binding : ∀ {ks ls}, Prepared b rest 1 n m ks ls →
    Both b rest ks.length (binding n) (binding m) ks ls
  localLet : ∀ {ks ls} start name value, Prepared b rest 1 n m ks ls →
    Both b rest ks.length (localLet n start name value) (localLet m start name value) ks ls
  lambda : ∀ {ks ls}, Prepared b rest 1 n m ks ls →
    Both b rest ks.length (lambda n) (lambda m) ks ls
  conditional : ∀ {ks ls}, Prepared b rest 1 n m ks ls →
    Both b rest ks.length (conditional n) (conditional m) ks ls
  application : ∀ {ks ls}, Prepared b rest 2 n m ks ls →
    Both b rest ks.length (application n) (application m) ks ls
  arguments : ∀ {ks ls} acc, Prepared b rest 2 n m ks ls →
    Both b rest (ks.length + 1) (arguments n acc) (arguments m acc) ks ls
  atom : ∀ {ks ls}, Prepared b rest 1 n m ks ls → Both b rest ks.length (atom n) (atom m) ks ls

namespace AgreeAt

variable {n m : Nat}

theorem sequence_succ (h : AgreeAt b rest n m) (hs : Prepared b rest 5 (n + 1) (m + 1) ks ls) :
    Both b rest ks.length (Parse.sequence (n + 1)) (Parse.sequence (m + 1)) ks ls := by
  refine Both.start ?_
  refine Both.bind (h.expression 0 (hs.next hs.respelled (by omega))) ?_
  intro first ks₁ ls₁ h₁ _ hlen₁
  refine Both.bind (h.sequenceTail [] (hs.next h₁ (by omega))) fun others ks₂ ls₂ h₂ hlen₂ _ => ?_
  cases others with
  | nil => exact Both.pure _ h₂ (by omega)
  | cons e es => exact Both.spanFrom (Both.pure _ h₂ (by omega))

theorem sequenceTail_succ (h : AgreeAt b rest n m) (acc : List Expr)
    (hs : Prepared b rest 1 (n + 1) (m + 1) ks ls) :
    Both b rest (ks.length + 1) (Parse.sequenceTail (n + 1) acc) (Parse.sequenceTail (m + 1) acc)
      ks ls := by
  refine Both.atSymbol hs.respelled .semi (fun hk => ?_) fun _ => ?_
  · refine Both.advance hs.respelled hk (by simp) fun ks₁ ls₁ h₁ hlen₁ => ?_
    refine Both.bind (h.expression 0 (hs.next h₁ (by omega))) fun e ks₂ ls₂ h₂ _ hlen₂ => ?_
    exact (h.sequenceTail (e :: acc) (hs.next h₂ (by omega))).mono (by omega)
  · exact Both.pure _ hs.respelled (Nat.lt_succ_self _)

theorem expression_succ (h : AgreeAt b rest n m) (level : Nat)
    (hs : Prepared b rest 4 (n + 1) (m + 1) ks ls) :
    Both b rest ks.length (Parse.expression (n + 1) level) (Parse.expression (m + 1) level)
      ks ls := by
  refine Both.bind (h.operand (hs.next hs.respelled (by omega))) fun left ks₁ ls₁ h₁ _ hlen₁ => ?_
  exact (h.operators left level (hs.next h₁ (by omega))).mono hlen₁

theorem operators_succ (h : AgreeAt b rest n m) (left : Expr) (level : Nat)
    (hs : Prepared b rest 1 (n + 1) (m + 1) ks ls) :
    Both b rest (ks.length + 1) (Parse.operators (n + 1) left level)
      (Parse.operators (m + 1) left level) ks ls := by
  have hstop : Both b rest (ks.length + 1) (pure left) (pure left) ks ls :=
    Both.pure left hs.respelled (Nat.lt_succ_self _)
  refine Both.kind? hs.respelled ?_
  cases hk : ks.head? with
  | none => exact hstop
  | some k =>
    cases ho : Operator.ofKind? k with
    | none =>
      simp only [Option.bind_some, ho]
      exact hstop
    | some o =>
      -- The binding is no operator, so it does not begin here.
      have hne : k = .keyword .kwLet → ks ≠ b.short ++ rest := by
        rintro rfl
        cases ho
      simp only [Option.bind_some, ho]
      split
      · exact hstop
      · refine Both.advance hs.respelled hk hne fun ks₁ ls₁ h₁ hlen₁ => ?_
        refine Both.bind (h.expression o.rightLevel (hs.next h₁ (by omega))) ?_
        intro right ks₂ ls₂ h₂ _ hlen₂
        exact (h.operators _ level (hs.next h₂ (by omega))).mono (by omega)

theorem operand_succ (h : AgreeAt b rest n m) (hs : Prepared b rest 3 (n + 1) (m + 1) ks ls) :
    Both b rest ks.length (Parse.operand (n + 1)) (Parse.operand (m + 1)) ks ls := by
  have happ := h.application (hs.next hs.respelled (by omega))
  -- Both texts have the same token at hand, even where the two forms begin.
  have hone : Prepared b rest 1 n m ks ls := hs.next hs.respelled (by omega)
  refine Both.kind? hs.respelled ?_
  cases hk : ks.head? with
  | none => exact happ
  | some k =>
    cases k with
    | symbol k =>
      cases k with
      | minus => exact h.unary .neg hone hk (by simp)
      | _ => exact happ
    | keyword k =>
      cases k with
      | kwNot => exact h.unary .not hone hk (by simp)
      | kwLet =>
        refine Both.start (Both.bind (h.binding hone) fun x ks₁ ls₁ h₁ _ hlen₁ => ?_)
        exact (h.localLet 0 x.1 x.2 (hs.next h₁ (by omega))).mono (by omega)
      | kwFun => exact h.lambda hone
      | kwIf => exact h.conditional hone
      | _ => exact happ
    | _ => exact happ

theorem unary_succ (h : AgreeAt b rest n m) (op : UnaryOp)
    (hs : Prepared b rest 1 (n + 1) (m + 1) ks ls) (hk : ks.head? = some k)
    (hne : k = .keyword .kwLet → ks ≠ b.short ++ rest) :
    Both b rest ks.length (Parse.unary (n + 1) op) (Parse.unary (m + 1) op) ks ls := by
  refine Both.start (Both.advance hs.respelled hk hne fun ks₁ ls₁ h₁ hlen₁ => ?_)
  refine Both.bind (h.expression Operator.unaryLevel (hs.next h₁ (by omega))) ?_
  intro e ks₂ ls₂ h₂ _ hlen₂
  exact Both.spanFrom (Both.pure _ h₂ (by omega))

theorem localLet_succ (h : AgreeAt b rest n m) (start : Nat) (name : Ident) (value : Expr)
    (hs : Prepared b rest 1 (n + 1) (m + 1) ks ls) :
    Both b rest ks.length (Parse.localLet (n + 1) start name value)
      (Parse.localLet (m + 1) start name value) ks ls := by
  refine Both.bind (Both.expectKeyword hs.respelled (by simp)) fun _ ks₁ ls₁ h₁ _ hlen₁ => ?_
  refine Both.bind (h.sequence (hs.next h₁ (by omega))) fun body ks₂ ls₂ h₂ _ hlen₂ => ?_
  exact Both.spanFrom (Both.pure _ h₂ (by omega))

theorem lambda_succ (h : AgreeAt b rest n m) (hs : Prepared b rest 1 (n + 1) (m + 1) ks ls) :
    Both b rest ks.length (Parse.lambda (n + 1)) (Parse.lambda (m + 1)) ks ls := by
  refine Both.start ?_
  refine Both.bind (Both.expectKeyword hs.respelled (by simp)) fun _ ks₁ ls₁ h₁ _ hlen₁ => ?_
  refine Both.bind (Both.identifier h₁) fun first ks₂ ls₂ h₂ _ hlen₂ => ?_
  refine Both.bind (Both.identifiers h₂) fun others ks₃ ls₃ h₃ hlen₃ _ => ?_
  refine Both.bind (Both.expect h₃ .arrow) fun _ ks₄ ls₄ h₄ _ hlen₄ => ?_
  refine Both.bind (h.sequence (hs.next h₄ (by omega))) fun body ks₅ ls₅ h₅ _ hlen₅ => ?_
  exact Both.spanFrom (Both.pure _ h₅ (by omega))

theorem conditional_succ (h : AgreeAt b rest n m) (hs : Prepared b rest 1 (n + 1) (m + 1) ks ls) :
    Both b rest ks.length (Parse.conditional (n + 1)) (Parse.conditional (m + 1)) ks ls := by
  refine Both.start ?_
  refine Both.bind (Both.expectKeyword hs.respelled (by simp)) fun _ ks₁ ls₁ h₁ _ hlen₁ => ?_
  refine Both.bind (h.expression 0 (hs.next h₁ (by omega))) fun test ks₂ ls₂ h₂ _ hlen₂ => ?_
  refine Both.bind (Both.expectKeyword h₂ (by simp)) fun _ ks₃ ls₃ h₃ _ hlen₃ => ?_
  refine Both.bind (h.expression 0 (hs.next h₃ (by omega))) fun yes ks₄ ls₄ h₄ _ hlen₄ => ?_
  refine Both.bind (Both.expectKeyword h₄ (by simp)) fun _ ks₅ ls₅ h₅ _ hlen₅ => ?_
  refine Both.bind (h.expression 0 (hs.next h₅ (by omega))) fun no ks₆ ls₆ h₆ _ hlen₆ => ?_
  exact Both.spanFrom (Both.pure _ h₆ (by omega))

theorem application_succ (h : AgreeAt b rest n m) (hs : Prepared b rest 2 (n + 1) (m + 1) ks ls) :
    Both b rest ks.length (Parse.application (n + 1)) (Parse.application (m + 1)) ks ls := by
  refine Both.bind (h.atom (hs.next hs.respelled (by omega))) fun callee ks₁ ls₁ h₁ _ hlen₁ => ?_
  refine Both.bind (h.arguments [] (hs.next h₁ (by omega))) fun args ks₂ ls₂ h₂ hlen₂ _ => ?_
  cases args with
  | nil => exact Both.pure _ h₂ (by omega)
  | cons e es => exact Both.spanFrom (Both.pure _ h₂ (by omega))

theorem arguments_succ (h : AgreeAt b rest n m) (acc : List Expr)
    (hs : Prepared b rest 2 (n + 1) (m + 1) ks ls) :
    Both b rest (ks.length + 1) (Parse.arguments (n + 1) acc) (Parse.arguments (m + 1) acc)
      ks ls := by
  refine Both.kind? hs.respelled ?_
  split
  · refine Both.bind (h.atom (hs.next hs.respelled (by omega))) fun e ks₁ ls₁ h₁ _ hlen₁ => ?_
    exact (h.arguments (e :: acc) (hs.next h₁ (by omega))).mono (by omega)
  · exact Both.pure _ hs.respelled (Nat.lt_succ_self _)

theorem atom_succ (h : AgreeAt b rest n m) (hs : Prepared b rest 1 (n + 1) (m + 1) ks ls) :
    Both b rest ks.length (Parse.atom (n + 1)) (Parse.atom (m + 1)) ks ls := by
  have hfail : Both b rest ks.length (unexpected .expression : Parse Expr)
      (unexpected .expression) ks ls := Both.unexpected hs.respelled .expression
  -- A token that stands for an expression of its own.
  have htake : ∀ {k : TokenKind} (e : Expr), ks.head? = some k →
      (k = .keyword .kwLet → ks ≠ b.short ++ rest) →
      Both b rest ks.length (do advance; return e) (do advance; return e) ks ls :=
    fun e hk hne => Both.advance hs.respelled hk hne fun _ _ h₁ hlen => Both.pure e h₁ (by omega)
  refine Both.get (Both.kind? hs.respelled ?_)
  rw [Stream.span_ofKinds, Stream.span_ofKinds]
  cases hk : ks.head? with
  | none => exact hfail
  | some k =>
    cases k with
    | int v => exact htake _ hk (by simp)
    | float v => exact htake _ hk (by simp)
    | char v => exact htake _ hk (by simp)
    | str v => exact htake _ hk (by simp)
    | ident name => exact htake _ hk (by simp)
    | faulty fault => exact hfail
    | keyword k =>
      cases k with
      | kwTrue => exact htake _ hk (by simp)
      | kwFalse => exact htake _ hk (by simp)
      | _ => exact hfail
    | symbol k =>
      cases k with
      | lparen =>
        refine Both.advance hs.respelled hk (by simp) fun ks₁ ls₁ h₁ hlen₁ => ?_
        refine Both.bind (h.sequence (hs.next h₁ (by omega))) fun inner ks₂ ls₂ h₂ _ hlen₂ => ?_
        refine Both.bind (Both.expect h₂ .rparen) fun _ ks₃ ls₃ h₃ _ hlen₃ => ?_
        exact Both.pure _ h₃ (by omega)
      | _ => exact hfail

/-- After the head the body is read from the same tokens. -/
theorem read (h : AgreeAt b rest n m) (hs : Prepared b rest 5 n m rest rest) :
    Both b rest rest.length (b.read n) (b.read m) rest rest := by
  refine Both.bind (d := rest.length) ?_ fun value ks₁ ls₁ h₁ _ hlen₁ => Both.pure _ h₁ hlen₁
  refine Both.bind (h.sequence hs) fun body ks₁ ls₁ h₁ _ hlen₁ => ?_
  exact Both.spanFrom (Both.pure _ h₁ hlen₁)

/-- The binding itself is passed in one go. -/
theorem binding_head (h : ∀ m, AgreeAt b rest n m)
    (hs : Prepared b rest 1 (n + 1) (m + 1) (b.short ++ rest) (b.long ++ rest)) :
    Agree b rest rest.length rest.length
      (Parse.binding (n + 1) (.ofKinds (b.short ++ rest)))
      (Parse.binding (m + 1) (.ofKinds (b.long ++ rest))) := by
  have hsteps := hs.steps
  have hsteps' := hs.steps'
  have hlen := b.length_short_append rest
  -- The long form reaches its body four calls later.
  obtain ⟨l, rfl⟩ : ∃ l, m = l + 4 := ⟨m - 4, by omega⟩
  rw [binding_short b rest n, binding_long b rest l]
  exact (h l).read ⟨.after List.suffix_rfl, by omega, by omega⟩

theorem binding_succ (h : ∀ m, AgreeAt b rest n m)
    (hs : Prepared b rest 1 (n + 1) (m + 1) ks ls) :
    Both b rest ks.length (Parse.binding (n + 1)) (Parse.binding (m + 1)) ks ls := by
  -- Either this is the binding that is respelled, or the parsers take their tokens alike.
  by_cases hhead : ks = b.short ++ rest
  · obtain rfl := hs.respelled.eq_long hhead
    have hlen := b.length_short_append rest
    rw [← hhead] at hlen
    subst hhead
    exact (binding_head h hs).mono (by omega) (by omega)
  · refine Both.bind (Both.expectKeyword hs.respelled fun _ => hhead) fun _ ks₁ ls₁ h₁ _ hlen₁ => ?_
    refine Both.bind (Both.identifier h₁) fun name ks₂ ls₂ h₂ _ hlen₂ => ?_
    refine Both.bind (Both.identifiers h₂) fun params ks₃ ls₃ h₃ hlen₃ _ => ?_
    refine Both.bind (Both.expect h₃ .eq) fun _ ks₄ ls₄ h₄ _ hlen₄ => Both.start ?_
    refine Both.bind ((h m).sequence (hs.next h₄ (by omega))) fun value ks₅ ls₅ h₅ _ hlen₅ => ?_
    exact Both.get (Both.pure _ h₅ (by omega))

/-- One step more on both sides. -/
theorem succ (h : ∀ m, AgreeAt b rest n m) : AgreeAt b rest (n + 1) (m + 1) where
  sequence := (h m).sequence_succ
  sequenceTail := (h m).sequenceTail_succ
  expression := (h m).expression_succ
  operators := (h m).operators_succ
  operand := (h m).operand_succ
  unary := (h m).unary_succ
  binding := binding_succ h
  localLet := (h m).localLet_succ
  lambda := (h m).lambda_succ
  conditional := (h m).conditional_succ
  application := (h m).application_succ
  arguments := (h m).arguments_succ
  atom := (h m).atom_succ

end AgreeAt

/-- Without steps no kinds are prepared. -/
theorem Prepared.not_of_min_eq_zero {n m : Nat} (h : min n m = 0) :
    ¬Prepared b rest (c + 1) n m ks ls := by
  intro hs
  have hsteps := hs.steps
  have hsteps' := hs.steps'
  omega

theorem AgreeAt.of_min_eq_zero {n m : Nat} (h : min n m = 0) : AgreeAt b rest n m := by
  constructor
  all_goals
    intros
    exact (Prepared.not_of_min_eq_zero h (by assumption)).elim

/-- **The parsers of expressions do the same on respelled texts.** -/
theorem agreeAt (b : FunctionBinding) (rest : List TokenKind) (n m : Nat) :
    AgreeAt b rest n m := by
  -- The runs do not take the same steps over the binding, so one count varies with the other fixed.
  induction n generalizing m with
  | zero => exact .of_min_eq_zero (by omega)
  | succ n ih =>
    cases m with
    | zero => exact .of_min_eq_zero (by omega)
    | succ m => exact .succ ih

/-! ### Parsers of contracts and statements -/

/-- With `n` and `m` steps the parsers of contracts do the same. -/
structure AgreeContractAt (b : FunctionBinding) (rest : List TokenKind) (n m : Nat) : Prop where
  contract : ∀ {ks ls}, Prepared b rest 6 n m ks ls →
    Both b rest ks.length (contract n) (contract m) ks ls
  contractTail : ∀ {ks ls} acc, Prepared b rest 1 n m ks ls →
    Both b rest (ks.length + 1) (contractTail n acc) (contractTail m acc) ks ls
  contractTerm : ∀ {ks ls}, Prepared b rest 5 n m ks ls →
    Both b rest ks.length (contractTerm n) (contractTerm m) ks ls

namespace AgreeContractAt

variable {n m : Nat}

theorem contract_succ (h : AgreeContractAt b rest n m)
    (hs : Prepared b rest 6 (n + 1) (m + 1) ks ls) :
    Both b rest ks.length (Parse.contract (n + 1)) (Parse.contract (m + 1)) ks ls := by
  refine Both.start ?_
  refine Both.bind (h.contractTerm (hs.next hs.respelled (by omega))) ?_
  intro first ks₁ ls₁ h₁ _ hlen₁
  refine Both.bind (h.contractTail [] (hs.next h₁ (by omega))) fun terms ks₂ ls₂ h₂ hlen₂ _ => ?_
  cases terms with
  | nil => exact Both.pure _ h₂ (by omega)
  | cons range domain => exact Both.spanFrom (Both.pure _ h₂ (by omega))

theorem contractTail_succ (h : AgreeContractAt b rest n m) (acc : List ContractExpr)
    (hs : Prepared b rest 1 (n + 1) (m + 1) ks ls) :
    Both b rest (ks.length + 1) (Parse.contractTail (n + 1) acc)
      (Parse.contractTail (m + 1) acc) ks ls := by
  refine Both.atSymbol hs.respelled .arrow (fun hk => ?_) fun _ => ?_
  · refine Both.advance hs.respelled hk (by simp) fun ks₁ ls₁ h₁ hlen₁ => ?_
    refine Both.bind (h.contractTerm (hs.next h₁ (by omega))) fun c ks₂ ls₂ h₂ _ hlen₂ => ?_
    exact (h.contractTail (c :: acc) (hs.next h₂ (by omega))).mono (by omega)
  · exact Both.pure _ hs.respelled (Nat.lt_succ_self _)

theorem contractTerm_succ (h : AgreeContractAt b rest n m)
    (hs : Prepared b rest 5 (n + 1) (m + 1) ks ls) :
    Both b rest ks.length (Parse.contractTerm (n + 1)) (Parse.contractTerm (m + 1)) ks ls := by
  refine Both.atSymbol hs.respelled .lparen (fun hk => ?_) fun _ => ?_
  · refine Both.advance hs.respelled hk (by simp) fun ks₁ ls₁ h₁ hlen₁ => ?_
    refine Both.bind (h.contract (hs.next h₁ (by omega))) fun inner ks₂ ls₂ h₂ _ hlen₂ => ?_
    refine Both.bind (Both.expect h₂ .rparen) fun _ ks₃ ls₃ h₃ _ hlen₃ => ?_
    exact Both.pure _ h₃ (by omega)
  · refine Both.bind ((agreeAt b rest n m).expression 0 (hs.next hs.respelled (by omega))) ?_
    exact fun e ks₁ ls₁ h₁ _ hlen₁ => Both.pure _ h₁ hlen₁

end AgreeContractAt

theorem AgreeContractAt.of_min_eq_zero {n m : Nat} (h : min n m = 0) :
    AgreeContractAt b rest n m := by
  constructor
  all_goals
    intros
    exact (Prepared.not_of_min_eq_zero h (by assumption)).elim

theorem agreeContractAt (b : FunctionBinding) (rest : List TokenKind) (n m : Nat) :
    AgreeContractAt b rest n m := by
  induction n generalizing m with
  | zero => exact .of_min_eq_zero (by omega)
  | succ n ih =>
    cases m with
    | zero => exact .of_min_eq_zero (by omega)
    | succ m => exact ⟨(ih m).contract_succ, (ih m).contractTail_succ, (ih m).contractTerm_succ⟩

/-- A statement that begins with a binding, from the end of the binding on. -/
def afterBinding (n start : Nat) (x : Ident × Expr) : Parse (Span → Stmt) := do
  if ← atKeyword .kwIn then return .expr (← localLet n start x.1 x.2)
  else return .define x.1 x.2

section Statements

variable {n m : Nat}

theorem bareStatement_let (n : Nat) (hk : ks.head? = some (.keyword .kwLet)) :
    bareStatement n (.ofKinds ks) = (binding n >>= afterBinding n 0) (.ofKinds ks) := by
  rw [bareStatement, bind_of_ok _ (kind?_ofKinds ks), hk]
  exact bind_of_ok _ (start_ofKinds ks)

theorem statement_ofKinds (n : Nat) (ks : List TokenKind) :
    statement n (.ofKinds ks) = (bareStatement n >>= ending 0) (.ofKinds ks) :=
  bind_of_ok _ (start_ofKinds ks)

theorem Both.afterBinding (x : Ident × Expr) (hs : Prepared b rest 1 n m ks ls) :
    Both b rest (ks.length + 1) (Parse.afterBinding n 0 x) (Parse.afterBinding m 0 x) ks ls := by
  refine Both.atKeyword hs.respelled .kwIn (fun _ => ?_) fun _ => ?_
  · refine Both.bind ((agreeAt b rest n m).localLet 0 x.1 x.2 hs) ?_
    exact fun e ks₁ ls₁ h₁ _ hlen₁ => Both.pure _ h₁ (by omega)
  · exact Both.pure _ hs.respelled (Nat.lt_succ_self _)

theorem Both.ending (stmt : Span → Stmt) (h : Respelled b rest ks ls) :
    Both b rest (ks.length + 1) (Parse.ending 0 stmt) (Parse.ending 0 stmt) ks ls := by
  have hdone : ∀ ks' ls', Respelled b rest ks' ls' → ks'.length ≤ ks.length →
      Both b rest (ks.length + 1) (do return stmt (← spanFrom 0)) (do return stmt (← spanFrom 0))
        ks' ls' :=
    fun ks' ls' h' hlen => Both.spanFrom (Both.pure _ h' (Nat.lt_succ_of_le hlen))
  refine Both.kind? h ?_
  split
  · exact Both.bind (Both.expect h .semiSemi) fun _ ks₁ ls₁ h₁ hlen₁ _ => hdone ks₁ ls₁ h₁ hlen₁
  · exact hdone ks ls h le_rfl

theorem Both.bareStatement (hs : Prepared b rest 6 n m ks ls) :
    Both b rest (ks.length + 1) (Parse.bareStatement n) (Parse.bareStatement m) ks ls := by
  have hsteps := hs.steps
  have hsteps' := hs.steps'
  have hnext : ∀ {c : Nat} {ks' ls' : List TokenKind}, Respelled b rest ks' ls' →
      8 * ks'.length + c ≤ 8 * ks.length + 6 → Prepared b rest c n m ks' ls' :=
    fun h hc => ⟨h, by omega, by omega⟩
  have hexpr : Both b rest (ks.length + 1) (do return Stmt.expr (← sequence n))
      (do return Stmt.expr (← sequence m)) ks ls := by
    refine Both.bind ((agreeAt b rest n m).sequence (hnext hs.respelled (by omega))) ?_
    exact fun e ks₁ ls₁ h₁ _ hlen₁ => Both.pure _ h₁ (by omega)
  refine Both.kind? hs.respelled ?_
  cases hk : ks.head? with
  | none => exact hexpr
  | some k =>
    cases k with
    | keyword k =>
      cases k with
      | kwContract =>
        refine Both.bind (Both.expectKeyword hs.respelled (by simp)) fun _ ks₁ ls₁ h₁ _ hlen₁ => ?_
        refine Both.bind (Both.identifier h₁) fun name ks₂ ls₂ h₂ _ hlen₂ => ?_
        refine Both.bind (Both.expect h₂ .eq) fun _ ks₃ ls₃ h₃ _ hlen₃ => ?_
        refine Both.bind ((agreeContractAt b rest n m).contract (hnext h₃ (by omega))) ?_
        exact fun c ks₄ ls₄ h₄ _ hlen₄ => Both.pure _ h₄ (by omega)
      | kwLet =>
        refine Both.start ?_
        refine Both.bind ((agreeAt b rest n m).binding (hnext hs.respelled (by omega))) ?_
        intro x ks₁ ls₁ h₁ _ hlen₁
        exact (Both.afterBinding x (hnext h₁ (by omega))).mono (by omega)
      | _ => exact hexpr
    | _ => exact hexpr

/-- The parser of statements does the same on respelled texts. -/
theorem Both.statement (hs : Prepared b rest 6 n m ks ls) :
    Both b rest (ks.length + 1) (Parse.statement n) (Parse.statement m) ks ls := by
  refine Both.start (Both.bind (Both.bareStatement hs) fun stmt ks₁ ls₁ h₁ _ hlen₁ => ?_)
  exact (Both.ending stmt h₁).mono (by omega)

end Statements

end Parse

end ContractML
