import ContractML.Proofs.FunctionBindings
import ContractML.Proofs.Terminators

/-!
# What a parser takes

A parser looks at one token ahead. So what it reads depends on the tokens that it takes and on the
first one after them, and on this one only as far as it makes the parser go on. A closing
parenthesis or a terminator makes no parser of expressions go on, and neither does the end of the
input: before any of them the same tokens are read as the same expression. The last token of an
expression is a literal, a name or a closing parenthesis.

Two runs of a parser go side by side again, with what follows replaced in the second one. The second
run may have more steps, so a success does not depend on their number.

## Main definitions

* `Parse.Stops` — tokens before which all parsers of expressions stop.
* `Parse.Complete` — tokens that end as expressions do.
* `Parse.Takes` — what a run takes, and that another one does the same before other tokens.

## Main results

* `Parse.takesAt` — the parsers of expressions look at one token ahead.
* `Parse.accepts_of_expression`, `Parse.accepts_of_sequence` — **what follows an expression can be
  replaced**.
-/

namespace ContractML

theorem Stream.ofKinds_inj {ks ls : List TokenKind} (h : ofKinds ks = ofKinds ls) : ks = ls := by
  have hkinds := congrArg (fun s => s.tokens.map Token.kind) h
  simpa only [kinds_ofKinds] using hkinds

namespace Parse

variable {α β γ : Type} {P Q R : List TokenKind → Prop} {x y : Parse α} {f g : α → Parse β}
  {ks ms us vs : List TokenKind} {k : TokenKind}

/-! ### Tokens that are left, and tokens that are taken -/

/-- Nothing is left, or a closing parenthesis or a terminator comes first. -/
def Stops (ms : List TokenKind) : Prop :=
  ∀ k ∈ ms.head?, k = .symbol .rparen ∨ k = .symbol .semiSemi

/-- Neither an operator nor an argument comes first. -/
structure Idle (ms : List TokenKind) : Prop where
  operator : ms.head?.bind Operator.ofKind? = none
  atom : (ms.head?.map TokenKind.startsAtom).getD false = false

theorem Stops.idle (h : Stops ms) : Idle ms := by
  cases hk : ms.head? with
  | none => exact ⟨by rw [hk]; rfl, by rw [hk]; rfl⟩
  | some k => rcases h k hk with rfl | rfl <;> exact ⟨by rw [hk]; rfl, by rw [hk]; rfl⟩

/-- No other token comes first. -/
theorem Stops.ne (h : Stops ms) (hparen : k ≠ .symbol .rparen) (hterm : k ≠ .symbol .semiSemi) :
    ms.head? ≠ some k := by
  intro hk
  rcases h k hk with rfl | rfl
  · exact hparen rfl
  · exact hterm rfl

theorem Stops.rparen (ms : List TokenKind) : Stops (.symbol .rparen :: ms) := by
  intro k hk
  exact .inl (Option.some.inj hk).symm

theorem Stops.semiSemi (ms : List TokenKind) : Stops (.symbol .semiSemi :: ms) := by
  intro k hk
  exact .inr (Option.some.inj hk).symm

/-- The tokens end as an expression does. -/
def Complete (us : List TokenKind) : Prop := ∃ k, us.getLast? = some k ∧ k.endsExpr = true

/-- There are no tokens, or they end as an expression does. -/
def Tail (us : List TokenKind) : Prop := us = [] ∨ Complete us

theorem Complete.ne_nil (h : Complete us) : us ≠ [] := by
  rintro rfl
  obtain ⟨k, hk, -⟩ := h
  cases hk

theorem Complete.after (us : List TokenKind) (h : Complete vs) : Complete (us ++ vs) := by
  obtain ⟨k, hk, hends⟩ := h
  exact ⟨k, by rw [List.getLast?_append, hk]; rfl, hends⟩

theorem Complete.append (hus : Complete us) (hvs : Tail vs) : Complete (us ++ vs) := by
  rcases hvs with rfl | hvs
  · rwa [List.append_nil]
  · exact hvs.after us

/-! ### Two runs, with what follows replaced -/

/-- If `x` succeeds on the tokens, then those that it takes have the property, and `y` takes the
same ones with the same result before all tokens that begin alike, or before which nothing goes
on. -/
def Takes (P : List TokenKind → Prop) (x y : Parse α) (ks : List TokenKind) : Prop :=
  ∀ a t, x (.ofKinds ks) = .ok a t → ∃ us ms, ks = us ++ ms ∧ t = .ofKinds ms ∧ P us ∧
    ∀ ms', ms'.head? = ms.head? ∨ Stops ms' → y (.ofKinds (us ++ ms')) = .ok a (.ofKinds ms')

namespace Takes

theorem mono (h : Takes P x y ks) (hP : ∀ us, P us → Q us) : Takes Q x y ks := by
  intro a t hrun
  obtain ⟨us, ms, hks, ht, hus, hsame⟩ := h a t hrun
  exact ⟨us, ms, hks, ht, hP us hus, hsame⟩

protected theorem pure (a : α) : Takes (· = []) (pure a) (pure a) ks := by
  intro b t h
  cases h
  exact ⟨[], ks, rfl, rfl, rfl, fun _ _ => rfl⟩

theorem error {e : SyntaxError} {t : Stream} (h : x (.ofKinds ks) = .error e t) :
    Takes P x y ks := by
  intro a t ha
  rw [h] at ha
  cases ha

/-- A parser that finds nothing to go on with. -/
theorem still {a : α} (hx : x (.ofKinds ks) = .ok a (.ofKinds ks))
    (hy : ∀ ms, ms.head? = ks.head? ∨ Stops ms → y (.ofKinds ms) = .ok a (.ofKinds ms)) :
    Takes Tail x y ks := by
  intro b t h
  rw [hx] at h
  cases h
  exact ⟨[], ks, rfl, rfl, .inl rfl, hy⟩

/-- The parsers that go on start where the first ones stopped. -/
protected theorem bind (hx : Takes P x y ks) (hf : ∀ a ms, Takes Q (f a) (g a) ms)
    (hR : ∀ us vs, P us → Q vs → R (us ++ vs)) : Takes R (x >>= f) (y >>= g) ks := by
  intro b t h
  obtain ⟨a, u, ha, hb⟩ := Gives.bind_eq_ok h
  obtain ⟨us, ms, rfl, rfl, hus, hsame⟩ := hx a u ha
  obtain ⟨vs, ms, rfl, rfl, hvs, hsame'⟩ := hf a ms b t hb
  refine ⟨us ++ vs, ms, (List.append_assoc us vs ms).symm, rfl, hR us vs hus hvs, ?_⟩
  intro ms' hms'
  -- what follows the first part begins alike, unless the second part has taken nothing
  have hfirst : (vs ++ ms').head? = (vs ++ ms).head? ∨ Stops (vs ++ ms') := by
    cases vs with
    | nil => exact hms'
    | cons k vs => exact .inl rfl
  rw [List.append_assoc, bind_of_ok g (hsame _ hfirst)]
  exact hsame' ms' hms'

theorem before (hx : Takes P x y ks) (hf : ∀ a ms, Takes Complete (f a) (g a) ms) :
    Takes Complete (x >>= f) (y >>= g) ks :=
  hx.bind hf fun us _ _ hvs => hvs.after us

theorem followed (hx : Takes Complete x y ks) (hf : ∀ a ms, Takes Tail (f a) (g a) ms) :
    Takes Complete (x >>= f) (y >>= g) ks :=
  hx.bind hf fun _ _ hus hvs => hus.append hvs

theorem finish (hx : Takes P x y ks) (hf : ∀ a ms, Takes (· = []) (f a) (g a) ms) :
    Takes P (x >>= f) (y >>= g) ks := by
  refine hx.bind hf fun us vs hus hvs => ?_
  rw [hvs, List.append_nil]
  exact hus

/-! Steps that only look at the tokens -/

/-- A step that tells nothing about the tokens. -/
theorem silent {z : Parse γ} {c : γ} {f g : γ → Parse β}
    (hz : ∀ ks, z (.ofKinds ks) = .ok c (.ofKinds ks)) (h : Takes P (f c) (g c) ks) :
    Takes P (z >>= f) (z >>= g) ks := by
  intro b t hrun
  rw [bind_of_ok f (hz ks)] at hrun
  obtain ⟨us, ms, hks, ht, hus, hsame⟩ := h b t hrun
  refine ⟨us, ms, hks, ht, hus, fun ms' hms' => ?_⟩
  rw [bind_of_ok g (hz _)]
  exact hsame ms' hms'

protected theorem start {f g : Nat → Parse β} (h : Takes P (f 0) (g 0) ks) :
    Takes P (start >>= f) (start >>= g) ks :=
  silent start_ofKinds h

protected theorem spanFrom {start : Nat} {f g : Span → Parse β}
    (h : Takes P (f ⟨start, 0⟩) (g ⟨start, 0⟩) ks) :
    Takes P (spanFrom start >>= f) (spanFrom start >>= g) ks :=
  silent (fun _ => rfl) h

/-- A step that looks at the first token, before a parser that takes it. -/
theorem look {z : Parse γ} (view : Option TokenKind → γ) {f g : γ → Parse β}
    (hz : ∀ ks, z (.ofKinds ks) = .ok (view ks.head?) (.ofKinds ks))
    (h : Takes Complete (f (view ks.head?)) (g (view ks.head?)) ks) :
    Takes Complete (z >>= f) (z >>= g) ks := by
  intro b t hrun
  rw [bind_of_ok f (hz ks)] at hrun
  obtain ⟨us, ms, rfl, ht, hus, hsame⟩ := h b t hrun
  refine ⟨us, ms, rfl, ht, hus, fun ms' hms' => ?_⟩
  obtain ⟨k, us, rfl⟩ := List.exists_cons_of_ne_nil hus.ne_nil
  rw [bind_of_ok g (hz _)]
  exact hsame ms' hms'

/-! Steps that take tokens -/

protected theorem advance (k : TokenKind) (ks : List TokenKind) :
    Takes (· = [k]) advance advance (k :: ks) := by
  intro a t h
  cases h
  exact ⟨[k], ks, rfl, rfl, rfl, fun _ _ => rfl⟩

/-- A parser that takes a certain token. -/
theorem token {x : Parse Unit} (hyes : ∀ ks, x (.ofKinds (k :: ks)) = .ok () (.ofKinds ks))
    (hno : ∀ ks, ks.head? ≠ some k → ∀ t, x (.ofKinds ks) ≠ .ok () t) : Takes (· = [k]) x x ks := by
  intro a t h
  have hk : ks.head? = some k := by
    by_contra hk
    exact hno ks hk t h
  obtain ⟨ks, rfl⟩ := List.head?_eq_some_iff.mp hk
  rw [hyes] at h
  cases h
  exact ⟨[k], ks, rfl, rfl, rfl, fun ms' _ => hyes ms'⟩

theorem unexpected_ne_ok (wanted : Expectation) (s t : Stream) (a : α) :
    (unexpected wanted : Parse α) s ≠ .ok a t := by
  intro h
  exact Gives.unexpected (P := fun _ => False) wanted s a t h

protected theorem expect (s : Symbol) : Takes (· = [.symbol s]) (expect s) (expect s) ks := by
  refine token (expect_ofKinds s) fun ks hk t => ?_
  have hno : (ks.head? == some (.symbol s)) = false := beq_eq_false_iff_ne.mpr hk
  rw [expect, bind_of_ok _ (atSymbol_ofKinds s ks), hno]
  exact unexpected_ne_ok _ _ _ _

protected theorem expectKeyword (w : Keyword) :
    Takes (· = [.keyword w]) (expectKeyword w) (expectKeyword w) ks := by
  refine token (expectKeyword_ofKinds w) fun ks hk t => ?_
  have hno : (ks.head? == some (.keyword w)) = false := beq_eq_false_iff_ne.mpr hk
  rw [expectKeyword, bind_of_ok _ (atKeyword_ofKinds w ks), hno]
  exact unexpected_ne_ok _ _ _ _

protected theorem identifier : Takes (fun _ => True) identifier identifier ks := by
  intro a t h
  cases ks with
  | nil => cases h
  | cons k ks =>
    cases k with
    | ident name =>
      cases h
      exact ⟨[.ident name], ks, rfl, rfl, trivial, fun _ _ => rfl⟩
    | _ => cases h

theorem exists_names (ks : List TokenKind) :
    ∃ (xs : List String) (ms : List TokenKind), ks = xs.map .ident ++ ms ∧
      ∀ x, ms.head? ≠ some (.ident x) := by
  induction ks with
  | nil => exact ⟨[], [], rfl, by simp⟩
  | cons k ks ih =>
    by_cases hk : ∃ x, k = .ident x
    · obtain ⟨x, rfl⟩ := hk
      obtain ⟨xs, ms, rfl, hms⟩ := ih
      exact ⟨x :: xs, ms, rfl, hms⟩
    · refine ⟨[], k :: ks, rfl, fun x hx => hk ⟨x, ?_⟩⟩
      exact Option.some.inj hx

protected theorem identifiers : Takes (fun _ => True) identifiers identifiers ks := by
  intro a t h
  obtain ⟨xs, ms, rfl, hms⟩ := exists_names ks
  rw [identifiers_ofKinds xs hms] at h
  cases h
  refine ⟨xs.map .ident, ms, rfl, rfl, trivial, fun ms' hms' => identifiers_ofKinds xs ?_⟩
  rcases hms' with hms' | hms'
  · rwa [hms']
  · exact fun x => hms'.ne (by simp) (by simp)

end Takes

/-! ### Operators and arguments that are not there, and atoms -/

theorem operators_of_lt (n : Nat) (left : Expr) {level : Nat} {s : Stream}
    (h : ∀ o ∈ s.kind?.bind Operator.ofKind?, o.level < level) :
    operators (n + 1) left level s = .ok left s := by
  cases ho : s.kind?.bind Operator.ofKind? with
  | none => exact operators_of_none n left level ho
  | some o =>
    rw [operators, Follows.kind?_bind_apply, ho]
    exact congrFun (if_pos (h o ho)) s

theorem arguments_of_none (n : Nat) (acc : List Expr) {s : Stream}
    (h : (s.kind?.map TokenKind.startsAtom).getD false = false) :
    arguments (n + 1) acc s = .ok acc.reverse s := by
  rw [arguments, Follows.kind?_bind_apply, h]
  rfl

/-- An atom without parentheses is one token. -/
theorem atom_cases (k : TokenKind) (hk : k ≠ .symbol .lparen) :
    (∃ e, k.endsExpr = true ∧
        ∀ n ks, atom (n + 1) (.ofKinds (k :: ks)) = .ok e (.ofKinds ks)) ∨
      ∀ n ks, ∃ e t, atom (n + 1) (.ofKinds (k :: ks)) = .error e t := by
  cases k with
  | int v => exact .inl ⟨.lit (.int v) .nowhere, rfl, fun _ _ => rfl⟩
  | float v => exact .inl ⟨.lit (.float v) .nowhere, rfl, fun _ _ => rfl⟩
  | char v => exact .inl ⟨.lit (.char v) .nowhere, rfl, fun _ _ => rfl⟩
  | str v => exact .inl ⟨.lit (.str v) .nowhere, rfl, fun _ _ => rfl⟩
  | ident name => exact .inl ⟨.var ⟨name, .nowhere⟩, rfl, fun _ _ => rfl⟩
  | faulty fault => exact .inr fun _ _ => ⟨_, _, rfl⟩
  | keyword k =>
    cases k with
    | kwTrue => exact .inl ⟨.lit (.bool true) .nowhere, rfl, fun _ _ => rfl⟩
    | kwFalse => exact .inl ⟨.lit (.bool false) .nowhere, rfl, fun _ _ => rfl⟩
    | _ => exact .inr fun _ _ => ⟨_, _, rfl⟩
  | symbol s =>
    cases s with
    | lparen => exact absurd rfl hk
    | _ => exact .inr fun _ _ => ⟨_, _, rfl⟩

/-- Reads what stands in parentheses, after the first one. -/
def enclosed (n : Nat) : Parse Expr := do
  let inner ← sequence n
  expect .rparen
  return inner

theorem atom_lparen (n : Nat) (ks : List TokenKind) :
    atom (n + 1) (.ofKinds (.symbol .lparen :: ks)) = enclosed n (.ofKinds ks) := rfl

/-! ### Parsers of expressions -/

/-- The run with `n` steps takes what the run with `m` steps takes. -/
structure TakesAt (n m : Nat) : Prop where
  sequence : ∀ ks, Takes Complete (sequence n) (sequence m) ks
  sequenceTail : ∀ acc ks, Takes Tail (sequenceTail n acc) (sequenceTail m acc) ks
  expression : ∀ level ks, Takes Complete (expression n level) (expression m level) ks
  operators : ∀ left level ks, Takes Tail (operators n left level) (operators m left level) ks
  operand : ∀ ks, Takes Complete (operand n) (operand m) ks
  unary : ∀ op k ks, Takes Complete (unary n op) (unary m op) (k :: ks)
  binding : ∀ ks, Takes Complete (binding n) (binding m) ks
  localLet : ∀ start name value ks,
    Takes Complete (localLet n start name value) (localLet m start name value) ks
  lambda : ∀ ks, Takes Complete (lambda n) (lambda m) ks
  conditional : ∀ ks, Takes Complete (conditional n) (conditional m) ks
  application : ∀ ks, Takes Complete (application n) (application m) ks
  arguments : ∀ acc ks, Takes Tail (arguments n acc) (arguments m acc) ks
  atom : ∀ ks, Takes Complete (atom n) (atom m) ks

namespace TakesAt

variable {n m : Nat}

theorem sequence_succ (h : TakesAt n m) (ks : List TokenKind) :
    Takes Complete (Parse.sequence (n + 1)) (Parse.sequence (m + 1)) ks := by
  refine Takes.start ((h.expression 0 ks).followed fun first ms => ?_)
  refine (h.sequenceTail [] ms).finish fun others us => ?_
  cases others with
  | nil => exact Takes.pure _
  | cons e es => exact Takes.spanFrom (Takes.pure _)

theorem sequenceTail_succ (h : TakesAt n m) (acc : List Expr) (ks : List TokenKind) :
    Takes Tail (Parse.sequenceTail (n + 1) acc) (Parse.sequenceTail (m + 1) acc) ks := by
  by_cases hk : ks.head? = some (.symbol .semi)
  · obtain ⟨ks, rfl⟩ := List.head?_eq_some_iff.mp hk
    refine (Takes.look (· == _) (atSymbol_ofKinds .semi) ?_).mono fun _ => .inr
    refine (Takes.advance _ ks).before fun _ ms => ?_
    exact (h.expression 0 ms).followed fun e us => h.sequenceTail (e :: acc) us
  · refine Takes.still (sequenceTail_of_ne n acc ?_) fun ms hms => sequenceTail_of_ne m acc ?_
    · rwa [Stream.kind?_ofKinds]
    · rw [Stream.kind?_ofKinds]
      rcases hms with hms | hms
      · rwa [hms]
      · exact hms.ne (by simp) (by simp)

theorem expression_succ (h : TakesAt n m) (level : Nat) (ks : List TokenKind) :
    Takes Complete (Parse.expression (n + 1) level) (Parse.expression (m + 1) level) ks :=
  (h.operand ks).followed fun left ms => h.operators left level ms

theorem operators_succ (h : TakesAt n m) (left : Expr) (level : Nat) (ks : List TokenKind) :
    Takes Tail (Parse.operators (n + 1) left level) (Parse.operators (m + 1) left level) ks := by
  by_cases ho : ∃ o, ks.head?.bind Operator.ofKind? = some o ∧ level ≤ o.level
  · obtain ⟨o, ho, hlevel⟩ := ho
    obtain ⟨k, hk, hko⟩ := Option.bind_eq_some_iff.mp ho
    obtain ⟨ks, rfl⟩ := List.head?_eq_some_iff.mp hk
    refine (Takes.look id kind?_ofKinds ?_).mono fun _ => .inr
    simp only [id_eq, List.head?_cons, Option.bind_some, hko, if_neg (Nat.not_lt.mpr hlevel)]
    refine (Takes.advance k ks).before fun _ ms => ?_
    exact (h.expression o.rightLevel ms).followed fun right us => h.operators _ level us
  · have hks : ∀ o ∈ ks.head?.bind Operator.ofKind?, o.level < level := by
      intro o hko
      exact Nat.lt_of_not_le fun hlevel => ho ⟨o, hko, hlevel⟩
    refine Takes.still (operators_of_lt n left ?_) fun ms hms => operators_of_lt m left ?_
    · rwa [Stream.kind?_ofKinds]
    · rw [Stream.kind?_ofKinds]
      rcases hms with hms | hms
      · rwa [hms]
      · rw [hms.idle.operator]
        exact fun _ h => nomatch h

theorem operand_succ (h : TakesAt n m) (ks : List TokenKind) :
    Takes Complete (Parse.operand (n + 1)) (Parse.operand (m + 1)) ks := by
  have happ := h.application ks
  refine Takes.look id kind?_ofKinds ?_
  cases ks with
  | nil => exact happ
  | cons k ks =>
    cases k with
    | symbol s =>
      cases s with
      | minus => exact h.unary .neg _ ks
      | _ => exact happ
    | keyword w =>
      cases w with
      | kwNot => exact h.unary .not _ ks
      | kwLet =>
        refine Takes.start ((h.binding _).before fun x ms => ?_)
        exact h.localLet 0 x.1 x.2 ms
      | kwFun => exact h.lambda _
      | kwIf => exact h.conditional _
      | _ => exact happ
    | _ => exact happ

theorem unary_succ (h : TakesAt n m) (op : UnaryOp) (k : TokenKind) (ks : List TokenKind) :
    Takes Complete (Parse.unary (n + 1) op) (Parse.unary (m + 1) op) (k :: ks) := by
  refine Takes.start ((Takes.advance k ks).before fun _ ms => ?_)
  refine (h.expression Operator.unaryLevel ms).finish fun e us => ?_
  exact Takes.spanFrom (Takes.pure _)

theorem binding_succ (h : TakesAt n m) (ks : List TokenKind) :
    Takes Complete (Parse.binding (n + 1)) (Parse.binding (m + 1)) ks := by
  refine (Takes.expectKeyword .kwLet).before fun _ _ => ?_
  refine Takes.identifier.before fun name _ => Takes.identifiers.before fun params _ => ?_
  refine (Takes.expect .eq).before fun _ ms => Takes.start ?_
  refine (h.sequence ms).finish fun value us => ?_
  intro a t hrun
  cases hrun
  exact ⟨[], us, rfl, rfl, rfl, fun _ _ => rfl⟩

theorem localLet_succ (h : TakesAt n m) (start : Nat) (name : Ident) (value : Expr)
    (ks : List TokenKind) :
    Takes Complete (Parse.localLet (n + 1) start name value)
      (Parse.localLet (m + 1) start name value) ks := by
  refine (Takes.expectKeyword .kwIn).before fun _ ms => ?_
  exact (h.sequence ms).finish fun body us => Takes.spanFrom (Takes.pure _)

theorem lambda_succ (h : TakesAt n m) (ks : List TokenKind) :
    Takes Complete (Parse.lambda (n + 1)) (Parse.lambda (m + 1)) ks := by
  refine Takes.start ((Takes.expectKeyword .kwFun).before fun _ _ => ?_)
  refine Takes.identifier.before fun first _ => Takes.identifiers.before fun others _ => ?_
  refine (Takes.expect .arrow).before fun _ ms => ?_
  exact (h.sequence ms).finish fun body us => Takes.spanFrom (Takes.pure _)

theorem conditional_succ (h : TakesAt n m) (ks : List TokenKind) :
    Takes Complete (Parse.conditional (n + 1)) (Parse.conditional (m + 1)) ks := by
  refine Takes.start ((Takes.expectKeyword .kwIf).before fun _ ms => ?_)
  refine (h.expression 0 ms).before fun test _ => ?_
  refine (Takes.expectKeyword .kwThen).before fun _ ms => ?_
  refine (h.expression 0 ms).before fun yes _ => ?_
  refine (Takes.expectKeyword .kwElse).before fun _ ms => ?_
  exact (h.expression 0 ms).finish fun no us => Takes.spanFrom (Takes.pure _)

theorem application_succ (h : TakesAt n m) (ks : List TokenKind) :
    Takes Complete (Parse.application (n + 1)) (Parse.application (m + 1)) ks := by
  refine (h.atom ks).followed fun callee ms => ?_
  refine (h.arguments [] ms).finish fun args us => ?_
  cases args with
  | nil => exact Takes.pure _
  | cons e es => exact Takes.spanFrom (Takes.pure _)

theorem arguments_succ (h : TakesAt n m) (acc : List Expr) (ks : List TokenKind) :
    Takes Tail (Parse.arguments (n + 1) acc) (Parse.arguments (m + 1) acc) ks := by
  by_cases hk : (ks.head?.map TokenKind.startsAtom).getD false = true
  · refine (Takes.look id kind?_ofKinds ?_).mono fun _ => .inr
    simp only [id_eq, hk, if_true]
    exact (h.atom ks).followed fun e us => h.arguments (e :: acc) us
  · refine Takes.still (arguments_of_none n acc ?_) fun ms hms => arguments_of_none m acc ?_
    · rwa [Stream.kind?_ofKinds, ← Bool.not_eq_true]
    · rw [Stream.kind?_ofKinds]
      rcases hms with hms | hms
      · rwa [hms, ← Bool.not_eq_true]
      · exact hms.idle.atom

theorem atom_succ (h : TakesAt n m) (ks : List TokenKind) :
    Takes Complete (Parse.atom (n + 1)) (Parse.atom (m + 1)) ks := by
  cases ks with
  | nil => exact Takes.error rfl
  | cons k ks =>
    by_cases hk : k = .symbol .lparen
    · subst hk
      intro e t hrun
      rw [atom_lparen] at hrun
      have hinner : Takes Complete (enclosed n) (enclosed m) ks := by
        refine (h.sequence ks).before fun inner ms => ?_
        refine ((Takes.expect .rparen).finish fun _ us => Takes.pure inner).mono ?_
        rintro _ rfl
        exact ⟨_, rfl, rfl⟩
      obtain ⟨us, ms, rfl, rfl, hus, hsame⟩ := hinner e t hrun
      exact ⟨.symbol .lparen :: us, ms, rfl, rfl, hus.after [_], hsame⟩
    · rcases atom_cases k hk with ⟨e, hends, hatom⟩ | herror
      · intro a t hrun
        rw [hatom] at hrun
        cases hrun
        exact ⟨[k], ks, rfl, rfl, ⟨k, rfl, hends⟩, fun ms' _ => hatom m ms'⟩
      · obtain ⟨e, t, he⟩ := herror n ks
        exact Takes.error he

/-- Without steps nothing is read. -/
theorem zero (m : Nat) : TakesAt 0 m := by
  constructor
  all_goals
    intros
    exact Takes.error rfl

theorem succ (h : TakesAt n m) : TakesAt (n + 1) (m + 1) where
  sequence := h.sequence_succ
  sequenceTail := h.sequenceTail_succ
  expression := h.expression_succ
  operators := h.operators_succ
  operand := h.operand_succ
  unary := h.unary_succ
  binding := h.binding_succ
  localLet := h.localLet_succ
  lambda := h.lambda_succ
  conditional := h.conditional_succ
  application := h.application_succ
  arguments := h.arguments_succ
  atom := h.atom_succ

end TakesAt

/-- **The parsers of expressions look at one token ahead**, with as many steps or more. -/
theorem takesAt {n m : Nat} (h : n ≤ m) : TakesAt n m := by
  induction n generalizing m with
  | zero => exact .zero m
  | succ n ih =>
    obtain ⟨m, rfl⟩ := Nat.exists_eq_add_of_le' (Nat.le_trans (Nat.le_add_left 1 n) h)
    exact .succ (ih (Nat.le_of_succ_le_succ h))

/-! ### What follows can be replaced -/

/-- What a run takes is accepted, whatever follows it. -/
theorem accepts_of_takes {p : Nat → Parse α} {n : Nat} {a : α} {t : Stream}
    (h : ∀ m, n ≤ m → Takes P (p n) (p m) ks) (hrun : p n (.ofKinds ks) = .ok a t) :
    ∃ us ms, ks = us ++ ms ∧ t = .ofKinds ms ∧ P us ∧
      ∀ ms', ms'.head? = ms.head? ∨ Stops ms' → Accepts p (us ++ ms') a ms' := by
  obtain ⟨us, ms, rfl, rfl, hus, -⟩ := h n (Nat.le_refl n) a t hrun
  refine ⟨us, ms, rfl, rfl, hus, fun ms' hms' => ?_⟩
  filter_upwards [Filter.eventually_ge_atTop n] with m hm
  obtain ⟨us', ms₁, hsplit, hms₁, -, hsame⟩ := h m hm a _ hrun
  obtain rfl := Stream.ofKinds_inj hms₁
  obtain rfl := List.append_cancel_right hsplit
  exact hsame ms' hms'

theorem accepts_of_expression {n level : Nat} {e : Expr} {t : Stream}
    (h : expression n level (.ofKinds ks) = .ok e t) :
    ∃ us ms, ks = us ++ ms ∧ t = .ofKinds ms ∧ Complete us ∧
      ∀ ms', ms'.head? = ms.head? ∨ Stops ms' → Accepts (expression · level) (us ++ ms') e ms' :=
  accepts_of_takes (p := (expression · level)) (fun _ hm => (takesAt hm).expression level ks) h

theorem accepts_of_sequence {n : Nat} {e : Expr} {t : Stream}
    (h : sequence n (.ofKinds ks) = .ok e t) :
    ∃ us ms, ks = us ++ ms ∧ t = .ofKinds ms ∧ Complete us ∧
      ∀ ms', ms'.head? = ms.head? ∨ Stops ms' → Accepts sequence (us ++ ms') e ms' :=
  accepts_of_takes (fun _ hm => (takesAt hm).sequence ks) h

end Parse

end ContractML
