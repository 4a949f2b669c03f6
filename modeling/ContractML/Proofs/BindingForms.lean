import ContractML.Proofs.Acceptance
import ContractML.Proofs.Parsed

/-!
# The two forms of a binding of a function

A binding with parameters, `let f x y = …`, is another way to write the binding of a function,
`let f = fun x y -> …`. The parameters of the short form belong to the binding, which reads the body
itself. In the long form the body belongs to an operand, after which the operators and the further
expressions of a sequence are looked for. There are none: the body is a sequence itself, and a
sequence ends only where no operator and no semicolon follows. So both forms read the same body from
the same tokens.

## Main definitions

* `Parse.Ends` — nothing that is at hand continues a sequence.
* `FunctionBinding` — the head of a binding with parameters, with its two forms.

## Main results

* `Parse.Ends.of_sequence` — **a sequence takes every operator and every semicolon after it**.
* `Parse.binding_short`, `Parse.binding_long` — **both forms are read alike**.
-/

namespace ContractML

namespace Parse

open Follows (bind_apply kind?_bind_apply)

variable {s t : Stream}

/-! ### Where a sequence ends -/

/-- Nothing that is at hand continues a sequence: neither an operator nor a semicolon. -/
structure Ends (s : Stream) : Prop where
  operator : s.kind?.bind Operator.ofKind? = none
  semicolon : s.kind? ≠ some (.symbol .semi)

theorem operators_of_none (n : Nat) (left : Expr) (level : Nat)
    (h : s.kind?.bind Operator.ofKind? = none) :
    operators (n + 1) left level s = .ok left s := by
  rw [operators, kind?_bind_apply, h]
  rfl

theorem sequenceTail_of_ne (n : Nat) (acc : List Expr) (h : s.kind? ≠ some (.symbol .semi)) :
    sequenceTail (n + 1) acc s = .ok acc.reverse s := by
  obtain ⟨more, hmore, hrun⟩ := Follows.atSymbol_apply .semi s
  obtain rfl : more = false := Bool.eq_false_iff.mpr fun hyes => h (hmore.mp hyes)
  rw [sequenceTail, bind_apply, hrun s rfl]
  rfl

/-- Operators of the lowest level are read as long as there are any. -/
theorem operator_of_operators {n : Nat} {left e : Expr} (h : operators n left 0 s = .ok e t) :
    t.kind?.bind Operator.ofKind? = none := by
  induction n generalizing left s with
  | zero => cases h
  | succ n ih =>
    cases ho : s.kind?.bind Operator.ofKind? with
    | none =>
      rw [operators_of_none n left 0 ho] at h
      cases h
      exact ho
    | some o =>
      rw [operators, kind?_bind_apply, ho] at h
      obtain ⟨_, _, -, h⟩ := Gives.bind_eq_ok h
      obtain ⟨right, u, -, h⟩ := Gives.bind_eq_ok h
      exact ih h

theorem operator_of_expression {n : Nat} {e : Expr} (h : expression n 0 s = .ok e t) :
    t.kind?.bind Operator.ofKind? = none := by
  cases n with
  | zero => cases h
  | succ n =>
    rw [expression] at h
    obtain ⟨left, u, -, h⟩ := Gives.bind_eq_ok h
    exact operator_of_operators h

theorem Ends.of_sequenceTail {n : Nat} {acc es : List Expr}
    (hs : s.kind?.bind Operator.ofKind? = none) (h : sequenceTail n acc s = .ok es t) :
    Ends t := by
  induction n generalizing acc s with
  | zero => cases h
  | succ n ih =>
    by_cases hk : s.kind? = some (.symbol .semi)
    · obtain ⟨more, hmore, hrun⟩ := Follows.atSymbol_apply .semi s
      obtain rfl : more = true := hmore.mpr hk
      rw [sequenceTail, bind_apply, hrun s rfl] at h
      obtain ⟨_, _, -, h⟩ := Gives.bind_eq_ok h
      obtain ⟨e, u, he, h⟩ := Gives.bind_eq_ok h
      exact ih (operator_of_expression he) h
    · rw [sequenceTail_of_ne n acc hk] at h
      cases h
      exact ⟨hs, hk⟩

/-- **A sequence takes every operator and every semicolon after it.** -/
theorem Ends.of_sequence {n : Nat} {e : Expr} (h : sequence n s = .ok e t) : Ends t := by
  cases n with
  | zero => cases h
  | succ n =>
    rw [sequence] at h
    obtain ⟨_, _, -, h⟩ := Gives.bind_eq_ok h
    obtain ⟨first, u, hfirst, h⟩ := Gives.bind_eq_ok h
    obtain ⟨others, v, hothers, h⟩ := Gives.bind_eq_ok h
    have hends : Ends v := .of_sequenceTail (operator_of_expression hfirst) hothers
    cases others with
    | nil =>
      cases h
      exact hends
    | cons e es =>
      cases h
      exact hends

end Parse

/-! ### The two forms -/

/-- The head of a binding with parameters: the name, and one parameter or more. -/
structure FunctionBinding where
  name : String
  first : String
  others : List String

namespace FunctionBinding

variable (b : FunctionBinding)

/-- The tokens `let f x y =`. -/
def short : List TokenKind :=
  .keyword .kwLet :: .ident b.name :: ((b.first :: b.others).map .ident ++ [.symbol .eq])

/-- The tokens `fun x y ->`. -/
def header : List TokenKind :=
  .keyword .kwFun :: ((b.first :: b.others).map .ident ++ [.symbol .arrow])

/-- The tokens `let f = fun x y ->`. -/
def long : List TokenKind :=
  .keyword .kwLet :: .ident b.name :: .symbol .eq :: b.header

theorem length_short_append (rest : List TokenKind) :
    rest.length + 4 ≤ (b.short ++ rest).length := by
  simp only [short, List.cons_append, List.append_assoc, List.length_cons, List.length_append,
    List.length_map, List.length_nil]
  omega

theorem length_long : b.long.length = b.short.length + 2 := by
  simp [long, short, header]

/-- The function with the parameters. -/
def function (body : Expr) (span : Span) : Expr :=
  .lambda ((b.first :: b.others).map (⟨·, .nowhere⟩)) body span

/-- Reads the body of the function, which begins with the token at hand. -/
def readFunction (n : Nat) : Parse Expr := do
  let body ← Parse.sequence n
  return b.function body (← Parse.spanFrom 0)

/-- Reads the body, after the head. -/
def read (n : Nat) : Parse (Ident × Expr) := do
  return (⟨b.name, .nowhere⟩, ← b.readFunction n)

end FunctionBinding

namespace Parse

variable {α β : Type} {s t : Stream}

theorem bind_of_ok {x : Parse α} {a : α} (f : α → Parse β) (h : x s = .ok a t) :
    (x >>= f) s = f a t := by
  rw [Follows.bind_apply, h]

theorem bind_of_error {x : Parse α} {e : SyntaxError} (f : α → Parse β) (h : x s = .error e t) :
    (x >>= f) s = .error e t := by
  rw [Follows.bind_apply, h]

theorem readFunction_of_ok {b : FunctionBinding} {n : Nat} {body : Expr}
    (h : sequence n s = .ok body t) :
    b.readFunction n s = .ok (b.function body ⟨0, t.lastStop⟩) t :=
  bind_of_ok _ h

theorem readFunction_of_error {b : FunctionBinding} {n : Nat} {e : SyntaxError}
    (h : sequence n s = .error e t) : b.readFunction n s = .error e t :=
  bind_of_error _ h

variable (b : FunctionBinding) (rest : List TokenKind)

/-- In the short form the binding reads the body. -/
theorem binding_short (n : Nat) :
    binding (n + 1) (.ofKinds (b.short ++ rest)) = b.read n (.ofKinds rest) := by
  have heq : ∀ x, (TokenKind.symbol .eq :: rest).head? ≠ some (.ident x) := by simp
  have hparams := identifiers_ofKinds (b.first :: b.others) heq
  have hkinds : b.short ++ rest = .keyword .kwLet :: .ident b.name ::
      ((b.first :: b.others).map .ident ++ .symbol .eq :: rest) := by
    simp [FunctionBinding.short]
  rw [hkinds, binding, bind_of_ok _ (expectKeyword_ofKinds _ _),
    bind_of_ok _ (identifier_ofKinds _ _), bind_of_ok _ hparams, bind_of_ok _ (expect_ofKinds _ _),
    bind_of_ok _ (start_ofKinds _), FunctionBinding.read]
  cases hbody : sequence n (.ofKinds rest) with
  | ok body u =>
    rw [bind_of_ok _ hbody, bind_of_ok _ (readFunction_of_ok hbody)]
    rfl
  | error e u => rw [bind_of_error _ hbody, bind_of_error _ (readFunction_of_error hbody)]

/-- A function reads its body as an operand. -/
theorem lambda_header (n : Nat) :
    lambda (n + 1) (.ofKinds (b.header ++ rest)) = b.readFunction n (.ofKinds rest) := by
  have harrow : ∀ x, (TokenKind.symbol .arrow :: rest).head? ≠ some (.ident x) := by simp
  have hothers := identifiers_ofKinds b.others harrow
  have hkinds : b.header ++ rest =
      .keyword .kwFun :: .ident b.first :: (b.others.map .ident ++ .symbol .arrow :: rest) := by
    simp [FunctionBinding.header]
  rw [hkinds, lambda, bind_of_ok _ (start_ofKinds _), bind_of_ok _ (expectKeyword_ofKinds _ _),
    bind_of_ok _ (identifier_ofKinds _ _), bind_of_ok _ hothers, bind_of_ok _ (expect_ofKinds _ _)]
  rfl

/-- A function is a whole sequence: its body leaves no operator and no semicolon. -/
theorem sequence_header (n : Nat) :
    sequence (n + 4) (.ofKinds (b.header ++ rest)) = b.readFunction n (.ofKinds rest) := by
  have hoperand : operand (n + 2) (.ofKinds (b.header ++ rest)) =
      b.readFunction n (.ofKinds rest) := lambda_header b rest n
  rw [sequence, bind_of_ok _ (start_ofKinds _), expression]
  cases hbody : sequence n (.ofKinds rest) with
  | error e u =>
    rw [readFunction_of_error hbody] at hoperand ⊢
    rw [bind_of_error _ (bind_of_error _ hoperand)]
  | ok body u =>
    -- The operators and the sequence around the function find nothing to go on with.
    have hends := Ends.of_sequence hbody
    rw [readFunction_of_ok hbody] at hoperand ⊢
    have hfirst := bind_of_ok (fun left => operators (n + 2) left 0) hoperand
    rw [operators_of_none _ _ _ hends.operator] at hfirst
    rw [bind_of_ok _ hfirst, bind_of_ok _ (sequenceTail_of_ne _ _ hends.semicolon)]
    rfl

/-- In the long form the binding reads a sequence, which is the function. -/
theorem binding_long (n : Nat) :
    binding (n + 5) (.ofKinds (b.long ++ rest)) = b.read n (.ofKinds rest) := by
  have heq : ∀ x, (TokenKind.symbol .eq :: (b.header ++ rest)).head? ≠ some (.ident x) := by simp
  have hparams : identifiers (.ofKinds (.symbol .eq :: (b.header ++ rest))) =
      .ok [] (.ofKinds (.symbol .eq :: (b.header ++ rest))) := identifiers_ofKinds [] heq
  have hkinds : b.long ++ rest =
      .keyword .kwLet :: .ident b.name :: .symbol .eq :: (b.header ++ rest) := by
    simp [FunctionBinding.long]
  have hfunction := sequence_header b rest n
  rw [hkinds, binding, bind_of_ok _ (expectKeyword_ofKinds _ _),
    bind_of_ok _ (identifier_ofKinds _ _), bind_of_ok _ hparams, bind_of_ok _ (expect_ofKinds _ _),
    bind_of_ok _ (start_ofKinds _), FunctionBinding.read]
  cases hbody : b.readFunction n (.ofKinds rest) with
  | ok value u =>
    rw [hbody] at hfunction
    rw [bind_of_ok _ hfunction, bind_of_ok _ hbody]
    rfl
  | error e u =>
    rw [hbody] at hfunction
    rw [bind_of_error _ hfunction, bind_of_error _ hbody]

end Parse

end ContractML
