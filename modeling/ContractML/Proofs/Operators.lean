import ContractML.Eval.Expr

/-!
# Operators, primitive functions and closures

Operators and primitive functions make no closures, check no contracts and look up no names: what
they give is a primitive value, and what they raise is a routine fault. An operator other than the
two that compare by identity takes no closure either, and a primitive function depends only on those
of its arguments that are primitive values.

The faults that single steps of the evaluator raise are listed once, with the values that they are
raised about and the place they are raised at. A primitive function knows no place.

## Main definitions

* `Value.isClosure`, `Fault.isViolation` — the two kinds that need an argument of their own.
* `Value.prim?` — the primitive type of a primitive value.
* `Fault.isRoutine` — a fault that is neither a violation nor an unbound name.
* `Fault.Arises` — the faults that single steps raise.
* `Stepwise`, `Elementary` — what operators give and raise.
* `Primitive.Misses`, `Primitive.Reads` — what primitive functions raise, and what they depend on.

## Main results

* `UnaryOp.stepwise_eval`, `BinaryOp.stepwise_eval` — the outcomes of operators.
* `Fault.Arises.span?_eq`, `Fault.Arises.isRoutine` — what arises has a place and is routine.
* `BinaryOp.operands_of_eval_eq_ok` — which operators take no closures.
* `Primitive.reads_run_of_ne`, `Primitive.reads_run` — what primitive functions give, raise and
  depend on.
-/

namespace ContractML

/-- Whether a value is a closure. -/
def Value.isClosure : Value → Bool
  | .closure _ => true
  | _ => false

/-- Whether a fault is the violation of a contract. -/
def Fault.isViolation (f : Fault) : Bool :=
  match f.cause with
  | .contractViolation _ _ _ => true
  | _ => false

/-- Whether a fault is neither the violation of a contract nor an unbound name. -/
def Fault.isRoutine (f : Fault) : Bool :=
  match f.cause with
  | .contractViolation _ _ _ => false
  | .unboundName _ => false
  | _ => true

theorem Fault.isViolation_of_isRoutine {f : Fault} (h : f.isRoutine = true) :
    f.isViolation = false := by
  obtain ⟨cause, span?⟩ := f
  cases cause with
  | contractViolation party label value => cases h
  | _ => rfl

/-- Whether an operator compares by identity. -/
def BinaryOp.isIdentity : BinaryOp → Bool
  | .same => true
  | .differs => true
  | _ => false

theorem Literal.isClosure_toValue (l : Literal) : l.toValue.isClosure = false := by
  cases l <;> rfl

/-- The primitive type of a primitive value. -/
def Value.prim? : Value → Option PrimTy
  | .int _ => some .int
  | .float _ => some .float
  | .bool _ => some .bool
  | .char _ => some .char
  | .str _ => some .string
  | .closure _ => none

/-! ### What single steps raise -/

/-- The faults that single steps of the evaluator raise at a place, about values with the
property `V`. -/
inductive Fault.Arises (V : Value → Prop) (span : Span) : Fault → Prop
  /-- A value of a certain primitive type was expected. -/
  | primitive {p : PrimTy} {v : Value} (hv : V v) (h : v.prim? ≠ some p) :
    Arises V span (.mismatch (.prim p) v.type span)
  /-- Two operands of a certain primitive type were expected. -/
  | operand {p : PrimTy} {l r : Value} (hl : V l) (hr : V r)
      (h : ¬(l.prim? = some p ∧ r.prim? = some p)) : Arises V span (.operand (.prim p) l r span)
  /-- Two operands of one primitive type were expected. -/
  | operands {l r : Value} (hl : V l) (hr : V r) (h : l.prim? ≠ r.prim?) :
    Arises V span (.mismatch l.type r.type span)
  /-- An argument of another type was expected. -/
  | argument {t : Ty} {v : Value} (h : t.accepts v.type = false) :
    Arises V span (.mismatch t v.type span)
  /-- A closure of one argument was expected. -/
  | predicate {v : Value} (hv : V v) (h : ∀ c, v = .closure c → c.arity ≠ 1) :
    Arises V span (.mismatch predicateType v.type span)
  /-- Another number of arguments was expected. -/
  | arity (expected found : Nat) : Arises V span ⟨.arity expected found, some span⟩
  /-- A closure was expected. -/
  | notCallable (t : Ty) : Arises V span ⟨.notCallable t, some span⟩
  /-- Closures were compared. -/
  | functionalComparison : Arises V span ⟨.functionalComparison, some span⟩
  /-- The divisor is zero. -/
  | divisionByZero : Arises V span ⟨.divisionByZero, some span⟩

theorem Fault.Arises.span?_eq {V : Value → Prop} {span : Span} {f : Fault}
    (h : Fault.Arises V span f) : f.span? = some span := by
  cases h <;> rfl

theorem Fault.Arises.isRoutine {V : Value → Prop} {span : Span} {f : Fault}
    (h : Fault.Arises V span f) : f.isRoutine = true := by
  cases h <;> rfl

/-- An outcome of one step: a primitive value, or a fault that arises at the place. -/
def Stepwise (V : Value → Prop) (span : Span) : Except Fault Value → Prop
  | .ok v => v.isClosure = false
  | .error f => Fault.Arises V span f

/-- An outcome without closures, contracts and names: a primitive value, or a routine fault. -/
def Elementary : Except Fault Value → Prop
  | .ok v => v.isClosure = false
  | .error f => f.isRoutine = true

theorem Stepwise.elementary {V : Value → Prop} {span : Span} {r : Except Fault Value}
    (h : Stepwise V span r) : Elementary r := by
  cases r with
  | ok v => exact h
  | error f => exact Fault.Arises.isRoutine h

/-! ### Operators -/

theorem UnaryOp.stepwise_eval {V : Value → Prop} {v : Value} (hv : V v) (op : UnaryOp)
    (span : Span) : Stepwise V span (op.eval v span) := by
  unfold UnaryOp.eval
  split
  · rfl
  · rfl
  · rfl
  · exact .primitive hv (by cases v <;> simp_all [Value.prim?])
  · exact .primitive hv (by cases v <;> simp_all [Value.prim?])

theorem UnaryOp.elementary_eval (op : UnaryOp) (v : Value) (span : Span) :
    Elementary (op.eval v span) :=
  (op.stepwise_eval (V := fun _ => True) trivial span).elementary

/-- No operator of one operand takes a closure. -/
theorem UnaryOp.operand_of_eval_eq_ok {op : UnaryOp} {v r : Value} {span : Span}
    (h : op.eval v span = .ok r) : v.isClosure = false := by
  cases v with
  | closure c => cases op <;> cases h
  | _ => rfl

section Operands

variable {V : Value → Prop} {l r : Value}

theorem stepwise_onInts {f : Int64 → Int64 → Except Fault Int64} {span : Span}
    (hf : ∀ a b e, f a b = .error e → Fault.Arises V span e) (hl : V l) (hr : V r) :
    Stepwise V span (onInts f l r span) := by
  unfold onInts
  split
  next a b =>
    cases hab : f a b with
    | ok n => rfl
    | error e => exact hf a b e hab
  next hne =>
    refine .operand hl hr ?_
    rintro ⟨hl', hr'⟩
    cases l <;> cases hl'
    cases r <;> cases hr'
    exact hne _ _ rfl rfl

theorem stepwise_onFloats (f : Float → Float → Float) (span : Span) (hl : V l) (hr : V r) :
    Stepwise V span (onFloats f l r span) := by
  unfold onFloats
  split
  next => rfl
  next hne =>
    refine .operand hl hr ?_
    rintro ⟨hl', hr'⟩
    cases l <;> cases hl'
    cases r <;> cases hr'
    exact hne _ _ rfl rfl

theorem stepwise_onStrings (f : String → String → String) (span : Span) (hl : V l) (hr : V r) :
    Stepwise V span (onStrings f l r span) := by
  unfold onStrings
  split
  next => rfl
  next hne =>
    refine .operand hl hr ?_
    rintro ⟨hl', hr'⟩
    cases l <;> cases hl'
    cases r <;> cases hr'
    exact hne _ _ rfl rfl

theorem stepwise_onOrder (holds : Option Ordering → Bool) (span : Span) (hl : V l) (hr : V r) :
    Stepwise V span (onOrder holds l r span) := by
  unfold onOrder Value.compare
  split
  -- The last two rules of the comparison are the ones that refuse: two closures, and two types.
  case h_6 => exact .functionalComparison
  case h_7 =>
    refine .operands hl hr ?_
    cases l <;> cases r <;> simp_all [Value.prim?]
  all_goals rfl

theorem stepwise_map_same (f : Bool → Bool) (span : Span) (hl : V l) (hr : V r) :
    Stepwise V span ((l.same r span).map fun b => .bool (f b)) := by
  unfold Value.same
  split
  case h_7 =>
    refine .operands hl hr ?_
    cases l <;> cases r <;> simp_all [Value.prim?]
  all_goals rfl

theorem BinaryOp.stepwise_eval (op : BinaryOp) (span : Span) (hl : V l) (hr : V r) :
    Stepwise V span (op.eval l r span) := by
  -- Only the two divisions can fail on integers.
  have hok : ∀ (f : Int64 → Int64 → Int64) (a b : Int64) (e : Fault),
      Except.ok (f a b) = Except.error e → Fault.Arises V span e := by
    intro f a b e h
    cases h
  have hdiv : ∀ (f : Int64 → Int64 → Int64) (a b : Int64) (e : Fault),
      (if b = 0 then .error ⟨.divisionByZero, some span⟩ else .ok (f a b)) = Except.error e →
        Fault.Arises V span e := by
    intro f a b e h
    split at h
    · cases h
      exact .divisionByZero
    · cases h
  cases op with
  | add | sub | mul => exact stepwise_onInts (hok _) hl hr
  | div | mod => exact stepwise_onInts (hdiv _) hl hr
  | fadd | fsub | fmul | fdiv | pow => exact stepwise_onFloats _ span hl hr
  | concat => exact stepwise_onStrings _ span hl hr
  | lt | le | gt | ge | eq | ne => exact stepwise_onOrder _ span hl hr
  | same => exact stepwise_map_same id span hl hr
  | differs => exact stepwise_map_same not span hl hr

end Operands

theorem BinaryOp.elementary_eval (op : BinaryOp) (l r : Value) (span : Span) :
    Elementary (op.eval l r span) :=
  (op.stepwise_eval (V := fun _ => True) span trivial trivial).elementary

/-- An operator that does not compare by identity takes no closure. -/
theorem BinaryOp.operands_of_eval_eq_ok {op : BinaryOp} {l r v : Value} {span : Span}
    (hop : op.isIdentity = false) (h : op.eval l r span = .ok v) :
    l.isClosure = false ∧ r.isClosure = false := by
  cases l with
  | closure c =>
    cases op with
    | same | differs => cases hop
    | _ => cases r <;> cases h
  | _ =>
    cases r with
    | closure c =>
      cases op with
      | same | differs => cases hop
      | _ => cases h
    | _ => exact ⟨rfl, rfl⟩

/-! ### Primitive functions -/

namespace Primitive

/-- The primitive values among some arguments stand in the same places of others. -/
def Agree (args args' : List Value) : Prop :=
  ∀ (i : Nat) v, args[i]? = some v → v.isClosure = false → args'[i]? = some v

/-- The fault of an argument that is missing or has another primitive type than was expected. -/
def Misses (args : List Value) (f : Fault) : Prop :=
  ∃ p found, f = mismatch (.prim p) found ∧ ∀ v ∈ found, v ∈ args ∧ v.prim? ≠ some p

theorem Misses.isRoutine {args : List Value} {f : Fault} (h : Misses args f) :
    f.isRoutine = true := by
  obtain ⟨p, found, rfl, -⟩ := h
  rfl

/-- A function of the arguments that gives what has the property `P`, raises faults about its
arguments, and depends only on primitive values. -/
structure Reads {α : Type} (get : List Value → Except Fault α) (P : α → Prop) : Prop where
  /-- What it gives has the property. -/
  value : ∀ args a, get args = .ok a → P a
  /-- What it raises is about an argument. -/
  fault : ∀ args f, get args = .error f → Misses args f
  /-- Arguments with the same primitive values give the same. -/
  agree : ∀ args args' a, Agree args args' → get args = .ok a → get args' = .ok a

namespace Reads

variable {α β : Type} {P : α → Prop} {Q : β → Prop}

protected theorem pure {a : α} (h : P a) : Reads (fun _ => pure a) P where
  value _ b hb := by
    cases hb
    exact h
  fault _ f hf := by cases hf
  agree _ _ _ _ hb := hb

protected theorem bind {get : List Value → Except Fault α} {k : α → List Value → Except Fault β}
    (hget : Reads get P) (hk : ∀ a, P a → Reads (k a) Q) :
    Reads (fun args => get args >>= fun a => k a args) Q where
  value args b hb := by
    cases ha : get args with
    | error f =>
      rw [ha] at hb
      cases hb
    | ok a =>
      rw [ha] at hb
      exact (hk a (hget.value args a ha)).value args b hb
  fault args f hf := by
    cases ha : get args with
    | error g =>
      rw [ha] at hf
      cases hf
      exact hget.fault args f ha
    | ok a =>
      rw [ha] at hf
      exact (hk a (hget.value args a ha)).fault args f hf
  agree args args' b hargs hb := by
    cases ha : get args with
    | error f =>
      rw [ha] at hb
      cases hb
    | ok a =>
      rw [ha] at hb
      -- The first part gives the same value, so the second part is the same function in both.
      rw [hget.agree args args' a hargs ha]
      exact (hk a (hget.value args a ha)).agree args args' b hargs hb

theorem intArg (i : Nat) : Reads (intArg · i) fun _ => True where
  value _ _ _ := trivial
  fault args f hf := by
    unfold Primitive.intArg at hf
    split at hf
    next => cases hf
    next hne =>
      cases hf
      refine ⟨.int, args[i]?, rfl, fun v hv => ⟨List.mem_of_getElem? hv, fun hp => ?_⟩⟩
      cases v <;> cases hp
      exact hne _ hv
  agree args args' n hargs hn := by
    unfold Primitive.intArg at hn
    split at hn
    · rename_i m hm
      cases hn
      simp only [Primitive.intArg, hargs i _ hm rfl]
    · cases hn

theorem floatArg (i : Nat) : Reads (floatArg · i) fun _ => True where
  value _ _ _ := trivial
  fault args f hf := by
    unfold Primitive.floatArg at hf
    split at hf
    next => cases hf
    next hne =>
      cases hf
      refine ⟨.float, args[i]?, rfl, fun v hv => ⟨List.mem_of_getElem? hv, fun hp => ?_⟩⟩
      cases v <;> cases hp
      exact hne _ hv
  agree args args' x hargs hx := by
    unfold Primitive.floatArg at hx
    split at hx
    · rename_i y hy
      cases hx
      simp only [Primitive.floatArg, hargs i _ hy rfl]
    · cases hx

theorem strArg (i : Nat) : Reads (strArg · i) fun _ => True where
  value _ _ _ := trivial
  fault args f hf := by
    unfold Primitive.strArg at hf
    split at hf
    next => cases hf
    next hne =>
      cases hf
      refine ⟨.string, args[i]?, rfl, fun v hv => ⟨List.mem_of_getElem? hv, fun hp => ?_⟩⟩
      cases v <;> cases hp
      exact hne _ hv
  agree args args' s hargs hs := by
    unfold Primitive.strArg at hs
    split at hs
    · rename_i t ht
      cases hs
      simp only [Primitive.strArg, hargs i _ ht rfl]
    · cases hs

end Reads

/-- A primitive function that is not the embedding program's gives primitive values, raises faults
about its arguments, and depends only on the primitive values among them. -/
theorem reads_run_of_ne [Host] (p : Primitive) (h : ∀ code, p ≠ .host code) :
    Reads p.run fun v => v.isClosure = false := by
  cases p with
  | any => exact Reads.pure rfl
  | positive | negative | zero | floatOfInt =>
    exact (Reads.intArg 0).bind fun _ _ => Reads.pure rfl
  | length => exact (Reads.strArg 0).bind fun _ _ => Reads.pure rfl
  | toInt | round | sqrt | exp | cos | cosh =>
    exact (Reads.floatArg 0).bind fun _ _ => Reads.pure rfl
  | hypot =>
    refine (Reads.floatArg 0).bind fun _ _ => ?_
    exact (Reads.floatArg 1).bind fun _ _ => Reads.pure rfl
  | host code => exact absurd rfl (h code)

/-- In a program that brings no functions along, this holds of all primitive functions. -/
theorem reads_run (p : Primitive) : Reads p.run fun v => v.isClosure = false := by
  cases p with
  | host code => exact Reads.pure rfl
  | _ => exact reads_run_of_ne _ nofun

end Primitive

end ContractML
