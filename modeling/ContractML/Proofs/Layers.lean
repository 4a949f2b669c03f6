import ContractML.Eval.Apply
import ContractML.Proofs.Logic

/-!
# Stacks of wrappers

Every reference to a name with a function contract puts one more wrapper around a closure, so a
closure can have any number of them. Here the wrappers check predicates only: the contracts of all
arguments and of the result are base contracts.

A call of such a closure is a list of checks, then a call of the closure in the middle on the same
arguments, then a second list of checks. The first list goes through the layers from the outside
in and has the arguments from left to right; the second goes from the inside out and has the
result. A check is one call of a predicate, and the first check that does not give true decides
the outcome.

## Main definitions

* `Flat`, `Layer`, `Closure.layered` — base contracts, wrappers made of them, and closures under a
  stack of wrappers.
* `Check`, `Check.run`, `Check.runAll` — checks, one by one and in order.
* `Layer.before`, `Layer.after` — the checks of a stack before and after the call in the middle.
* `Check.Pass` — all checks of a list give true.

## Main results

* `Closure.applyWith_layered` — a call as the two lists of checks around the call in the middle.
* `Closure.layered_checks_in_order` — **when a call under a stack of wrappers succeeds, and which
  party a false predicate is blamed on**.
-/

namespace ContractML

/-! ### Layers -/

/-- A base contract. -/
structure Flat where
  /-- The predicate. -/
  predicate : Closure
  /-- How the contract is written. -/
  label : String
  deriving Inhabited

/-- The contract itself. -/
def Flat.contract (f : Flat) : Contract := .base f.predicate f.label

/-- A wrapper for closures of `arity` arguments by a function contract of base contracts. -/
structure Layer (arity : Nat) where
  /-- The identity of the wrapper. -/
  id : Nat
  /-- The contracts of the arguments. -/
  domain : List Flat
  /-- The contract of the result. -/
  range : Flat
  /-- Who is to blame for a bad result. -/
  pos : String
  /-- Who is to blame for a bad argument. -/
  neg : String
  /-- Every argument has a contract. -/
  fits : domain.length = arity

/-- The closure inside one more wrapper. -/
def Layer.wrap {arity : Nat} (l : Layer arity) (inner : Closure) : Closure :=
  .monitored l.id inner (l.domain.map Flat.contract) l.range.contract l.pos l.neg

/-- The closure under a stack of wrappers, of which the first is the outermost. -/
def Closure.layered (core : Closure) {arity : Nat} (layers : List (Layer arity)) : Closure :=
  layers.foldr Layer.wrap core

@[simp] theorem Closure.layered_nil (core : Closure) {arity : Nat} :
    core.layered ([] : List (Layer arity)) = core := rfl

@[simp] theorem Closure.layered_cons (core : Closure) {arity : Nat} (l : Layer arity)
    (layers : List (Layer arity)) :
    core.layered (l :: layers) = l.wrap (core.layered layers) := rfl

/-- Wrappers do not change the number of arguments. -/
@[simp] theorem Closure.arity_layered (core : Closure) {arity : Nat} (layers : List (Layer arity)) :
    (core.layered layers).arity = core.arity := by
  induction layers with
  | nil => rfl
  | cons l layers ih => rw [Closure.layered_cons, Layer.wrap, Closure.arity, ih]

/-! ### Checks -/

/-- A value to be tried by a predicate. -/
structure Check where
  /-- The predicate. -/
  predicate : Closure
  /-- How the contract of the predicate is written. -/
  label : String
  /-- Who is to blame if the predicate is false. -/
  party : String
  /-- The value. -/
  value : Value
  deriving Inhabited

namespace Check

variable (call : CallUser) (span : Span)

/-- Makes a check: the predicate is called, and everything but true fails. -/
def run (k : Check) : Eval Unit := do
  match ← k.predicate.applyWith call [k.value] span with
  | .bool true => return ()
  | .bool false => throw (Contract.violation k.label k.party k.value span)
  | other => throw (.mismatch .bool other.type span)

/-- Makes checks in order, up to the first that fails. -/
def runAll : List Check → Eval Unit
  | [] => pure ()
  | k :: ks => do
    k.run call span
    runAll ks

/-- The checks, made in order from the counters `c`, all give true and leave the counters `d`. -/
def Pass : List Check → Counters → Counters → Prop
  | [], c, d => c = d
  | k :: ks, c, d => ∃ e, k.predicate.applyWith call [k.value] span c = .ok (.bool true) e ∧
      Pass ks e d

variable {call span}

theorem runAll_append (ks ls : List Check) :
    runAll call span (ks ++ ls) = (runAll call span ks >>= fun _ => runAll call span ls) := by
  induction ks with
  | nil => rw [List.nil_append, runAll, pure_bind]
  | cons k ks ih => rw [List.cons_append, runAll, runAll, ih, bind_assoc]

/-- A check succeeds exactly if its predicate gives true. -/
theorem run_eq_ok_iff {k : Check} {c d : Counters} :
    k.run call span c = .ok () d ↔
      k.predicate.applyWith call [k.value] span c = .ok (.bool true) d := by
  rw [run, Eval.bind_eq_ok_iff]
  constructor
  · rintro ⟨v, e, hv, hd⟩
    -- Every other value is an error, of a false check or of a predicate that gives no truth value.
    match v, hd with
    | .bool true, hd =>
      cases hd
      exact hv
    | .bool false, hd => cases hd
    | .int _, hd => cases hd
    | .float _, hd => cases hd
    | .char _, hd => cases hd
    | .str _, hd => cases hd
    | .closure _, hd => cases hd
  · intro h
    exact ⟨.bool true, d, h, rfl⟩

/-- Checks succeed exactly if all their predicates give true. -/
theorem runAll_eq_ok_iff {ks : List Check} {c d : Counters} :
    runAll call span ks c = .ok () d ↔ Pass call span ks c d := by
  induction ks generalizing c with
  | nil =>
    rw [runAll, Pass, Eval.pure_apply]
    constructor
    · intro h
      cases h
      rfl
    · rintro rfl
      rfl
  | cons k ks ih =>
    rw [runAll, Pass, Eval.bind_eq_ok_iff]
    constructor
    · rintro ⟨_, e, hk, hks⟩
      exact ⟨e, run_eq_ok_iff.mp hk, ih.mp hks⟩
    · rintro ⟨e, hk, hks⟩
      exact ⟨(), e, run_eq_ok_iff.mpr hk, ih.mpr hks⟩

/-- The first predicate that gives false stops the checks with a violation. -/
theorem runAll_of_false {done rest : List Check} {k : Check} {c d e : Counters}
    (hdone : Pass call span done c d)
    (hk : k.predicate.applyWith call [k.value] span d = .ok (.bool false) e) :
    runAll call span (done ++ k :: rest) c =
      .error (Contract.violation k.label k.party k.value span) e := by
  have hrun : k.run call span d = .error (Contract.violation k.label k.party k.value span) e := by
    rw [run, Eval.bind_of_ok hk]
    rfl
  rw [runAll_append, Eval.bind_of_ok (runAll_eq_ok_iff.mpr hdone), runAll,
    Eval.bind_of_error hrun]

end Check

/-! ### The checks of a stack -/

namespace Layer

variable {arity : Nat}

/-- The checks of the arguments; a bad one is blamed on the user. -/
def domainChecks (l : Layer arity) (args : List Value) : List Check :=
  l.domain.zipWith (fun f v => ⟨f.predicate, f.label, l.neg, v⟩) args

/-- The check of the result; a bad one is blamed on the supplier. -/
def rangeCheck (l : Layer arity) (v : Value) : Check :=
  ⟨l.range.predicate, l.range.label, l.pos, v⟩

/-- The checks before the call in the middle: layers from the outside in, arguments from left to
right. -/
def before (layers : List (Layer arity)) (args : List Value) : List Check :=
  layers.flatMap fun l => l.domainChecks args

/-- The checks after the call in the middle: layers from the inside out. -/
def after (layers : List (Layer arity)) (v : Value) : List Check :=
  layers.reverse.map fun l => l.rangeCheck v

end Layer

/-- Enforcing a base contract is one check, after which the value is given back. -/
theorem Flat.enforceWith_contract (call : CallUser) (f : Flat) (v : Value) (pos neg : String)
    (span : Span) :
    f.contract.enforceWith call v pos neg span = do
      Check.run call span ⟨f.predicate, f.label, pos, v⟩
      return v := by
  rw [Flat.contract, Contract.enforceWith, Check.run, bind_assoc]
  refine bind_congr fun w => ?_
  match w with
  | .bool true => rfl
  | .bool false => rfl
  | .int _ => rfl
  | .float _ => rfl
  | .char _ => rfl
  | .str _ => rfl
  | .closure _ => rfl

/-- Enforcing base contracts on as many values is a list of checks, after which the values are
given back. -/
theorem Flat.enforceAllWith_contract (call : CallUser) (pos neg : String) (span : Span) :
    ∀ (fs : List Flat) (vs : List Value), fs.length = vs.length →
      Contract.enforceAllWith call (fs.map Flat.contract) vs pos neg span = do
        Check.runAll call span (fs.zipWith (fun f v => ⟨f.predicate, f.label, pos, v⟩) vs)
        return vs := by
  intro fs
  induction fs with
  | nil =>
    intro vs h
    rw [List.length_nil, eq_comm, List.length_eq_zero_iff] at h
    subst h
    rfl
  | cons f fs ih =>
    intro vs h
    cases vs with
    | nil => simp at h
    | cons v vs =>
      rw [List.map_cons, Contract.enforceAllWith, Flat.enforceWith_contract,
        ih vs (Nat.succ.inj h), List.zipWith_cons_cons, Check.runAll]
      simp only [bind_assoc, pure_bind]

/-- **A call under a stack of wrappers** is the checks of the arguments, a call of the closure in
the middle on the same arguments, and the checks of the result. -/
theorem Closure.applyWith_layered (call : CallUser) (core : Closure)
    (layers : List (Layer core.arity)) (args : List Value) (hargs : args.length = core.arity)
    (span : Span) :
    (core.layered layers).applyWith call args span = do
      Check.runAll call span (Layer.before layers args)
      let v ← core.applyWith call args span
      Check.runAll call span (Layer.after layers v)
      return v := by
  induction layers with
  | nil =>
    simp only [Layer.before, Layer.after, List.flatMap_nil, List.reverse_nil, List.map_nil,
      Check.runAll, pure_bind, bind_pure]
    rfl
  | cons l layers ih =>
    -- The outermost layer makes the first checks of the arguments and the last one of the result.
    have hlen : l.domain.length = args.length := by rw [l.fits, hargs]
    have harity : Eval.checkArity (core.layered layers).arity args.length span = pure () := by
      rw [Closure.arity_layered, Eval.checkArity, if_pos hargs]
    have hbefore : Layer.before (l :: layers) args =
        l.domainChecks args ++ Layer.before layers args := List.flatMap_cons
    have hafter : ∀ v, Layer.after (l :: layers) v = Layer.after layers v ++ [l.rangeCheck v] := by
      intro v
      rw [Layer.after, List.reverse_cons, List.map_append]
      rfl
    rw [Closure.layered_cons, Layer.wrap, Closure.applyWith, harity, pure_bind,
      Flat.enforceAllWith_contract call l.neg l.pos span l.domain args hlen, bind_assoc,
      hbefore, Check.runAll_append, bind_assoc]
    -- The layers inside make their checks by the induction hypothesis.
    refine bind_congr fun _ => ?_
    rw [pure_bind, ih, bind_assoc]
    refine bind_congr fun _ => ?_
    rw [bind_assoc]
    refine bind_congr fun v => ?_
    rw [bind_assoc, hafter, Check.runAll_append, bind_assoc]
    refine bind_congr fun _ => ?_
    rw [pure_bind, Flat.enforceWith_contract, Check.runAll, bind_assoc]
    rfl

/-- **Calls under a stack of wrappers.** A call makes the checks of the arguments, calls the closure
in the middle on the same arguments, and makes the checks of the result, in this order. It gives a
value exactly if every predicate gives true and the closure in the middle gives that value. If the
first check that is not true gives false, the call fails at once: the fault has the label of the
check, the rejected value, and the party of the check, which is the user of the layer for an
argument and its supplier for the result. -/
theorem Closure.layered_checks_in_order (call : CallUser) (core : Closure)
    (layers : List (Layer core.arity)) (args : List Value) (hargs : args.length = core.arity)
    (span : Span) :
    ((core.layered layers).applyWith call args span = do
      Check.runAll call span (Layer.before layers args)
      let v ← core.applyWith call args span
      Check.runAll call span (Layer.after layers v)
      return v) ∧
    (∀ c v d, (core.layered layers).applyWith call args span c = .ok v d ↔
      ∃ c₁ c₂, Check.Pass call span (Layer.before layers args) c c₁ ∧
        core.applyWith call args span c₁ = .ok v c₂ ∧
        Check.Pass call span (Layer.after layers v) c₂ d) ∧
    (∀ c c₁ d done k rest, Layer.before layers args = done ++ k :: rest →
      Check.Pass call span done c c₁ →
      k.predicate.applyWith call [k.value] span c₁ = .ok (.bool false) d →
      (core.layered layers).applyWith call args span c =
        .error (Contract.violation k.label k.party k.value span) d) ∧
    (∀ c c₁ c₂ c₃ d v done k rest, Check.Pass call span (Layer.before layers args) c c₁ →
      core.applyWith call args span c₁ = .ok v c₂ →
      Layer.after layers v = done ++ k :: rest → Check.Pass call span done c₂ c₃ →
      k.predicate.applyWith call [k.value] span c₃ = .ok (.bool false) d →
      (core.layered layers).applyWith call args span c =
        .error (Contract.violation k.label k.party k.value span) d) := by
  -- Everything is read off the call written as its checks.
  have hcall := Closure.applyWith_layered call core layers args hargs span
  refine ⟨hcall, ?_, ?_, ?_⟩
  · intro c v d
    rw [hcall]
    simp only [Eval.bind_eq_ok_iff]
    constructor
    · rintro ⟨_, c₁, hbefore, w, c₂, hcore, _, c₃, hafter, hv⟩
      rw [Eval.pure_apply] at hv
      cases hv
      exact ⟨c₁, c₂, Check.runAll_eq_ok_iff.mp hbefore, hcore, Check.runAll_eq_ok_iff.mp hafter⟩
    · rintro ⟨c₁, c₂, hbefore, hcore, hafter⟩
      exact ⟨(), c₁, Check.runAll_eq_ok_iff.mpr hbefore, v, c₂, hcore, (), d,
        Check.runAll_eq_ok_iff.mpr hafter, rfl⟩
  · intro c c₁ d done k rest hbefore hdone hk
    rw [hcall, hbefore, Eval.bind_of_error (Check.runAll_of_false hdone hk)]
  · intro c c₁ c₂ c₃ d v done k rest hbefore hcore hafter hdone hk
    rw [hcall, Eval.bind_of_ok (Check.runAll_eq_ok_iff.mpr hbefore), Eval.bind_of_ok hcore, hafter,
      Eval.bind_of_error (Check.runAll_of_false hdone hk)]

/-- Under two wrappers a negative number passes the outer one, which asks for anything, and is
rejected by the inner one, which asks for a positive number and blames its own user. -/
theorem Closure.layered_checks_in_order_two_layers :
    let any : Closure := .native 0 "any" (.fn [.var 0] .bool) .any
    let positive : Closure := .native 1 "positive" (.fn [.int] .bool) .positive
    let call : CallUser := fun _ _ _ _ => throw ⟨.callDepthExceeded, none⟩
    let layers : List (Layer positive.arity) :=
      [⟨2, [⟨any, "any"⟩], ⟨any, "any"⟩, "f", "g", rfl⟩,
        ⟨3, [⟨positive, "positive"⟩], ⟨any, "any"⟩, "p", "q", rfl⟩]
    [Value.int (-1)].length = positive.arity ∧
      (positive.layered layers).applyWith call [.int (-1)] Span.nowhere ⟨4, 0⟩ =
        .error (Contract.violation "positive" "q" (.int (-1)) Span.nowhere) ⟨4, 0⟩ := by
  intro any positive call layers
  refine ⟨rfl, ?_⟩
  obtain ⟨-, -, hdomain, -⟩ :=
    Closure.layered_checks_in_order call positive layers [.int (-1)] rfl Span.nowhere
  -- The check of the outer layer is made first and succeeds.
  exact hdomain ⟨4, 0⟩ ⟨4, 0⟩ ⟨4, 0⟩ [⟨any, "any", "g", .int (-1)⟩]
    ⟨positive, "positive", "q", .int (-1)⟩ [] rfl ⟨⟨4, 0⟩, rfl, rfl⟩ rfl

end ContractML
