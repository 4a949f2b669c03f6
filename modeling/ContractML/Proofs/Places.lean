import ContractML.Proofs.Reachable

/-!
# Every fault has a place

A primitive function does not know where it is called, and a call that finds too many calls open is
refused before it has a place to report. Such faults have no place at first. The application around
them gives them one, so that every fault that leaves an evaluation can be shown in the program. It
follows that the fault of a call that was refused differs from every fault that comes out of the
body of a function.

## Main definitions

* `Fault.Placed`, `Eval.Placed` — a fault with a place, and an evaluation whose faults have one.
* `Regime.placed` — evaluations in which every fault has a place.
* `CallUser.Closes` — a way of calling that closes the calls that it opens.

## Main results

* `Fault.Arises.placed` — what single steps raise has a place.
* `placed_applyWith`, `placed_enforceWith`, `placed_evalWith` — so has what the evaluator raises.
-/

namespace ContractML

open Eval (Spec)

/-! ### Places -/

/-- A fault that has a place. -/
def Fault.Placed (f : Fault) : Prop := f.span?.isSome = true

/-- The evaluation closes the calls that it opens, and if it fails its fault has a place. -/
def Eval.Placed {α : Type} (x : Eval α) : Prop := Spec x (fun _ => True) Fault.Placed

/-- Giving a fault a place leaves it with one. -/
theorem Fault.placed_locate (f : Fault) (span : Span) : (f.locate span).Placed := by
  obtain ⟨cause, span?⟩ := f
  cases span? <;> rfl

theorem Fault.Arises.placed {V : Value → Prop} {span : Span} {f : Fault}
    (h : Fault.Arises V span f) : f.Placed := by
  rw [Fault.Placed, h.span?_eq]
  rfl

/-! ### The evaluator -/

/-- Everything may be evaluated and every value may turn up, and what is raised has a place. -/
def Regime.placed (store : Store) : Regime store :=
  { (Invariant.trivial store).discipline.regime with
    fault := Fault.Placed
    escape := fun _ => True
    unbound := fun _ _ _ _ => rfl
    hollow := fun _ _ _ => rfl
    rejected := fun _ _ _ _ _ _ _ _ => rfl
    arises := fun _ _ _ h => h.placed
    misses := fun _ _ _ _ => trivial
    limit := trivial
    escapes := fun _ _ => trivial
    locate := fun span f _ _ => f.placed_locate span }

/-- A way of calling that closes the calls that it opens. -/
def CallUser.Closes (call : CallUser) : Prop :=
  ∀ params body env args, Eval.Closes (call params body env args)

section Calls

variable {call : CallUser} (hcall : CallUser.Closes call)
include hcall

/-- The faults of calling need not have a place. -/
theorem CallUser.Closes.calls (store : Store) : (Regime.placed store).Calls call call :=
  fun _ params body env args _ _ _ => .refl (hcall params body env args)

/-- The faults of applying a closure have a place, whatever the faults of calling are. -/
theorem placed_applyWith (c : Closure) (args : List Value) (span : Span) :
    Eval.Placed (c.applyWith call args span) :=
  ((Regime.placed .init).agree_applyWith (hcall.calls .init) c args span trivial
    (fun _ _ => trivial) trivial).spec

/-- The faults of checking a value have a place. -/
theorem placed_enforceWith (k : Contract) (v : Value) (pos neg : String) (span : Span) :
    Eval.Placed (k.enforceWith call v pos neg span) :=
  ((Regime.placed .init).agree_enforceWith (hcall.calls .init) k v pos neg span trivial trivial
    trivial).spec

/-- The faults of evaluating an expression have a place, whatever the faults of calling are. -/
theorem placed_evalWith (store : Store) (e : Expr) (env : Env) :
    Eval.Placed (e.evalWith (.ofCall store call) env) :=
  ((Regime.placed store).agree_evalWith ((Regime.placed store).runs_ofCall (hcall.calls store))
    ⟨fun _ _ => trivial, trivial⟩).spec

end Calls

end ContractML
