import ContractML.Primitive.Basic
import ContractML.Ty

/-!
# Registering primitive functions

A primitive function is offered under a name, with a number of parameters and a type. It is taken
only if the type is that of a function with so many parameters, and at least one.

## Main definitions

* `Builtin` — a primitive function on offer.
* `RegistrationError` — why an offer is rejected.
* `Builtin.defaults` — the functions that every session begins with.
-/

namespace ContractML

/-- A primitive function on offer. -/
structure Builtin where
  /-- The name it is to be bound to. -/
  name : String
  /-- The number of parameters it is said to have. -/
  arity : Nat
  /-- Its type, which its arguments are checked against. -/
  type : Ty
  /-- The function. -/
  body : Primitive
  deriving Repr, Inhabited

/-- An offer whose type does not fit its number of parameters. -/
structure RegistrationError where
  /-- The name of the offer. -/
  name : String
  /-- The number of parameters it is said to have. -/
  arity : Nat
  /-- Its type. -/
  signature : Ty
  /-- The number of parameters of the type. -/
  params : Nat
  deriving Repr, Inhabited

/-- The text of a rejection. -/
def RegistrationError.message (e : RegistrationError) : String :=
  "builtin `" ++ e.name ++ "` declares arity " ++ toString e.arity ++ " but its signature `" ++
    e.signature.render ++ "` takes " ++ toString e.params ++ " argument(s)"

namespace Builtin

/-- Accepts an offer, or says why not. -/
def check (b : Builtin) : Except RegistrationError Unit :=
  let params := b.type.arity?.getD 0
  if params = b.arity ∧ b.arity ≠ 0 then .ok ()
  else .error ⟨b.name, b.arity, b.type, params⟩

/-- An offer is accepted exactly if its type has as many parameters as it says, and at least one. -/
theorem check_eq_ok_iff (b : Builtin) :
    b.check = .ok () ↔ b.type.arity?.getD 0 = b.arity ∧ b.arity ≠ 0 := by
  simp only [check]
  split <;> simp_all

/-- The functions that every session begins with. -/
def defaults : List Builtin :=
  [⟨"any", 1, .fn [.var 0] .bool, .any⟩,
    ⟨"positive", 1, .fn [.int] .bool, .positive⟩,
    ⟨"negative", 1, .fn [.int] .bool, .negative⟩,
    ⟨"zero", 1, .fn [.int] .bool, .zero⟩,
    ⟨"length", 1, .fn [.string] .int, .length⟩,
    ⟨"to_int", 1, .fn [.float] .int, .toInt⟩,
    ⟨"round", 1, .fn [.float] .int, .round⟩,
    ⟨"float_of_int", 1, .fn [.int] .float, .floatOfInt⟩,
    ⟨"sqrt", 1, .fn [.float] .float, .sqrt⟩,
    ⟨"exp", 1, .fn [.float] .float, .exp⟩,
    ⟨"cos", 1, .fn [.float] .float, .cos⟩,
    ⟨"cosh", 1, .fn [.float] .float, .cosh⟩,
    ⟨"hypot", 2, .fn [.float, .float] .float, .hypot⟩]

end Builtin

end ContractML
