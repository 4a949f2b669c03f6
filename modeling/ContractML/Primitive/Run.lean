import ContractML.Fault
import ContractML.Magnitude.Hypotenuse
import ContractML.Value

/-!
# What primitive functions compute

A primitive function checks its own arguments, since the type under which it is registered may let
other values through. A fault that it raises has no place; the call gives it one.

The program in which a session is embedded may bring functions of its own, which can do anything
with their arguments that gives a value or a fault: a `Host` says what each of them computes. A
statement that names no host is about programs that bring none.

## Main definitions

* `Host` — what the functions of the embedding program compute.
* `Primitive.run` — the result of a primitive function on arguments.
-/

namespace ContractML

/-- The functions that the embedding program brings along. -/
class Host where
  /-- The result of the function with a number on arguments. -/
  run : (code : Nat) → List Value → Except Fault Value

/-- A program that brings no functions along. All numbers stand for the function that holds of every
value. -/
instance (priority := low) Host.none : Host where
  run _ _ := .ok (.bool true)

namespace Primitive

/-- The fault of an argument of the wrong type; a missing argument has an unknown type. -/
def mismatch (expected : Ty) (found : Option Value) : Fault :=
  ⟨.typeMismatch expected ((found.map Value.type).getD (.var 0)), none⟩

/-- The argument with the given index, which has to be an integer. -/
def intArg (args : List Value) (i : Nat) : Except Fault Int64 :=
  match args[i]? with
  | some (.int n) => .ok n
  | found => .error (mismatch .int found)

/-- The argument with the given index, which has to be a floating point number. -/
def floatArg (args : List Value) (i : Nat) : Except Fault Float :=
  match args[i]? with
  | some (.float x) => .ok x
  | found => .error (mismatch .float found)

/-- The argument with the given index, which has to be a string. -/
def strArg (args : List Value) (i : Nat) : Except Fault String :=
  match args[i]? with
  | some (.str s) => .ok s
  | found => .error (mismatch .string found)

/-- The result of a primitive function on arguments. -/
def run [Host] (p : Primitive) (args : List Value) : Except Fault Value := do
  match p with
  | any => return .bool true
  | positive => return .bool (0 < (← intArg args 0))
  | negative => return .bool ((← intArg args 0) < 0)
  | zero => return .bool ((← intArg args 0) == 0)
  | length => return .int (Int64.ofNat (← strArg args 0).length)
  | toInt => return .int (← floatArg args 0).toInt64
  | round => return .int (← floatArg args 0).round.toInt64
  | floatOfInt => return .float (← intArg args 0).toFloat
  | sqrt => return .float (← floatArg args 0).sqrt
  | exp => return .float (← floatArg args 0).exp
  | cos => return .float (← floatArg args 0).cos
  | cosh => return .float (← floatArg args 0).cosh
  | hypot =>
    let x ← floatArg args 0
    let y ← floatArg args 1
    return .float (ContractML.hypot x y)
  | host code => Host.run code args

end Primitive

end ContractML
