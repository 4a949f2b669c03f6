/-!
# Primitive functions

The functions that the language takes from its host: those that every session begins with, and
those that a program brings along in which a session is embedded. A primitive function is bound to a
name together with a type, so the same function can stand behind several names and types.

Functions of the embedding program are known by number. What they compute is not said here.

## Main definitions

* `Primitive` — the functions.
-/

namespace ContractML

/-- The primitive functions. -/
inductive Primitive where
  /-- Holds of every value. -/
  | any
  /-- Whether an integer is above zero. -/
  | positive
  /-- Whether an integer is below zero. -/
  | negative
  /-- Whether an integer is zero. -/
  | zero
  /-- The number of characters of a string. -/
  | length
  /-- The integer next to a number towards zero. -/
  | toInt
  /-- The integer nearest to a number, the one away from zero of two. -/
  | round
  /-- An integer as a floating point number. -/
  | floatOfInt
  /-- The square root. -/
  | sqrt
  /-- The exponential function. -/
  | exp
  /-- The cosine. -/
  | cos
  /-- The hyperbolic cosine. -/
  | cosh
  /-- The length of the hypotenuse over two legs. -/
  | hypot
  /-- A function of the embedding program. -/
  | host (code : Nat)
  deriving DecidableEq, Repr, Inhabited

end ContractML
