import ContractML.Magnitude.Basic

/-!
# The hypotenuse

The length of the hypotenuse of a right triangle, correctly rounded: the squares of the legs are
added and the root is taken in exact arithmetic, and the result is rounded once.

## Main definitions

* `natSqrt` — the integral square root.
* `Magnitude.hypot` — the bits of the hypotenuse over two legs.
* `hypot` — the hypotenuse of floating point numbers.
-/

namespace ContractML

/-- Adds to `root` the powers of two below `2 ^ bits`, from the largest on, as long as the square
does not exceed `n`. -/
def extendRoot (n : Nat) : (bits root : Nat) → Nat
  | 0, root => root
  | bits + 1, root =>
    let next := root + Nat.pow 2 bits
    extendRoot n bits (if next * next ≤ n then next else root)

/-- The largest number whose square is at most `n`. -/
def natSqrt (n : Nat) : Nat := extendRoot n (n.log2 / 2 + 1) 0

namespace Magnitude

/-- A magnitude that rounds like the square root of `n · 4 ^ exponent`: the root to more bits than
a result has, and a last bit that tells whether something was cut off. -/
def sqrtSticky (n : Nat) (exponent : Int) : Magnitude :=
  let extra : Nat := 64
  let scaled := n * Nat.pow 4 extra
  let root := natSqrt scaled
  ⟨2 * root + (if root * root = scaled then 0 else 1), exponent - extra - 1⟩

/-- The bits of the hypotenuse over two legs. -/
def hypot (a b : Magnitude) : UInt64 :=
  let exponent := min a.exponent b.exponent
  let x := a.significand * Nat.pow 2 (a.exponent - exponent).toNat
  let y := b.significand * Nat.pow 2 (b.exponent - exponent).toNat
  (sqrtSticky (x * x + y * y) exponent).nearestBits

end Magnitude

/-- The hypotenuse of two numbers. An infinite leg makes it infinite, whatever the other one is. -/
def hypot (x y : Float) : Float :=
  if x.isInf || y.isInf then Float.ofBits 0x7FF0000000000000
  else if x.isNaN || y.isNaN then Float.ofBits 0x7FF8000000000000
  else Float.ofBits (Magnitude.hypot (.ofBits x.toBits) (.ofBits y.toBits))

end ContractML
