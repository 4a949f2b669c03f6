/-!
# Magnitudes of floating point numbers

A finite floating point number of 64 bits is, up to its sign, a whole number of less than 53 bits
times a power of two. Working with that pair keeps arithmetic exact.

## Main definitions

* `Magnitude` — `significand · 2 ^ exponent`.
* `Magnitude.ofBits` — the magnitude that bits encode.
* `Magnitude.nearestBits` — the bits of the number nearest to a magnitude.
* `FloatKind.of` — whether a number is finite, and whether it is whole.
-/

namespace ContractML

/-- The number `significand · 2 ^ exponent`. -/
structure Magnitude where
  /-- The significand. -/
  significand : Nat
  /-- The power of two of its last bit. -/
  exponent : Int
  deriving DecidableEq, Repr, Inhabited

namespace Magnitude

/-- The magnitude of the finite number with the given bits; the sign bit is not looked at. -/
def ofBits (bits : UInt64) : Magnitude :=
  let fraction : Nat := bits.toNat % Nat.pow 2 52
  let scale : Nat := bits.toNat / Nat.pow 2 52 % Nat.pow 2 11
  if scale = 0 then ⟨fraction, -1074⟩ else ⟨fraction + Nat.pow 2 52, (scale : Int) - 1075⟩

/-- Whether a magnitude has no fractional part. -/
def isWhole (m : Magnitude) : Bool :=
  0 ≤ m.exponent || m.significand % Nat.pow 2 (-m.exponent).toNat == 0

/-- Divides by `2 ^ shift`, to the nearest integer and to the even one of two. -/
def shiftNearest (n shift : Nat) : Nat :=
  let q := n / Nat.pow 2 shift
  let r := n % Nat.pow 2 shift
  if 2 * r < Nat.pow 2 shift then q
  else if Nat.pow 2 shift < 2 * r then q + 1
  else if q % 2 = 0 then q
  else q + 1

/-- The bits of the floating point number nearest to a magnitude, the one with an even significand
of two; infinity if the magnitude is too large. -/
def nearestBits (m : Magnitude) : UInt64 :=
  if m.significand = 0 then 0
  else
    let exponent := max (m.exponent + m.significand.log2 - 52) (-1074)
    let shift := exponent - m.exponent
    let significand := shiftNearest (m.significand * Nat.pow 2 (-shift).toNat) shift.toNat
    let bits := (exponent + 1074).toNat * Nat.pow 2 52 + significand
    UInt64.ofNat (min bits (0x7FF * Nat.pow 2 52))

end Magnitude

/-- The kinds of floating point numbers that are told apart. -/
inductive FloatKind where
  /-- Not a number. -/
  | nan
  /-- An infinity, negative or not. -/
  | infinite (negative : Bool)
  /-- A number without a fractional part. -/
  | whole
  /-- A number with a fractional part. -/
  | fractional
  deriving DecidableEq, Repr, Inhabited

/-- The kind of a floating point number. -/
def FloatKind.of (x : Float) : FloatKind :=
  if x.isNaN then .nan
  else if x.isInf then .infinite (x < 0)
  else if (Magnitude.ofBits x.toBits).isWhole then .whole
  else .fractional

end ContractML
