import ContractML.Magnitude.Basic

/-!
# Shortest decimals

A finite binary floating point number is `m · 2 ^ q` for natural `m` and integral `q`, and every
real number of a certain interval around it rounds to it. Its shortest decimal is the decimal of
that interval with the fewest digits, and of those the one nearest to the number.

The search walks down the decimal grids `10 ^ k`. On each grid only the two neighbours of the
number can be the nearest point of the interval, so these two are tested, in exact arithmetic.

## Main definitions

* `Decimal` — `digits · 10 ^ exponent`, without trailing zeros.
* `Magnitude.shortest` — the shortest decimal, for a given rule about ties.
-/

namespace ContractML

/-- The magnitude `digits · 10 ^ exponent`. -/
structure Decimal where
  /-- The significant digits as one number. -/
  digits : Nat
  /-- The power of ten of the last digit. -/
  exponent : Int
  deriving DecidableEq, Repr, Inhabited

/-- Which of two equally near decimals is taken. -/
inductive Tie where
  /-- The larger one. -/
  | up
  /-- The one whose last digit is even. -/
  | even
  deriving DecidableEq, Repr, Inhabited

/-- Drops trailing zeros of the digits, at most `n` of them. -/
def Decimal.trim : Nat → Decimal → Decimal
  | 0, d => d
  | n + 1, d =>
    if d.digits ≠ 0 ∧ d.digits % 10 = 0 then trim n ⟨d.digits / 10, d.exponent + 1⟩ else d

namespace Magnitude

/-- How far the interval of the number reaches down, in quarters of its last bit: half a bit, but
a quarter below a power of two, whose lower neighbour is twice as near. -/
def reachBelow (d : Magnitude) : Nat :=
  if d.significand = Nat.pow 2 52 ∧ d.exponent ≠ -1074 then 1 else 2

/-- The number in quarters of its last bit over the grid `10 ^ k`, as a fraction: the factor of a
quarter, and the denominator. -/
def onGrid (d : Magnitude) (k : Int) : Nat × Nat :=
  let q := d.exponent - 2
  (Nat.pow 2 q.toNat * Nat.pow 10 (-k).toNat, Nat.pow 2 (-q).toNat * Nat.pow 10 k.toNat)

/-- Whether `n · 10 ^ k` rounds to the number: it lies in the interval, whose ends belong to it
when the significand is even. -/
def readsBack (d : Magnitude) (k : Int) (n : Nat) : Bool :=
  let (quarter, den) := d.onGrid k
  let low := (4 * d.significand - d.reachBelow) * quarter
  let high := (4 * d.significand + 2) * quarter
  if d.significand % 2 = 0 then low ≤ n * den && n * den ≤ high
  else low < n * den && n * den < high

/-- The nearer of the number's two neighbours `n` and `n + 1` on the grid `10 ^ k`. -/
def nearer (d : Magnitude) (tie : Tie) (k : Int) (n : Nat) : Nat :=
  let (quarter, den) := d.onGrid k
  let below := 4 * d.significand * quarter - n * den
  let above := (n + 1) * den - 4 * d.significand * quarter
  if below < above then n
  else if above < below then n + 1
  else match tie with
    | .up => n + 1
    | .even => if n % 2 = 0 then n else n + 1

/-- The point of the grid `10 ^ k` that reads back as the number, if there is one. -/
def onGrid? (d : Magnitude) (tie : Tie) (k : Int) : Option Nat :=
  let (quarter, den) := d.onGrid k
  let n := 4 * d.significand * quarter / den
  match d.readsBack k n, d.readsBack k (n + 1) with
  | true, true => some (d.nearer tie k n)
  | true, false => some n
  | false, true => some (n + 1)
  | false, false => none

/-- The first hit on the grids `10 ^ k`, `10 ^ (k - 1)`, …; on the last of them the nearer
neighbour. -/
def search (d : Magnitude) (tie : Tie) : Nat → Int → Decimal
  | 0, k => ⟨d.nearer tie k (4 * d.significand * (d.onGrid k).1 / (d.onGrid k).2), k⟩
  | fuel + 1, k =>
    match d.onGrid? tie k with
    | some n => ⟨n, k⟩
    | none => search d tie fuel (k - 1)

/-- A power of ten above the number: `30103 / 100000` is just above the logarithm of two. -/
def topGrid (d : Magnitude) : Int :=
  ((d.significand.log2 : Int) + 1 + d.exponent) * 30103 / 100000 + 1

/-- The decimal with the fewest digits that rounds to the number, the nearest one of those. -/
def shortest (d : Magnitude) (tie : Tie) : Decimal :=
  if d.significand = 0 then ⟨0, 0⟩ else (d.search tie 20 d.topGrid).trim 20

end Magnitude

end ContractML
