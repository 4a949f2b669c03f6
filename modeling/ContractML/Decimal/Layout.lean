import ContractML.Decimal.Shortest

/-!
# How floating point numbers are written

A number is written by its shortest decimal. What is left to decide is gathered in a `Layout`:
which magnitudes are written positionally, what a whole number looks like, how an exponent is
written, and which of two equally near decimals is taken.

## Main definitions

* `Layout` — the decisions of a format.
* `Layout.render` — the text of a finite number.
* `Layout.plain`, `Layout.record`, `Layout.document` — the three formats in use.
-/

namespace ContractML

/-- The decisions of a format for finite numbers. -/
structure Layout where
  /-- Whether a number whose leading digit stands at `10 ^ e` is written without an exponent. -/
  positional : Int → Bool
  /-- Whether a whole number written without an exponent ends in `.0`. -/
  pointZero : Bool
  /-- Whether a non-negative exponent carries a plus sign. -/
  plusSign : Bool
  /-- Which of two equally near decimals is taken. -/
  tie : Tie

namespace Layout

/-- Digits without an exponent, however long: the form in which programs show numbers. -/
def plain : Layout where
  positional := fun _ => true
  pointZero := false
  plusSign := false
  tie := .up

/-- The form of numbers in a dumped tree: an exponent from `10 ^ 16` on and below `10 ^ -4`. -/
def record : Layout where
  positional := fun e => -4 ≤ e && e < 16
  pointZero := true
  plusSign := false
  tie := .up

/-- The form of numbers in a JSON document: an exponent from `10 ^ 16` on and below `10 ^ -5`. -/
def document : Layout where
  positional := fun e => -5 ≤ e && e < 16
  pointZero := true
  plusSign := true
  tie := .even

/-- The exponent of the leading digit, for a decimal of `n` digits. -/
def leading (n : Nat) (d : Decimal) : Int := d.exponent + n - 1

/-- The positional form: the point after, before or inside the digits `ds`. -/
def renderPositional (l : Layout) (ds : List Char) (exponent : Int) : List Char :=
  if 0 ≤ exponent then
    ds ++ List.replicate exponent.toNat '0' ++ (if l.pointZero then ['.', '0'] else [])
  else
    let places := (-exponent).toNat
    if ds.length ≤ places then
      '0' :: '.' :: (List.replicate (places - ds.length) '0' ++ ds)
    else
      ds.take (ds.length - places) ++ '.' :: ds.drop (ds.length - places)

/-- The form with an exponent: one digit before the point, and no point after a single digit. -/
def renderScientific (l : Layout) (ds : List Char) (e : Int) : List Char :=
  let mantissa := match ds with
    | [] => []
    | [c] => [c]
    | c :: cs => c :: '.' :: cs
  let sign := if e < 0 then ['-'] else if l.plusSign then ['+'] else []
  mantissa ++ 'e' :: sign ++ (toString e.natAbs).toList

/-- The text of a magnitude. -/
def renderDecimal (l : Layout) (d : Decimal) : List Char :=
  let ds := (toString d.digits).toList
  let e := leading ds.length d
  if d.digits = 0 || l.positional e then l.renderPositional ds d.exponent
  else l.renderScientific ds e

/-- The text of a finite number, with a minus sign if its sign bit is set. -/
def render (l : Layout) (x : Float) : String :=
  let bits := x.toBits
  let sign := if bits.toNat < Nat.pow 2 63 then [] else ['-']
  String.ofList (sign ++ l.renderDecimal ((Magnitude.ofBits bits).shortest l.tie))

example : plain.render 1e21 = "1000000000000000000000" := by decide +kernel

example : plain.render (-0.5) = "-0.5" := by decide +kernel

example : record.render 1e16 = "1e16" := by decide +kernel

example : record.render 2 = "2.0" := by decide +kernel

example : document.render 1e-5 = "0.00001" := by decide +kernel

example : document.render 123e18 = "1.23e+20" := by decide +kernel

end Layout

end ContractML
