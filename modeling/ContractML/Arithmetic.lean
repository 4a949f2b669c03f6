import ContractML.Fault
import ContractML.Value

/-!
# Operators on values

Integers are 64-bit words: sums, differences and products wrap around, and a quotient is cut
towards zero. Nothing fails but a division by zero, and operands of the wrong type.

Values of one primitive type are ordered: integers and floating point numbers by size, `false`
before `true`, characters by code point, and strings lexicographically. A number that is not a
number is neither less, equal nor greater.

## Main definitions

* `Value.compare` — the order of two values.
* `Value.same` — identity of two values.
* `UnaryOp.eval`, `BinaryOp.eval` — the operators.
-/

namespace ContractML

/-- The fault of a value of the wrong type at a place. -/
def Fault.mismatch (expected found : Ty) (span : Span) : Fault :=
  ⟨.typeMismatch expected found, some span⟩

/-- The order of two floating point numbers, unless one of them is not a number. -/
def compareFloat (x y : Float) : Option Ordering :=
  if x < y then some .lt
  else if x == y then some .eq
  else if y < x then some .gt
  else none

/-- The order of two characters, by code point. -/
def compareChar (c d : Char) : Ordering := Ord.compare c.toNat d.toNat

/-- The lexicographic order of two texts. -/
def compareText : List Char → List Char → Ordering
  | [], [] => .eq
  | [], _ :: _ => .lt
  | _ :: _, [] => .gt
  | c :: cs, d :: ds => (compareChar c d).then (compareText cs ds)

namespace Value

/-- The order of two values of one primitive type; none if they are not ordered. Closures have no
order, and values of different types cannot be compared. -/
def compare (l r : Value) (span : Span) : Except Fault (Option Ordering) :=
  match l, r with
  | int a, int b => .ok (some (Ord.compare a b))
  | float a, float b => .ok (compareFloat a b)
  | bool a, bool b => .ok (some (Ord.compare a b))
  | char a, char b => .ok (some (compareChar a b))
  | str a, str b => .ok (some (compareText a.toList b.toList))
  | closure _, closure _ => .error ⟨.functionalComparison, some span⟩
  | l, r => .error (.mismatch l.type r.type span)

/-- Whether two values of one kind are the same: closures by identity, others by value. -/
def same (l r : Value) (span : Span) : Except Fault Bool :=
  match l, r with
  | int a, int b => .ok (a == b)
  | float a, float b => .ok (a == b)
  | bool a, bool b => .ok (a == b)
  | char a, char b => .ok (a == b)
  | str a, str b => .ok (a == b)
  | closure a, closure b => .ok (a.same b)
  | l, r => .error (.mismatch l.type r.type span)

end Value

/-- The result of an operator on its operand. -/
def UnaryOp.eval (op : UnaryOp) (v : Value) (span : Span) : Except Fault Value :=
  match op, v with
  | neg, .int n => .ok (.int (-n))
  | neg, .float x => .ok (.float (-x))
  | not, .bool b => .ok (.bool !b)
  | neg, v => .error (.mismatch .int v.type span)
  | not, v => .error (.mismatch .bool v.type span)

/-- The fault of an operator that takes operands of type `expected`: the first operand that has
another type is reported. -/
def Fault.operand (expected : Ty) (l r : Value) (span : Span) : Fault :=
  .mismatch expected (if expected.accepts l.type then r.type else l.type) span

/-- An operator on two integers. -/
def onInts (f : Int64 → Int64 → Except Fault Int64) (l r : Value) (span : Span) :
    Except Fault Value :=
  match l, r with
  | .int a, .int b => (f a b).map .int
  | l, r => .error (.operand .int l r span)

/-- An operator on two floating point numbers. -/
def onFloats (f : Float → Float → Float) (l r : Value) (span : Span) : Except Fault Value :=
  match l, r with
  | .float a, .float b => .ok (.float (f a b))
  | l, r => .error (.operand .float l r span)

/-- An operator on two strings. -/
def onStrings (f : String → String → String) (l r : Value) (span : Span) : Except Fault Value :=
  match l, r with
  | .str a, .str b => .ok (.str (f a b))
  | l, r => .error (.operand .string l r span)

/-- A comparison that holds of some orders. -/
def onOrder (holds : Option Ordering → Bool) (l r : Value) (span : Span) : Except Fault Value :=
  (l.compare r span).map fun o => .bool (holds o)

/-- The result of an operator on its two operands. -/
def BinaryOp.eval (op : BinaryOp) (l r : Value) (span : Span) : Except Fault Value :=
  match op with
  | add => onInts (fun a b => .ok (a + b)) l r span
  | sub => onInts (fun a b => .ok (a - b)) l r span
  | mul => onInts (fun a b => .ok (a * b)) l r span
  | div => onInts (fun a b => if b = 0 then .error ⟨.divisionByZero, some span⟩ else .ok (a / b))
      l r span
  | mod => onInts (fun a b => if b = 0 then .error ⟨.divisionByZero, some span⟩ else .ok (a % b))
      l r span
  | fadd => onFloats (· + ·) l r span
  | fsub => onFloats (· - ·) l r span
  | fmul => onFloats (· * ·) l r span
  | fdiv => onFloats (· / ·) l r span
  | pow => onFloats Float.pow l r span
  | concat => onStrings (· ++ ·) l r span
  | lt => onOrder (· == some .lt) l r span
  | le => onOrder (fun o => o == some .lt || o == some .eq) l r span
  | gt => onOrder (· == some .gt) l r span
  | ge => onOrder (fun o => o == some .gt || o == some .eq) l r span
  | eq => onOrder (· == some .eq) l r span
  | ne => onOrder (· != some .eq) l r span
  | same => (l.same r span).map .bool
  | differs => (l.same r span).map fun b => .bool !b

end ContractML
