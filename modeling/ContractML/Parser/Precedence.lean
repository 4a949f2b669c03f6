import ContractML.Expr.Basic
import ContractML.Token.Basic

/-!
# Precedence

The operators that stand between two operands, with the powers by which they bind. An operator is
read if its left power reaches the power that is asked for, and its right operand is then read with
its right power. A higher power binds tighter, and where the right power is the left one the last of
several operators is applied first.

| powers | operators |
|-------:|-----------|
| 1, 1 | `\|\|` |
| 3, 3 | `&&` |
| 5, 6 | `= <> == != < <= > >=` |
| 7, 7 | `^` |
| 10, 11 | `+ - +. -.` |
| 20, 21 | `* / mod *. /.` |
| 30, 30 | `**` |
| 40 | an operator before its operand |

## Main definitions

* `Operator` — the operators.
* `Operator.powers`, `Operator.level`, `Operator.rightLevel` — the table.
* `Operator.ofKind?` — the operator that a token stands for.
-/

namespace ContractML

/-- An operator between two operands. -/
inductive Operator where
  /-- An operator that evaluates both operands. -/
  | binary (op : BinaryOp)
  /-- An operator that may leave its second operand alone. -/
  | logical (op : LogicalOp)
  deriving DecidableEq, Repr, Inhabited

namespace Operator

/-- The powers by which an operator binds what stands to its left and to its right. -/
def powers : Operator → Nat × Nat
  | logical .or => (1, 1)
  | logical .and => (3, 3)
  | binary .eq | binary .ne | binary .same | binary .differs => (5, 6)
  | binary .lt | binary .le | binary .gt | binary .ge => (5, 6)
  | binary .concat => (7, 7)
  | binary .add | binary .sub | binary .fadd | binary .fsub => (10, 11)
  | binary .mul | binary .div | binary .mod | binary .fmul | binary .fdiv => (20, 21)
  | binary .pow => (30, 30)

/-- The level at which an operator is read: its left power. -/
def level (o : Operator) : Nat := o.powers.1

/-- The least level of an operator inside the right operand: its right power. -/
def rightLevel (o : Operator) : Nat := o.powers.2

/-- The level at which the operand of an operator before it is read. -/
def unaryLevel : Nat := 40

/-- The operator that a symbol stands for between operands. -/
def ofSymbol? : Symbol → Option Operator
  | .orOr => some (logical .or)
  | .andAnd => some (logical .and)
  | .eq => some (binary .eq)
  | .ltGt => some (binary .ne)
  | .eqEq => some (binary .same)
  | .bangEq => some (binary .differs)
  | .lt => some (binary .lt)
  | .le => some (binary .le)
  | .gt => some (binary .gt)
  | .ge => some (binary .ge)
  | .caret => some (binary .concat)
  | .plus => some (binary .add)
  | .minus => some (binary .sub)
  | .plusDot => some (binary .fadd)
  | .minusDot => some (binary .fsub)
  | .star => some (binary .mul)
  | .slash => some (binary .div)
  | .starDot => some (binary .fmul)
  | .slashDot => some (binary .fdiv)
  | .starStar => some (binary .pow)
  | _ => none

/-- The operator that a token stands for between operands. -/
def ofKind? : TokenKind → Option Operator
  | .symbol s => ofSymbol? s
  | .keyword .kwMod => some (binary .mod)
  | _ => none

/-- The expression of an operator between two operands, which reaches from one to the other. -/
def apply (o : Operator) (l r : Expr) : Expr :=
  match o with
  | binary op => .binary op l r (l.span.cover r.span)
  | logical op => .logical op l r (l.span.cover r.span)

end Operator

end ContractML
