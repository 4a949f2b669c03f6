import ContractML.Span

/-!
# Expressions, contracts and programs

The trees of the language. Every node carries the span of the source text it was read from.

A contract is written as a predicate, or as an arrow from the contracts of the arguments to the
contract of the result. The parser never builds `Expr.monitored`: the monitor wraps it around an
expression whose value has to be checked.

## Main definitions

* `Literal`, `Ident`, `UnaryOp`, `BinaryOp`, `LogicalOp` — the leaves.
* `Expr`, `ContractExpr` — expressions and contracts.
* `Stmt`, `Program` — statements and programs.
* `Expr.span`, `ContractExpr.span`, `Stmt.span` — where a node stands.
-/

namespace ContractML

/-- A literal. -/
inductive Literal where
  /-- An integer. -/
  | int (n : Int64)
  /-- A floating point number. -/
  | float (x : Float)
  /-- A truth value. -/
  | bool (b : Bool)
  /-- A character. -/
  | char (c : Char)
  /-- A string. -/
  | str (s : String)
  deriving Repr, Inhabited

/-- A name and where it stands. -/
structure Ident where
  /-- The name. -/
  text : String
  /-- Where it stands. -/
  span : Span
  deriving DecidableEq, Repr, Inhabited

/-- The operators of one operand. -/
inductive UnaryOp where
  /-- Arithmetic negation, `-`. -/
  | neg
  /-- Logical negation, `not`. -/
  | not
  deriving DecidableEq, Repr, Inhabited

/-- The operators that evaluate both operands. -/
inductive BinaryOp where
  /-- Addition of integers, `+`. -/
  | add
  /-- Subtraction of integers, `-`. -/
  | sub
  /-- Multiplication of integers, `*`. -/
  | mul
  /-- Division of integers, `/`. -/
  | div
  /-- Remainder of integers, `mod`. -/
  | mod
  /-- Addition of floating point numbers, `+.`. -/
  | fadd
  /-- Subtraction of floating point numbers, `-.`. -/
  | fsub
  /-- Multiplication of floating point numbers, `*.`. -/
  | fmul
  /-- Division of floating point numbers, `/.`. -/
  | fdiv
  /-- Power of floating point numbers, `**`. -/
  | pow
  /-- Less by value, `<`. -/
  | lt
  /-- Less or equal by value, `<=`. -/
  | le
  /-- Greater by value, `>`. -/
  | gt
  /-- Greater or equal by value, `>=`. -/
  | ge
  /-- Equal by value, `=`. -/
  | eq
  /-- Unequal by value, `<>`. -/
  | ne
  /-- Equal by identity, `==`. -/
  | same
  /-- Unequal by identity, `!=`. -/
  | differs
  /-- Concatenation of strings, `^`. -/
  | concat
  deriving DecidableEq, Repr, Inhabited

/-- The operators that evaluate their second operand only if the first does not settle the
result. -/
inductive LogicalOp where
  /-- Conjunction, `&&`. -/
  | and
  /-- Disjunction, `||`. -/
  | or
  deriving DecidableEq, Repr, Inhabited

/-- How an operator of one operand is written before its operand. -/
def UnaryOp.lead : UnaryOp → String
  | neg => "-"
  | not => "not "

/-- How an operator is written. -/
def BinaryOp.symbol : BinaryOp → String
  | add => "+"
  | sub => "-"
  | mul => "*"
  | div => "/"
  | mod => "mod"
  | fadd => "+."
  | fsub => "-."
  | fmul => "*."
  | fdiv => "/."
  | pow => "**"
  | lt => "<"
  | le => "<="
  | gt => ">"
  | ge => ">="
  | eq => "="
  | ne => "<>"
  | same => "=="
  | differs => "!="
  | concat => "^"

/-- How a logical operator is written. -/
def LogicalOp.symbol : LogicalOp → String
  | and => "&&"
  | or => "||"

mutual

/-- An expression. -/
inductive Expr where
  /-- A literal. -/
  | lit (value : Literal) (span : Span)
  /-- A variable. -/
  | var (name : Ident)
  /-- An operator before its operand. -/
  | unary (op : UnaryOp) (operand : Expr) (span : Span)
  /-- An operator between two operands. -/
  | binary (op : BinaryOp) (left right : Expr) (span : Span)
  /-- A logical operator between two operands. -/
  | logical (op : LogicalOp) (left right : Expr) (span : Span)
  /-- A choice, `if test then yes else no`. -/
  | cond (test yes no : Expr) (span : Span)
  /-- A function, `fun x y -> body`. -/
  | lambda (params : List Ident) (body : Expr) (span : Span)
  /-- A function applied to all its arguments at once. -/
  | call (callee : Expr) (args : List Expr) (span : Span)
  /-- A local binding, `let name = value in body`. -/
  | letIn (name : Ident) (value body : Expr) (span : Span)
  /-- A sequence, `e₁; e₂; …`. -/
  | seq (items : List Expr) (span : Span)
  /-- An expression whose value is checked against a contract. A breach is blamed on `pos`, who
  supplies the value, or on `neg`, who uses it; no `neg` means the top level. -/
  | monitored (inner : Expr) (contract : ContractExpr) (pos : String) (neg : Option String)

/-- A contract as it is written. -/
inductive ContractExpr where
  /-- A predicate. -/
  | flat (predicate : Expr)
  /-- A function contract, `d₁ -> d₂ -> … -> range`. -/
  | arrow (domain : List ContractExpr) (range : ContractExpr) (span : Span)

end

instance : Inhabited Expr := ⟨.lit default default⟩
instance : Inhabited ContractExpr := ⟨.flat default⟩

/-- A statement. -/
inductive Stmt where
  /-- An expression to evaluate. -/
  | expr (expr : Expr) (span : Span)
  /-- A contract declaration, `contract name = contract`. -/
  | contract (name : Ident) (contract : ContractExpr) (span : Span)
  /-- A global binding, `let name = value`. -/
  | define (name : Ident) (value : Expr) (span : Span)
  deriving Inhabited

/-- A program: its statements in order. -/
structure Program where
  /-- The statements. -/
  body : List Stmt
  /-- Where the program stands. -/
  span : Span
  deriving Inhabited

/-- Where an expression stands; a monitored one stands where what it wraps stands. -/
def Expr.span : Expr → Span
  | .lit _ s => s
  | .var x => x.span
  | .unary _ _ s => s
  | .binary _ _ _ s => s
  | .logical _ _ _ s => s
  | .cond _ _ _ s => s
  | .lambda _ _ s => s
  | .call _ _ s => s
  | .letIn _ _ _ s => s
  | .seq _ s => s
  | .monitored e _ _ _ => e.span

/-- Where a contract stands. -/
def ContractExpr.span : ContractExpr → Span
  | .flat e => e.span
  | .arrow _ _ s => s

/-- Where a statement stands. -/
def Stmt.span : Stmt → Span
  | .expr _ s => s
  | .contract _ _ s => s
  | .define _ _ s => s

end ContractML
