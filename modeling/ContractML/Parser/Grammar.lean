import ContractML.Parser.Precedence
import ContractML.Parser.Stream

/-!
# The grammar

The parsers of expressions, contracts and statements.

```text
stmt     := 'contract' ident '=' contract | 'let' binding | 'let' binding 'in' seq | seq
binding  := ident ident* '=' seq
contract := cterm ('->' cterm)*
cterm    := '(' contract ')' | expr
seq      := expr (';' expr)*
expr     := operand (operator operand)*          grouped by `Operator.level`
operand  := '-' operand | 'not' operand | 'let' binding 'in' seq | 'fun' ident+ '->' seq
          | 'if' expr 'then' expr 'else' expr | atom atom*
atom     := literal | ident | '(' seq ')'
```

Each parser takes a number of steps that bounds how deep the parsers may call each other; `steps`
gives enough for a whole program.

## Main definitions

* `Parse.expression`, `Parse.sequence`, `Parse.contract`, `Parse.statement` — the parsers.
-/

namespace ContractML.Parse

/-- The value of a binding with parameters is a function; its span begins with the first
parameter. -/
def bindingValue (params : List Ident) (value : Expr) (valueStart stop : Nat) : Expr :=
  match params with
  | [] => value
  | p :: ps => .lambda (p :: ps) value ⟨min p.span.start valueStart, stop⟩

mutual

/-- A sequence of expressions with semicolons between them; a single one stands for itself. -/
def sequence : Nat → Parse Expr
  | 0 => outOfSteps
  | n + 1 => do
    let start ← start
    let first ← expression n 0
    match ← sequenceTail n [] with
    | [] => return first
    | rest => return .seq (first :: rest) (← spanFrom start)

/-- The further expressions of a sequence; `acc` holds them, the last one first. -/
def sequenceTail : Nat → (acc : List Expr) → Parse (List Expr)
  | 0, _ => outOfSteps
  | n + 1, acc => do
    if ← atSymbol .semi then
      advance
      let e ← expression n 0
      sequenceTail n (e :: acc)
    else return acc.reverse

/-- An expression whose outermost operators bind at `level` or tighter. -/
def expression : Nat → (level : Nat) → Parse Expr
  | 0, _ => outOfSteps
  | n + 1, level => do
    let left ← operand n
    operators n left level

/-- Extends the expression `left` by the operators that follow and bind at `level` or tighter. -/
def operators : Nat → (left : Expr) → (level : Nat) → Parse Expr
  | 0, _, _ => outOfSteps
  | n + 1, left, level => do
    match (← kind?).bind Operator.ofKind? with
    | none => return left
    | some o =>
      if o.level < level then return left
      else
        advance
        let right ← expression n o.rightLevel
        operators n (o.apply left right) level

/-- An operand. -/
def operand : Nat → Parse Expr
  | 0 => outOfSteps
  | n + 1 => do
    match ← kind? with
    | some (.symbol .minus) => unary n .neg
    | some (.keyword .kwNot) => unary n .not
    | some (.keyword .kwLet) =>
      let start ← start
      let (name, value) ← binding n
      localLet n start name value
    | some (.keyword .kwFun) => lambda n
    | some (.keyword .kwIf) => conditional n
    | _ => application n

/-- An operator before its operand; the operator is at hand. -/
def unary : Nat → UnaryOp → Parse Expr
  | 0, _ => outOfSteps
  | n + 1, op => do
    let start ← start
    advance
    let e ← expression n Operator.unaryLevel
    return .unary op e (← spanFrom start)

/-- The part of a binding up to its value. Parameters make the value a function. -/
def binding : Nat → Parse (Ident × Expr)
  | 0 => outOfSteps
  | n + 1 => do
    expectKeyword .kwLet
    let name ← identifier
    let params ← identifiers
    expect .eq
    let valueStart ← start
    let value ← sequence n
    return (name, bindingValue params value valueStart (← get).lastStop)

/-- The part of a local binding from `in` on. -/
def localLet : Nat → (start : Nat) → Ident → Expr → Parse Expr
  | 0, _, _, _ => outOfSteps
  | n + 1, start, name, value => do
    expectKeyword .kwIn
    let body ← sequence n
    return .letIn name value body (← spanFrom start)

/-- A function. -/
def lambda : Nat → Parse Expr
  | 0 => outOfSteps
  | n + 1 => do
    let start ← start
    expectKeyword .kwFun
    let first ← identifier
    let rest ← identifiers
    expect .arrow
    let body ← sequence n
    return .lambda (first :: rest) body (← spanFrom start)

/-- A choice. -/
def conditional : Nat → Parse Expr
  | 0 => outOfSteps
  | n + 1 => do
    let start ← start
    expectKeyword .kwIf
    let test ← expression n 0
    expectKeyword .kwThen
    let yes ← expression n 0
    expectKeyword .kwElse
    let no ← expression n 0
    return .cond test yes no (← spanFrom start)

/-- A function and all its arguments; without arguments it stands for itself. -/
def application : Nat → Parse Expr
  | 0 => outOfSteps
  | n + 1 => do
    let callee ← atom n
    match ← arguments n [] with
    | [] => return callee
    | args => return .call callee args (← spanFrom callee.span.start)

/-- The arguments of a call; `acc` holds those read so far, the last one first. -/
def arguments : Nat → (acc : List Expr) → Parse (List Expr)
  | 0, _ => outOfSteps
  | n + 1, acc => do
    if ((← kind?).map TokenKind.startsAtom).getD false then
      let e ← atom n
      arguments n (e :: acc)
    else return acc.reverse

/-- A literal, a variable or an expression in parentheses. -/
def atom : Nat → Parse Expr
  | 0 => outOfSteps
  | n + 1 => do
    let span := (← get).span
    match ← kind? with
    | some (.int v) => advance; return .lit (.int v) span
    | some (.float v) => advance; return .lit (.float v) span
    | some (.char v) => advance; return .lit (.char v) span
    | some (.str v) => advance; return .lit (.str v) span
    | some (.keyword .kwTrue) => advance; return .lit (.bool true) span
    | some (.keyword .kwFalse) => advance; return .lit (.bool false) span
    | some (.ident name) => advance; return .var ⟨name, span⟩
    | some (.symbol .lparen) =>
      advance
      let inner ← sequence n
      expect .rparen
      return inner
    | _ => unexpected .expression

end

mutual

/-- A contract; without an arrow a term stands for itself. -/
def contract : Nat → Parse ContractExpr
  | 0 => outOfSteps
  | n + 1 => do
    let start ← start
    let first ← contractTerm n
    match ← contractTail n [] with
    | [] => return first
    | range :: domain => return .arrow (first :: domain.reverse) range (← spanFrom start)

/-- The further terms of a contract, the last one first, before those in `acc`. -/
def contractTail : Nat → (acc : List ContractExpr) → Parse (List ContractExpr)
  | 0, _ => outOfSteps
  | n + 1, acc => do
    if ← atSymbol .arrow then
      advance
      let c ← contractTerm n
      contractTail n (c :: acc)
    else return acc

/-- A contract in parentheses, or a predicate. -/
def contractTerm : Nat → Parse ContractExpr
  | 0 => outOfSteps
  | n + 1 => do
    if ← atSymbol .lparen then
      advance
      let inner ← contract n
      expect .rparen
      return inner
    else return .flat (← expression n 0)

end

/-- A statement before its terminator, without a span of its own. -/
def bareStatement (n : Nat) : Parse (Span → Stmt) := do
  match ← kind? with
  | some (.keyword .kwContract) =>
    expectKeyword .kwContract
    let name ← identifier
    expect .eq
    let c ← contract n
    return .contract name c
  | some (.keyword .kwLet) =>
    let start ← start
    let (name, value) ← binding n
    if ← atKeyword .kwIn then
      return .expr (← localLet n start name value)
    else return .define name value
  | _ => return .expr (← sequence n)

/-- A statement with its terminator, which the last statement of a program may lack. The span takes
in the terminator. -/
def statement (n : Nat) : Parse Stmt := do
  let start ← start
  let stmt ← bareStatement n
  if (← kind?).isSome then expect .semiSemi
  return stmt (← spanFrom start)

end ContractML.Parse
