import ContractML.Decimal.Layout
import ContractML.Expr.Basic
import ContractML.Text.Quoted

/-!
# The written form of expressions and contracts

A compact form close to the source text. It names the contracts in reports, and on the fragment in
which every operator stands in parentheses it reads back as the expression.

## Main definitions

* `Literal.render`, `Expr.render`, `ContractExpr.render` — the written forms.
-/

namespace ContractML

/-- The written form of a literal. A whole number ends in a point. -/
def Literal.render : Literal → String
  | .int n => toString n
  | .float x =>
    match FloatKind.of x with
    | .nan => "NaN"
    | .infinite negative => if negative then "-inf" else "inf"
    | .whole => Layout.plain.render x ++ "."
    | .fractional => Layout.plain.render x
  | .bool b => if b then "true" else "false"
  | .char c => Text.quoteChar c
  | .str s => Text.quoteString s

mutual

/-- The written form of an expression. A monitored one is written as what it wraps. -/
def Expr.render : Expr → String
  | .lit v _ => v.render
  | .var x => x.text
  | .unary op e _ => op.lead ++ e.render
  | .binary op l r _ => "(" ++ l.render ++ " " ++ op.symbol ++ " " ++ r.render ++ ")"
  | .logical op l r _ => "(" ++ l.render ++ " " ++ op.symbol ++ " " ++ r.render ++ ")"
  | .cond c t e _ => "if " ++ c.render ++ " then " ++ t.render ++ " else " ++ e.render
  | .lambda ps b _ =>
    "(fun" ++ String.join (ps.map fun p => " " ++ p.text) ++ " -> " ++ b.render ++ ")"
  | .call f args _ => "(" ++ f.render ++ Expr.renderArgs args ++ ")"
  | .letIn x v b _ => "let " ++ x.text ++ " = " ++ v.render ++ " in " ++ b.render
  | .seq es _ => "(" ++ Expr.renderItems es ++ ")"
  | .monitored e _ _ _ => e.render

/-- The arguments of a call, each after a space. -/
def Expr.renderArgs : List Expr → String
  | [] => ""
  | e :: es => " " ++ e.render ++ Expr.renderArgs es

/-- The items of a sequence, with semicolons between them. -/
def Expr.renderItems : List Expr → String
  | [] => ""
  | [e] => e.render
  | e :: es => e.render ++ "; " ++ Expr.renderItems es

end

/-- Whether a contract is an arrow. -/
def ContractExpr.isArrow : ContractExpr → Bool
  | .flat _ => false
  | .arrow _ _ _ => true

mutual

/-- The written form of a contract. -/
def ContractExpr.render : ContractExpr → String
  | .flat e => e.render
  | .arrow domain range _ => ContractExpr.renderDomain domain ++ range.render

/-- The contracts of the arguments, each before an arrow. An arrow among them stands in
parentheses. -/
def ContractExpr.renderDomain : List ContractExpr → String
  | [] => ""
  | d :: ds =>
    (if d.isArrow then "(" ++ d.render ++ ")" else d.render) ++ " -> " ++
      ContractExpr.renderDomain ds

end

end ContractML
