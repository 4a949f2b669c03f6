import ContractML.Expr.Printer
import ContractML.Outline

/-!
# Outlines of programs

A syntax tree with all its details, spans included, as it is dumped for inspection.

## Main definitions

* `Expr.outline`, `ContractExpr.outline`, `Stmt.outline`, `Program.outline` — the outlines.
-/

namespace ContractML

/-- The outline of a span. -/
def Span.outline (s : Span) : Outline :=
  .record "Span" [("start", .leaf (toString s.start)), ("end", .leaf (toString s.stop))]

/-- The outline of a name. -/
def Ident.outline (x : Ident) : Outline :=
  .record "Ident" [("text", .leaf (Text.quoteString x.text)), ("span", x.span.outline)]

/-- The text of a number in an outline. -/
def outlineFloat (x : Float) : String :=
  match FloatKind.of x with
  | .nan => "NaN"
  | .infinite negative => if negative then "-inf" else "inf"
  | _ => Layout.record.render x

/-- The outline of a literal. -/
def Literal.outline : Literal → Outline
  | .int n => .tuple "Int" [.leaf (toString n)]
  | .float x => .tuple "Float" [.leaf (outlineFloat x)]
  | .bool b => .tuple "Bool" [.leaf (if b then "true" else "false")]
  | .char c => .tuple "Char" [.leaf (Text.quoteChar c)]
  | .str s => .tuple "Str" [.leaf (Text.quoteString s)]

/-- The name of an operator in an outline. -/
def UnaryOp.tag : UnaryOp → String
  | neg => "Neg"
  | not => "Not"

/-- The name of an operator in an outline. -/
def BinaryOp.tag : BinaryOp → String
  | add => "Add"
  | sub => "Sub"
  | mul => "Mul"
  | div => "Div"
  | mod => "Mod"
  | fadd => "FAdd"
  | fsub => "FSub"
  | fmul => "FMul"
  | fdiv => "FDiv"
  | pow => "Pow"
  | lt => "Lt"
  | le => "Le"
  | gt => "Gt"
  | ge => "Ge"
  | eq => "Eq"
  | ne => "Ne"
  | same => "PhysEq"
  | differs => "PhysNe"
  | concat => "Concat"

/-- The name of an operator in an outline. -/
def LogicalOp.tag : LogicalOp → String
  | and => "And"
  | or => "Or"

/-- The outline of a name that may be missing. -/
def outlineOption : Option String → Outline
  | none => .leaf "None"
  | some s => .tuple "Some" [.leaf (Text.quoteString s)]

mutual

/-- The outline of an expression. -/
def Expr.outline : Expr → Outline
  | .lit v s => .tuple "Lit" [v.outline, s.outline]
  | .var x => .tuple "Var" [x.outline]
  | .unary op e s =>
    .record "Unary" [("op", .leaf op.tag), ("expr", e.outline), ("span", s.outline)]
  | .binary op l r s =>
    .record "Binary"
      [("lhs", l.outline), ("op", .leaf op.tag), ("rhs", r.outline), ("span", s.outline)]
  | .logical op l r s =>
    .record "Logical"
      [("lhs", l.outline), ("op", .leaf op.tag), ("rhs", r.outline), ("span", s.outline)]
  | .cond c t e s =>
    .record "If"
      [("cond", c.outline), ("then_", t.outline), ("else_", e.outline), ("span", s.outline)]
  | .lambda ps b s =>
    .record "Lambda"
      [("params", .list (ps.map Ident.outline)), ("body", b.outline), ("span", s.outline)]
  | .call f args s =>
    .record "Call"
      [("callee", f.outline), ("args", .list (Expr.outlineAll args)), ("span", s.outline)]
  | .letIn x v b s =>
    .record "Let"
      [("name", x.outline), ("value", v.outline), ("body", b.outline), ("span", s.outline)]
  | .seq es s => .record "Seq" [("exprs", .list (Expr.outlineAll es)), ("span", s.outline)]
  | .monitored e c pos neg =>
    .record "Monitored"
      [("expr", e.outline),
        ("blame", .record "Blame"
          [("contract", c.outline), ("pos", .leaf (Text.quoteString pos)),
            ("neg", outlineOption neg)])]

/-- The outlines of expressions. -/
def Expr.outlineAll : List Expr → List Outline
  | [] => []
  | e :: es => e.outline :: Expr.outlineAll es

/-- The outline of a contract. -/
def ContractExpr.outline : ContractExpr → Outline
  | .flat e => .tuple "Flat" [e.outline]
  | .arrow domain range s =>
    .record "Arrow"
      [("domain", .list (ContractExpr.outlineAll domain)), ("range", range.outline),
        ("span", s.outline)]

/-- The outlines of contracts. -/
def ContractExpr.outlineAll : List ContractExpr → List Outline
  | [] => []
  | c :: cs => c.outline :: ContractExpr.outlineAll cs

end

/-- The outline of a statement. -/
def Stmt.outline : Stmt → Outline
  | .expr e s => .record "Expr" [("expr", e.outline), ("span", s.outline)]
  | .contract x c s =>
    .tuple "Contract"
      [.record "ContractDecl"
        [("name", x.outline), ("contract", c.outline), ("span", s.outline)]]
  | .define x e s =>
    .tuple "Let"
      [.record "LetDecl" [("name", x.outline), ("value", e.outline), ("span", s.outline)]]

/-- The outline of a program. -/
def Program.outline (p : Program) : Outline :=
  .record "Program" [("body", .list (p.body.map Stmt.outline)), ("span", p.span.outline)]

end ContractML
