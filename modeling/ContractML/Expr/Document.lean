import ContractML.Expr.Outline
import ContractML.Json

/-!
# Documents of programs

A syntax tree with all its details as a JSON document.

## Main definitions

* `Expr.document`, `ContractExpr.document`, `Stmt.document`, `Program.document` — the documents.
-/

namespace ContractML

/-- The document of a span. -/
def Span.document (s : Span) : Json := .obj [("start", .int s.start), ("end", .int s.stop)]

/-- The document of a name. -/
def Ident.document (x : Ident) : Json :=
  .obj [("text", .str x.text), ("span", x.span.document)]

/-- The document of a literal. -/
def Literal.document : Literal → Json
  | .int n => .obj [("Int", .int n.toInt)]
  | .float x => .obj [("Float", .float x)]
  | .bool b => .obj [("Bool", .bool b)]
  | .char c => .obj [("Char", .str c.toString)]
  | .str s => .obj [("Str", .str s)]

mutual

/-- The document of an expression. -/
def Expr.document : Expr → Json
  | .lit v s => .obj [("Lit", .arr [v.document, s.document])]
  | .var x => .obj [("Var", x.document)]
  | .unary op e s =>
    .obj [("Unary", .obj [("op", .str op.tag), ("expr", e.document), ("span", s.document)])]
  | .binary op l r s =>
    .obj [("Binary", .obj
      [("lhs", l.document), ("op", .str op.tag), ("rhs", r.document), ("span", s.document)])]
  | .logical op l r s =>
    .obj [("Logical", .obj
      [("lhs", l.document), ("op", .str op.tag), ("rhs", r.document), ("span", s.document)])]
  | .cond c t e s =>
    .obj [("If", .obj
      [("cond", c.document), ("then_", t.document), ("else_", e.document), ("span", s.document)])]
  | .lambda ps b s =>
    .obj [("Lambda", .obj
      [("params", .arr (ps.map Ident.document)), ("body", b.document), ("span", s.document)])]
  | .call f args s =>
    .obj [("Call", .obj
      [("callee", f.document), ("args", .arr (Expr.documentAll args)), ("span", s.document)])]
  | .letIn x v b s =>
    .obj [("Let", .obj
      [("name", x.document), ("value", v.document), ("body", b.document), ("span", s.document)])]
  | .seq es s =>
    .obj [("Seq", .obj [("exprs", .arr (Expr.documentAll es)), ("span", s.document)])]
  | .monitored e c pos neg =>
    .obj [("Monitored", .obj
      [("expr", e.document),
        ("blame", .obj
          [("contract", c.document), ("pos", .str pos),
            ("neg", match neg with
              | some n => .str n
              | none => .null)])])]

/-- The documents of expressions. -/
def Expr.documentAll : List Expr → List Json
  | [] => []
  | e :: es => e.document :: Expr.documentAll es

/-- The document of a contract. -/
def ContractExpr.document : ContractExpr → Json
  | .flat e => .obj [("Flat", e.document)]
  | .arrow domain range s =>
    .obj [("Arrow", .obj
      [("domain", .arr (ContractExpr.documentAll domain)), ("range", range.document),
        ("span", s.document)])]

/-- The documents of contracts. -/
def ContractExpr.documentAll : List ContractExpr → List Json
  | [] => []
  | c :: cs => c.document :: ContractExpr.documentAll cs

end

/-- The document of a statement. -/
def Stmt.document : Stmt → Json
  | .expr e s => .obj [("Expr", .obj [("expr", e.document), ("span", s.document)])]
  | .contract x c s =>
    .obj [("Contract", .obj
      [("name", x.document), ("contract", c.document), ("span", s.document)])]
  | .define x e s =>
    .obj [("Let", .obj [("name", x.document), ("value", e.document), ("span", s.document)])]

/-- The document of a program. -/
def Program.document (p : Program) : Json :=
  .obj [("body", .arr (p.body.map Stmt.document)), ("span", p.span.document)]

end ContractML
