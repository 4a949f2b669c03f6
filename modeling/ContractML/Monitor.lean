import ContractML.ScopeStack

/-!
# The monitor

The monitor puts the declared contracts into the tree. It wraps every variable that has a contract,
and the right-hand side of every global binding that has one, in `Expr.monitored`. The contract is
blamed on the name it was declared for, or on the binding in whose right-hand side the variable
stands.

The pass goes through a program in order, so a contract reaches what follows its declaration. The
body of a local binding is left alone.

## Main definitions

* `Expr.monitor` — the expression with its variables wrapped.
* `Stmt.monitor`, `Program.monitor` — statements and programs.
-/

namespace ContractML

mutual

/-- Wraps the variables of an expression that have a contract in `scopes`. Their user is the
innermost open scope. -/
def Expr.monitor (scopes : ScopeStack) : Expr → Expr
  | .lit v s => .lit v s
  | .var x =>
    match scopes.lookup? x.text with
    | some c => .monitored (.var x) c x.text scopes.current?
    | none => .var x
  | .unary op e s => .unary op (e.monitor scopes) s
  | .binary op l r s => .binary op (l.monitor scopes) (r.monitor scopes) s
  | .logical op l r s => .logical op (l.monitor scopes) (r.monitor scopes) s
  | .cond c t e s => .cond (c.monitor scopes) (t.monitor scopes) (e.monitor scopes) s
  | .lambda ps b s => .lambda ps (b.monitor scopes) s
  | .call f args s => .call (f.monitor scopes) (Expr.monitorAll scopes args) s
  | .letIn x v b s => .letIn x (v.monitor scopes) b s
  | .seq es s => .seq (Expr.monitorAll scopes es) s
  | .monitored e c pos neg => .monitored e c pos neg

/-- Wraps the variables of several expressions. -/
def Expr.monitorAll (scopes : ScopeStack) : List Expr → List Expr
  | [] => []
  | e :: es => e.monitor scopes :: Expr.monitorAll scopes es

end

/-- The value of a global binding, visited inside the scope of its name and then wrapped by the
contract that the name itself has. -/
def Expr.monitorBinding (name : String) (value : Expr) : StateM ScopeStack Expr := do
  let own := (← get).lookup? name
  let user := (← get).current?
  let value ← ScopeStack.within name (return value.monitor (← get))
  match own with
  | some c => return .monitored value c name user
  | none => return value

/-- Monitors a statement; a contract declaration is recorded and stays as it is. -/
def Stmt.monitor : Stmt → StateM ScopeStack Stmt
  | .contract x c s => do
    modify fun scopes => scopes.declare x.text c
    return .contract x c s
  | .expr e s => return .expr (e.monitor (← get)) s
  | .define x e s => return .define x (← e.monitorBinding x.text) s

/-- Monitors statements in order. -/
def Stmt.monitorAll (stmts : List Stmt) : StateM ScopeStack (List Stmt) :=
  stmts.mapM Stmt.monitor

/-- The program with its contracts put into the tree. -/
def Program.monitor (p : Program) : Program :=
  { p with body := ((Stmt.monitorAll p.body).run .empty).1 }

end ContractML
