import Mathlib.Order.MinMax
import ContractML.Parser.Grammar
import ContractML.Proofs.Tree

/-!
# Trees at another place

A tree that is read at another place of a text differs from the first one in its positions only.
Relocating applies a function to every position, and changes nothing else. The parser computes
positions with `min` and `max`, so its constructions commute with every monotone function: with
moving a text by some bytes, and also with forgetting all positions.

## Main definitions

* `Span.move`, `Token.move`, `Expr.move`, `ContractExpr.move`, `Stmt.move`, `SyntaxError.move` —
  a function applied to all positions.
* `Stmt.shift`, `SyntaxError.shift` — the same, some bytes further.

## Main results

* `Stmt.move_id` — moving by the identity changes nothing.
* `Operator.apply_move`, `Parse.bindingValue_move` — the parser's constructions commute with
  monotone functions.
-/

namespace ContractML

variable {f : Nat → Nat}

/-- A function applied to both ends of a span. -/
def Span.move (f : Nat → Nat) (s : Span) : Span := ⟨f s.start, f s.stop⟩

@[simp] theorem Span.start_move (f : Nat → Nat) (s : Span) : (s.move f).start = f s.start := rfl

@[simp] theorem Span.stop_move (f : Nat → Nat) (s : Span) : (s.move f).stop = f s.stop := rfl

theorem Span.cover_move (hf : Monotone f) (s t : Span) :
    (s.cover t).move f = (s.move f).cover (t.move f) := by
  simp only [Span.move, Span.cover, hf.map_min, hf.map_max]

def Ident.move (f : Nat → Nat) (x : Ident) : Ident := ⟨x.text, x.span.move f⟩

@[simp] theorem Ident.text_move (f : Nat → Nat) (x : Ident) : (x.move f).text = x.text := rfl

def Token.move (f : Nat → Nat) (t : Token) : Token := ⟨t.kind, t.span.move f⟩

@[simp] theorem Token.kind_move (f : Nat → Nat) (t : Token) : (t.move f).kind = t.kind := rfl

@[simp] theorem Token.span_move (f : Nat → Nat) (t : Token) : (t.move f).span = t.span.move f := rfl

mutual

/-- The expression with a function applied to all its positions. -/
def Expr.move (f : Nat → Nat) : Expr → Expr
  | .lit v s => .lit v (s.move f)
  | .var x => .var (x.move f)
  | .unary op e s => .unary op (e.move f) (s.move f)
  | .binary op l r s => .binary op (l.move f) (r.move f) (s.move f)
  | .logical op l r s => .logical op (l.move f) (r.move f) (s.move f)
  | .cond c t e s => .cond (c.move f) (t.move f) (e.move f) (s.move f)
  | .lambda ps b s => .lambda (ps.map (Ident.move f)) (b.move f) (s.move f)
  | .call g args s => .call (g.move f) (Expr.moveAll f args) (s.move f)
  | .letIn x v b s => .letIn (x.move f) (v.move f) (b.move f) (s.move f)
  | .seq es s => .seq (Expr.moveAll f es) (s.move f)
  | .monitored e c pos neg => .monitored (e.move f) (c.move f) pos neg

def Expr.moveAll (f : Nat → Nat) : List Expr → List Expr
  | [] => []
  | e :: es => e.move f :: Expr.moveAll f es

/-- The contract with a function applied to all its positions. -/
def ContractExpr.move (f : Nat → Nat) : ContractExpr → ContractExpr
  | .flat e => .flat (e.move f)
  | .arrow ds r s => .arrow (ContractExpr.moveAll f ds) (r.move f) (s.move f)

def ContractExpr.moveAll (f : Nat → Nat) : List ContractExpr → List ContractExpr
  | [] => []
  | c :: cs => c.move f :: ContractExpr.moveAll f cs

end

theorem Expr.moveAll_eq_map (f : Nat → Nat) (es : List Expr) :
    Expr.moveAll f es = es.map (Expr.move f) := by
  induction es with
  | nil => rfl
  | cons e es ih => rw [Expr.moveAll, ih, List.map_cons]

theorem ContractExpr.moveAll_eq_map (f : Nat → Nat) (cs : List ContractExpr) :
    ContractExpr.moveAll f cs = cs.map (ContractExpr.move f) := by
  induction cs with
  | nil => rfl
  | cons c cs ih => rw [ContractExpr.moveAll, ih, List.map_cons]

@[simp] theorem Expr.span_move (f : Nat → Nat) (e : Expr) : (e.move f).span = e.span.move f := by
  induction e with
  | monitored e c pos neg ih _ => rw [Expr.move, Expr.span, ih, Expr.span]
  | _ => rfl

/-- The statement with a function applied to all its positions. -/
def Stmt.move (f : Nat → Nat) : Stmt → Stmt
  | .expr e s => .expr (e.move f) (s.move f)
  | .contract x c s => .contract (x.move f) (c.move f) (s.move f)
  | .define x e s => .define (x.move f) (e.move f) (s.move f)

@[simp] theorem Stmt.span_move (f : Nat → Nat) (stmt : Stmt) :
    (stmt.move f).span = stmt.span.move f := by
  cases stmt <;> rfl

/-- The statement `k` bytes further in the text. -/
def Stmt.shift (k : Nat) : Stmt → Stmt := Stmt.move (· + k)

/-- The syntax error noticed at another place; what went wrong stays the same. -/
def SyntaxError.move (f : Nat → Nat) (e : SyntaxError) : SyntaxError := ⟨e.cause, e.span.move f⟩

/-- The syntax error `k` bytes further in the text. -/
def SyntaxError.shift (k : Nat) : SyntaxError → SyntaxError := SyntaxError.move (· + k)

@[simp] theorem SyntaxError.message_move (f : Nat → Nat) (e : SyntaxError) :
    (e.move f).message = e.message := rfl

theorem monotone_add (k : Nat) : Monotone fun n : Nat => n + k :=
  fun _ _ h => Nat.add_le_add_right h k

/-! ### Moving nowhere -/

@[simp] theorem Span.move_id (s : Span) : s.move id = s := rfl

@[simp] theorem Ident.move_id : Ident.move id = id := rfl

@[simp] theorem Token.move_id : Token.move id = id := rfl

mutual

theorem Expr.move_id : ∀ e : Expr, e.move id = e
  | .lit v s => rfl
  | .var x => rfl
  | .unary op e s => by rw [Expr.move, Expr.move_id e, Span.move_id]
  | .binary op l r s => by rw [Expr.move, Expr.move_id l, Expr.move_id r, Span.move_id]
  | .logical op l r s => by rw [Expr.move, Expr.move_id l, Expr.move_id r, Span.move_id]
  | .cond c t e s => by
    rw [Expr.move, Expr.move_id c, Expr.move_id t, Expr.move_id e, Span.move_id]
  | .lambda ps b s => by rw [Expr.move, Expr.move_id b, Ident.move_id, List.map_id, Span.move_id]
  | .call f args s => by rw [Expr.move, Expr.move_id f, Expr.moveAll_id args, Span.move_id]
  | .letIn x v b s => by
    rw [Expr.move, Expr.move_id v, Expr.move_id b, Ident.move_id, id_eq, Span.move_id]
  | .seq es s => by rw [Expr.move, Expr.moveAll_id es, Span.move_id]
  | .monitored e c pos neg => by rw [Expr.move, Expr.move_id e, ContractExpr.move_id c]

theorem Expr.moveAll_id : ∀ es : List Expr, Expr.moveAll id es = es
  | [] => rfl
  | e :: es => by rw [Expr.moveAll, Expr.move_id e, Expr.moveAll_id es]

theorem ContractExpr.move_id : ∀ c : ContractExpr, c.move id = c
  | .flat e => by rw [ContractExpr.move, Expr.move_id e]
  | .arrow ds r s => by
    rw [ContractExpr.move, ContractExpr.moveAll_id ds, ContractExpr.move_id r, Span.move_id]

theorem ContractExpr.moveAll_id : ∀ cs : List ContractExpr, ContractExpr.moveAll id cs = cs
  | [] => rfl
  | c :: cs => by rw [ContractExpr.moveAll, ContractExpr.move_id c, ContractExpr.moveAll_id cs]

end

theorem Stmt.move_id (stmt : Stmt) : stmt.move id = stmt := by
  cases stmt with
  | expr e s => rw [Stmt.move, Expr.move_id, Span.move_id]
  | contract x c s => rw [Stmt.move, ContractExpr.move_id, Ident.move_id, id_eq, Span.move_id]
  | define x e s => rw [Stmt.move, Expr.move_id, Ident.move_id, id_eq, Span.move_id]

/-! ### Constructions of the parser -/

theorem Operator.apply_move (hf : Monotone f) (o : Operator) (l r : Expr) :
    (o.apply l r).move f = o.apply (l.move f) (r.move f) := by
  cases o with
  | binary op => simp only [Operator.apply, Expr.move, Expr.span_move, Span.cover_move hf]
  | logical op => simp only [Operator.apply, Expr.move, Expr.span_move, Span.cover_move hf]

theorem Parse.bindingValue_move (hf : Monotone f) (params : List Ident) (value : Expr)
    (valueStart stop : Nat) :
    (bindingValue params value valueStart stop).move f =
      bindingValue (params.map (Ident.move f)) (value.move f) (f valueStart) (f stop) := by
  cases params with
  | nil => rfl
  | cons p ps =>
    simp only [bindingValue, List.map_cons, Expr.move, Ident.move, Span.move, hf.map_min]

end ContractML
