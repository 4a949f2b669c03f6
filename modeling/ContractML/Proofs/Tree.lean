import ContractML.Expr.Printer

/-!
# Nodes of trees, and trees without annotations

Statements about all places of a tree are statements about its list of nodes. The list takes in the
contracts of monitored expressions, so that nothing in a tree is out of sight.

Expressions, contracts and lists of both are one mutual type. The induction principles below say
for each form of expression what may be assumed of its parts: of every argument of a call, and of
every predicate of the contract of a monitored expression.

Erasing takes the annotations out of a tree. It leaves every span and every written form alone, and
it changes nothing in a plain tree, one that has no annotations.

## Main definitions

* `Expr.nodes`, `ContractExpr.nodes`, `Stmt.nodes` — the nodes of a tree.
* `ContractExpr.predicates` — the predicates that a contract is made of.
* `Expr.All` — a property of all nodes; `Expr.Plain` and `Expr.IdentityFree` are instances.
* `Annotation`, `Expr.wrappers` — annotations, and those at the root of an expression.
* `Expr.erase`, `ContractExpr.erase`, `Stmt.erase`, `Program.erase` — trees without annotations.

## Main results

* `Expr.inductionOn`, `ContractExpr.inductionOn` — the induction principles.
* `Expr.span_erase`, `Expr.render_erase` — erasing keeps spans and written forms.
* `Expr.Plain.erase_eq` — erasing changes nothing in a plain expression.
-/

namespace ContractML

/-! ### Nodes -/

mutual

/-- An expression and all expressions inside it, also those in the contracts of monitored ones. -/
@[simp] def Expr.nodes : Expr → List Expr
  | .lit v s => [.lit v s]
  | .var x => [.var x]
  | .unary op e s => .unary op e s :: e.nodes
  | .binary op l r s => .binary op l r s :: (l.nodes ++ r.nodes)
  | .logical op l r s => .logical op l r s :: (l.nodes ++ r.nodes)
  | .cond c t e s => .cond c t e s :: (c.nodes ++ (t.nodes ++ e.nodes))
  | .lambda ps b s => .lambda ps b s :: b.nodes
  | .call f args s => .call f args s :: (f.nodes ++ Expr.nodesAll args)
  | .letIn x v b s => .letIn x v b s :: (v.nodes ++ b.nodes)
  | .seq es s => .seq es s :: Expr.nodesAll es
  | .monitored e c pos neg => .monitored e c pos neg :: (e.nodes ++ c.nodes)

/-- The nodes of several expressions. -/
@[simp] def Expr.nodesAll : List Expr → List Expr
  | [] => []
  | e :: es => e.nodes ++ Expr.nodesAll es

/-- The nodes of the predicates of a contract. -/
@[simp] def ContractExpr.nodes : ContractExpr → List Expr
  | .flat e => e.nodes
  | .arrow ds r _ => ContractExpr.nodesAll ds ++ r.nodes

/-- The nodes of the predicates of several contracts. -/
@[simp] def ContractExpr.nodesAll : List ContractExpr → List Expr
  | [] => []
  | c :: cs => c.nodes ++ ContractExpr.nodesAll cs

end

/-- The nodes of the expression or the contract of a statement. -/
def Stmt.nodes : Stmt → List Expr
  | .expr e _ => e.nodes
  | .contract _ c _ => c.nodes
  | .define _ e _ => e.nodes

mutual

/-- The predicates that a contract is made of, from left to right. -/
@[simp] def ContractExpr.predicates : ContractExpr → List Expr
  | .flat e => [e]
  | .arrow ds r _ => ContractExpr.predicatesAll ds ++ r.predicates

/-- The predicates of several contracts. -/
@[simp] def ContractExpr.predicatesAll : List ContractExpr → List Expr
  | [] => []
  | c :: cs => c.predicates ++ ContractExpr.predicatesAll cs

end

theorem ContractExpr.mem_predicatesAll {cs : List ContractExpr} {p : Expr} :
    p ∈ ContractExpr.predicatesAll cs ↔ ∃ c ∈ cs, p ∈ c.predicates := by
  induction cs with
  | nil => simp [ContractExpr.predicatesAll]
  | cons c cs ih => simp [ContractExpr.predicatesAll, ih]

theorem ContractExpr.mem_predicates_arrow {domain : List ContractExpr} {range : ContractExpr}
    {span : Span} {p : Expr} :
    p ∈ (arrow domain range span).predicates ↔
      (∃ d ∈ domain, p ∈ d.predicates) ∨ p ∈ range.predicates := by
  rw [predicates, List.mem_append, mem_predicatesAll]

/-! ### Induction -/

/-- Induction on expressions. Of a list of expressions every member may be assumed to have the
property, and of a contract every predicate. -/
@[induction_eliminator, elab_as_elim]
theorem Expr.inductionOn {motive : Expr → Prop} (e : Expr)
    (lit : ∀ v s, motive (.lit v s))
    (var : ∀ x, motive (.var x))
    (unary : ∀ op e s, motive e → motive (.unary op e s))
    (binary : ∀ op l r s, motive l → motive r → motive (.binary op l r s))
    (logical : ∀ op l r s, motive l → motive r → motive (.logical op l r s))
    (cond : ∀ c t e s, motive c → motive t → motive e → motive (.cond c t e s))
    (lambda : ∀ ps b s, motive b → motive (.lambda ps b s))
    (call : ∀ f args s, motive f → (∀ a ∈ args, motive a) → motive (.call f args s))
    (letIn : ∀ x v b s, motive v → motive b → motive (.letIn x v b s))
    (seq : ∀ es s, (∀ e ∈ es, motive e) → motive (.seq es s))
    (monitored : ∀ e c pos neg, motive e → (∀ p ∈ c.predicates, motive p) →
      motive (.monitored e c pos neg)) :
    motive e := by
  -- The recursor has a motive for each of the four types of the mutual recursion. That of a list
  -- says it of the members, and that of a contract of its predicates.
  refine @Expr.rec motive (fun c => ∀ p ∈ c.predicates, motive p)
    (fun es => ∀ e ∈ es, motive e) (fun cs => ∀ p ∈ ContractExpr.predicatesAll cs, motive p)
    lit var unary binary logical cond lambda call letIn seq monitored ?_ ?_ ?_ ?_ ?_ ?_ e
  · intro p hp q hq
    rw [ContractExpr.predicates, List.mem_singleton] at hq
    exact hq ▸ hp
  · intro ds r s hds hr p hp
    rw [ContractExpr.predicates, List.mem_append] at hp
    exact hp.elim (hds p) (hr p)
  · simp
  · intro e es he hes
    exact List.forall_mem_cons.mpr ⟨he, hes⟩
  · simp [ContractExpr.predicatesAll]
  · intro c cs hc hcs p hp
    rw [ContractExpr.predicatesAll, List.mem_append] at hp
    exact hp.elim (hc p) (hcs p)

/-- Induction on contracts. Of a list of contracts every member may be assumed to have the
property. -/
@[induction_eliminator, elab_as_elim]
theorem ContractExpr.inductionOn {motive : ContractExpr → Prop} (c : ContractExpr)
    (flat : ∀ e, motive (.flat e))
    (arrow : ∀ ds r s, (∀ d ∈ ds, motive d) → motive r → motive (.arrow ds r s)) :
    motive c := by
  -- Nothing is claimed of expressions here, so eleven of the cases are trivial.
  refine @ContractExpr.rec (fun _ => True) motive (fun _ => True) (fun cs => ∀ c ∈ cs, motive c)
    ?_ ?_ ?_ ?_ ?_ ?_ ?_ ?_ ?_ ?_ ?_ (fun e _ => flat e) arrow ?_ ?_ ?_ ?_ c
  case refine_14 => simp
  case refine_15 =>
    intro c cs hc hcs
    exact List.forall_mem_cons.mpr ⟨hc, hcs⟩
  all_goals intros; trivial

/-! ### Properties of all nodes -/

/-- Every node of an expression has a property. -/
def Expr.All (P : Expr → Prop) (e : Expr) : Prop := ∀ n ∈ e.nodes, P n

/-- Every node of a contract has a property. -/
def ContractExpr.All (P : Expr → Prop) (c : ContractExpr) : Prop := ∀ n ∈ c.nodes, P n

section All

variable {P : Expr → Prop}

theorem Expr.forall_mem_nodesAll {es : List Expr} :
    (∀ n ∈ Expr.nodesAll es, P n) ↔ ∀ e ∈ es, e.All P := by
  induction es with
  | nil => simp [Expr.nodesAll]
  | cons e es ih => rw [Expr.nodesAll, List.forall_mem_append, ih, List.forall_mem_cons, Expr.All]

theorem ContractExpr.forall_mem_nodesAll {cs : List ContractExpr} :
    (∀ n ∈ ContractExpr.nodesAll cs, P n) ↔ ∀ c ∈ cs, c.All P := by
  induction cs with
  | nil => simp [ContractExpr.nodesAll]
  | cons c cs ih =>
    rw [ContractExpr.nodesAll, List.forall_mem_append, ih, List.forall_mem_cons, ContractExpr.All]

@[simp] theorem Expr.all_lit {v : Literal} {s : Span} : (Expr.lit v s).All P ↔ P (.lit v s) := by
  simp [Expr.All, Expr.nodes]

@[simp] theorem Expr.all_var {x : Ident} : (Expr.var x).All P ↔ P (.var x) := by
  simp [Expr.All, Expr.nodes]

@[simp] theorem Expr.all_unary {op : UnaryOp} {e : Expr} {s : Span} :
    (Expr.unary op e s).All P ↔ P (.unary op e s) ∧ e.All P := by
  simp only [Expr.All, Expr.nodes, List.forall_mem_cons]

@[simp] theorem Expr.all_binary {op : BinaryOp} {l r : Expr} {s : Span} :
    (Expr.binary op l r s).All P ↔ P (.binary op l r s) ∧ l.All P ∧ r.All P := by
  simp only [Expr.All, Expr.nodes, List.forall_mem_cons, List.forall_mem_append]

@[simp] theorem Expr.all_logical {op : LogicalOp} {l r : Expr} {s : Span} :
    (Expr.logical op l r s).All P ↔ P (.logical op l r s) ∧ l.All P ∧ r.All P := by
  simp only [Expr.All, Expr.nodes, List.forall_mem_cons, List.forall_mem_append]

@[simp] theorem Expr.all_cond {c t e : Expr} {s : Span} :
    (Expr.cond c t e s).All P ↔ P (.cond c t e s) ∧ c.All P ∧ t.All P ∧ e.All P := by
  simp only [Expr.All, Expr.nodes, List.forall_mem_cons, List.forall_mem_append]

@[simp] theorem Expr.all_lambda {ps : List Ident} {b : Expr} {s : Span} :
    (Expr.lambda ps b s).All P ↔ P (.lambda ps b s) ∧ b.All P := by
  simp only [Expr.All, Expr.nodes, List.forall_mem_cons]

@[simp] theorem Expr.all_call {f : Expr} {args : List Expr} {s : Span} :
    (Expr.call f args s).All P ↔ P (.call f args s) ∧ f.All P ∧ ∀ a ∈ args, a.All P := by
  rw [Expr.All, Expr.nodes, List.forall_mem_cons, List.forall_mem_append,
    Expr.forall_mem_nodesAll, Expr.All]

@[simp] theorem Expr.all_letIn {x : Ident} {v b : Expr} {s : Span} :
    (Expr.letIn x v b s).All P ↔ P (.letIn x v b s) ∧ v.All P ∧ b.All P := by
  simp only [Expr.All, Expr.nodes, List.forall_mem_cons, List.forall_mem_append]

@[simp] theorem Expr.all_seq {es : List Expr} {s : Span} :
    (Expr.seq es s).All P ↔ P (.seq es s) ∧ ∀ e ∈ es, e.All P := by
  rw [Expr.All, Expr.nodes, List.forall_mem_cons, Expr.forall_mem_nodesAll]

@[simp] theorem Expr.all_monitored {e : Expr} {c : ContractExpr} {pos : String}
    {neg : Option String} :
    (Expr.monitored e c pos neg).All P ↔ P (.monitored e c pos neg) ∧ e.All P ∧ c.All P := by
  simp only [Expr.All, ContractExpr.All, Expr.nodes, List.forall_mem_cons, List.forall_mem_append]

@[simp] theorem ContractExpr.all_flat {e : Expr} : (ContractExpr.flat e).All P ↔ e.All P := by
  rw [ContractExpr.All, ContractExpr.nodes, Expr.All]

@[simp] theorem ContractExpr.all_arrow {ds : List ContractExpr} {r : ContractExpr} {s : Span} :
    (ContractExpr.arrow ds r s).All P ↔ (∀ d ∈ ds, d.All P) ∧ r.All P := by
  rw [ContractExpr.All, ContractExpr.nodes, List.forall_mem_append,
    ContractExpr.forall_mem_nodesAll, ContractExpr.All]

/-- What holds of all nodes of an expression holds of the expression. -/
theorem Expr.All.self {e : Expr} (h : e.All P) : P e :=
  h e (by cases e <;> simp [Expr.nodes])

/-- What holds of all nodes of a contract holds of all nodes of its predicates. -/
theorem ContractExpr.All.predicates {c : ContractExpr} (h : c.All P) {p : Expr}
    (hp : p ∈ c.predicates) : p.All P := by
  induction c with
  | flat e =>
    rw [ContractExpr.predicates, List.mem_singleton] at hp
    rw [ContractExpr.all_flat] at h
    exact hp ▸ h
  | arrow ds r s ihds ihr =>
    rw [ContractExpr.all_arrow] at h
    rcases ContractExpr.mem_predicates_arrow.mp hp with ⟨d, hd, hpd⟩ | hp
    · exact ihds d hd (h.1 d hd) hpd
    · exact ihr h.2 hp

end All

/-- Whether an expression is monitored at its root. -/
def Expr.isMonitored : Expr → Bool
  | .monitored _ _ _ _ => true
  | _ => false

/-- Whether an expression is a sequence of no expressions. -/
def Expr.isHollow : Expr → Bool
  | .seq [] _ => true
  | _ => false

/-- Whether an expression is a comparison by identity, `==` or `!=`. -/
def Expr.isIdentityTest : Expr → Bool
  | .binary .same _ _ _ => true
  | .binary .differs _ _ _ => true
  | _ => false

/-- An expression without annotations. -/
def Expr.Plain (e : Expr) : Prop := e.All fun n => n.isMonitored = false

/-- A contract without annotations. -/
def ContractExpr.Plain (c : ContractExpr) : Prop := c.All fun n => n.isMonitored = false

/-- An expression in which nothing is compared by identity. -/
def Expr.IdentityFree (e : Expr) : Prop := e.All fun n => n.isIdentityTest = false

/-- A contract in which nothing is compared by identity. -/
def ContractExpr.IdentityFree (c : ContractExpr) : Prop := c.All fun n => n.isIdentityTest = false

/-- A statement whose expressions and contracts have no annotations. -/
def Stmt.Plain : Stmt → Prop
  | .expr e _ => e.Plain
  | .contract _ c _ => c.Plain
  | .define _ e _ => e.Plain

/-- A statement in which nothing is compared by identity, also not in a contract. -/
def Stmt.IdentityFree : Stmt → Prop
  | .expr e _ => e.IdentityFree
  | .contract _ c _ => c.IdentityFree
  | .define _ e _ => e.IdentityFree

/-- A program without annotations. -/
def Program.Plain (p : Program) : Prop := ∀ stmt ∈ p.body, stmt.Plain

/-- A program in which nothing is compared by identity. -/
def Program.IdentityFree (p : Program) : Prop := ∀ stmt ∈ p.body, stmt.IdentityFree

instance : DecidablePred Expr.IdentityFree := fun e =>
  inferInstanceAs (Decidable (∀ n ∈ e.nodes, n.isIdentityTest = false))

instance : DecidablePred ContractExpr.IdentityFree := fun c =>
  inferInstanceAs (Decidable (∀ n ∈ c.nodes, n.isIdentityTest = false))

instance : DecidablePred Stmt.IdentityFree
  | .expr e _ => inferInstanceAs (Decidable e.IdentityFree)
  | .contract _ c _ => inferInstanceAs (Decidable c.IdentityFree)
  | .define _ e _ => inferInstanceAs (Decidable e.IdentityFree)

instance : DecidablePred Program.IdentityFree := fun p =>
  inferInstanceAs (Decidable (∀ stmt ∈ p.body, stmt.IdentityFree))

/-! ### Annotations -/

/-- What a monitored expression is annotated with: the contract, the name that supplies the value,
and the binding that uses it; no `neg` means the top level. -/
structure Annotation where
  /-- The contract. -/
  contract : ContractExpr
  /-- Who supplies the value. -/
  pos : String
  /-- Who uses the value. -/
  neg : Option String
  deriving Inhabited

/-- The annotations at the root of an expression, the outermost one first. -/
def Expr.wrappers : Expr → List Annotation
  | .monitored e c pos neg => ⟨c, pos, neg⟩ :: e.wrappers
  | _ => []

/-- The root of a plain expression has no annotations. -/
theorem Expr.Plain.wrappers_eq {e : Expr} (h : e.Plain) : e.wrappers = [] := by
  cases e with
  | monitored e c pos neg => exact absurd (Expr.all_monitored.mp h).1 (by simp [Expr.isMonitored])
  | _ => rfl

/-! ### Erasing annotations -/

mutual

/-- The expression without its annotations. -/
@[simp] def Expr.erase : Expr → Expr
  | .lit v s => .lit v s
  | .var x => .var x
  | .unary op e s => .unary op e.erase s
  | .binary op l r s => .binary op l.erase r.erase s
  | .logical op l r s => .logical op l.erase r.erase s
  | .cond c t e s => .cond c.erase t.erase e.erase s
  | .lambda ps b s => .lambda ps b.erase s
  | .call f args s => .call f.erase (Expr.eraseAll args) s
  | .letIn x v b s => .letIn x v.erase b.erase s
  | .seq es s => .seq (Expr.eraseAll es) s
  | .monitored e _ _ _ => e.erase

/-- The expressions without their annotations. -/
@[simp] def Expr.eraseAll : List Expr → List Expr
  | [] => []
  | e :: es => e.erase :: Expr.eraseAll es

end

mutual

/-- The contract with the annotations of its predicates taken out. -/
@[simp] def ContractExpr.erase : ContractExpr → ContractExpr
  | .flat e => .flat e.erase
  | .arrow ds r s => .arrow (ContractExpr.eraseAll ds) r.erase s

/-- The contracts with the annotations of their predicates taken out. -/
@[simp] def ContractExpr.eraseAll : List ContractExpr → List ContractExpr
  | [] => []
  | c :: cs => c.erase :: ContractExpr.eraseAll cs

end

/-- The statement without its annotations. -/
@[simp] def Stmt.erase : Stmt → Stmt
  | .expr e s => .expr e.erase s
  | .contract x c s => .contract x c.erase s
  | .define x e s => .define x e.erase s

/-- The program without its annotations. -/
@[simp] def Program.erase (p : Program) : Program := { p with body := p.body.map Stmt.erase }

theorem Expr.eraseAll_eq_map (es : List Expr) : Expr.eraseAll es = es.map Expr.erase := by
  induction es with
  | nil => rfl
  | cons e es ih => rw [Expr.eraseAll, ih, List.map_cons]

theorem Expr.forall_mem_eraseAll {P : Expr → Prop} {es : List Expr} :
    (∀ e ∈ Expr.eraseAll es, P e) ↔ ∀ e ∈ es, P e.erase := by
  rw [Expr.eraseAll_eq_map, List.forall_mem_map]

theorem Expr.eraseAll_eq_self {es : List Expr} (h : ∀ e ∈ es, e.erase = e) :
    Expr.eraseAll es = es := by
  rw [Expr.eraseAll_eq_map, List.map_congr_left h, List.map_id']

theorem ContractExpr.eraseAll_eq_map (cs : List ContractExpr) :
    ContractExpr.eraseAll cs = cs.map ContractExpr.erase := by
  induction cs with
  | nil => rfl
  | cons c cs ih => rw [ContractExpr.eraseAll, ih, List.map_cons]

/-- An expression stands where it stands without its annotations. -/
@[simp] theorem Expr.span_erase (e : Expr) : e.erase.span = e.span := by
  induction e with
  | monitored e c pos neg ih _ => rw [Expr.erase, ih, Expr.span]
  | _ => rfl

theorem Expr.renderArgs_congr {es : List Expr} (h : ∀ e ∈ es, e.erase.render = e.render) :
    Expr.renderArgs (Expr.eraseAll es) = Expr.renderArgs es := by
  induction es with
  | nil => rfl
  | cons e es ih =>
    rw [List.forall_mem_cons] at h
    rw [Expr.eraseAll, Expr.renderArgs, Expr.renderArgs, h.1, ih h.2]

theorem Expr.renderItems_congr {es : List Expr} (h : ∀ e ∈ es, e.erase.render = e.render) :
    Expr.renderItems (Expr.eraseAll es) = Expr.renderItems es := by
  induction es with
  | nil => rfl
  | cons e es ih =>
    rw [List.forall_mem_cons] at h
    cases es with
    | nil => simp only [Expr.eraseAll, Expr.renderItems, h.1]
    | cons e' es =>
      -- A separator stands between two items, so the rest is unfolded once more to be matched.
      have htail := ih h.2
      simp only [Expr.eraseAll, Expr.renderItems, h.1] at htail ⊢
      rw [htail]

/-- An expression is written as it is written without its annotations. -/
@[simp] theorem Expr.render_erase (e : Expr) : e.erase.render = e.render := by
  induction e with
  | lit v s => rfl
  | var x => rfl
  | unary op e s ih => simp only [Expr.erase, Expr.render, ih]
  | binary op l r s ihl ihr => simp only [Expr.erase, Expr.render, ihl, ihr]
  | logical op l r s ihl ihr => simp only [Expr.erase, Expr.render, ihl, ihr]
  | cond c t e s ihc iht ihe => simp only [Expr.erase, Expr.render, ihc, iht, ihe]
  | lambda ps b s ih => simp only [Expr.erase, Expr.render, ih]
  | call f args s ihf ihargs =>
    simp only [Expr.erase, Expr.render, ihf, Expr.renderArgs_congr ihargs]
  | letIn x v b s ihv ihb => simp only [Expr.erase, Expr.render, ihv, ihb]
  | seq es s ih => simp only [Expr.erase, Expr.render, Expr.renderItems_congr ih]
  | monitored e c pos neg ih _ => rw [Expr.erase, ih, Expr.render]

/-- Erasing changes nothing in a plain expression. -/
theorem Expr.Plain.erase_eq {e : Expr} (h : e.Plain) : e.erase = e := by
  unfold Expr.Plain at h
  induction e with
  | lit v s => rfl
  | var x => rfl
  | unary op e s ih =>
    rw [Expr.all_unary] at h
    rw [Expr.erase, ih h.2]
  | binary op l r s ihl ihr =>
    rw [Expr.all_binary] at h
    rw [Expr.erase, ihl h.2.1, ihr h.2.2]
  | logical op l r s ihl ihr =>
    rw [Expr.all_logical] at h
    rw [Expr.erase, ihl h.2.1, ihr h.2.2]
  | cond c t e s ihc iht ihe =>
    rw [Expr.all_cond] at h
    rw [Expr.erase, ihc h.2.1, iht h.2.2.1, ihe h.2.2.2]
  | lambda ps b s ih =>
    rw [Expr.all_lambda] at h
    rw [Expr.erase, ih h.2]
  | call f args s ihf ihargs =>
    rw [Expr.all_call] at h
    rw [Expr.erase, ihf h.2.1, Expr.eraseAll_eq_self fun a ha => ihargs a ha (h.2.2 a ha)]
  | letIn x v b s ihv ihb =>
    rw [Expr.all_letIn] at h
    rw [Expr.erase, ihv h.2.1, ihb h.2.2]
  | seq es s ih =>
    rw [Expr.all_seq] at h
    rw [Expr.erase, Expr.eraseAll_eq_self fun e he => ih e he (h.2 e he)]
  -- The root of a plain expression is not monitored.
  | monitored e c pos neg _ _ =>
    rw [Expr.all_monitored] at h
    exact absurd h.1 (by simp [Expr.isMonitored])

/-- Erasing changes nothing in a plain contract. -/
theorem ContractExpr.Plain.erase_eq {c : ContractExpr} (h : c.Plain) : c.erase = c := by
  unfold ContractExpr.Plain at h
  induction c with
  | flat e =>
    rw [ContractExpr.all_flat] at h
    rw [ContractExpr.erase, Expr.Plain.erase_eq h]
  | arrow ds r s ihds ihr =>
    rw [ContractExpr.all_arrow] at h
    -- The domains are erased one by one, which is a map over the list.
    have hds : ds.map ContractExpr.erase = ds := by
      rw [List.map_congr_left fun d hd => ihds d hd (h.1 d hd), List.map_id']
    rw [ContractExpr.erase, ContractExpr.eraseAll_eq_map, hds, ihr h.2]

end ContractML
