import ContractML.Monitor
import ContractML.Proofs.Tree

/-!
# Where the monitor puts annotations

A place in an expression is a path from its root, given by the number of the part taken at each
step. An annotation is no step of its own, so a place of a plain expression is also a place of
what the monitor makes of it, and the two expressions there can be compared.

A variable is due an annotation if it has a contract and does not stand in the body of a local
binding. The right-hand side of a global binding is due one of its own if the bound name has a
contract. The monitor puts exactly these annotations: at every place of every statement the
annotations are the due ones, and without them the program is the one that was given.

## Main definitions

* `Expr.parts`, `Expr.at?` — the parts of an expression, and the expression at a place.
* `Expr.inLetBody` — whether a place lies in the body of a local binding.
* `Stmt.lastDeclared` — the contract of a name after some statements.
* `Expr.due` — the annotations that belong to a place.
* `Expr.Monitors` — an expression with the due annotations at every place.

## Main results

* `Expr.erase_monitor` — without annotations the monitored expression is the given one.
* `Expr.all_monitor` — what the monitor keeps at each node, it keeps throughout.
* `Expr.monitors_monitor` — the monitor puts the due annotations into an expression.
* `Program.monitor_places_annotations` — **the monitor puts the due annotations into a program**.
-/

namespace ContractML

/-! ### Places -/

/-- The parts of an expression, from left to right; annotations have none of their own. -/
def Expr.parts : Expr → List Expr
  | .lit _ _ => []
  | .var _ => []
  | .unary _ e _ => [e]
  | .binary _ l r _ => [l, r]
  | .logical _ l r _ => [l, r]
  | .cond c t e _ => [c, t, e]
  | .lambda _ b _ => [b]
  | .call f args _ => f :: args
  | .letIn _ v b _ => [v, b]
  | .seq es _ => es
  | .monitored e _ _ _ => e.parts

/-- The expression at a place, with the annotations around it. -/
def Expr.at? : Expr → List Nat → Option Expr
  | e, [] => some e
  | e, i :: path => e.parts[i]?.bind fun part => part.at? path

/-- Whether an expression is a local binding. -/
def Expr.isLet : Expr → Bool
  | .letIn _ _ _ _ => true
  | _ => false

/-- Whether a place lies in the body of a local binding, which is its second part. -/
def Expr.inLetBody : Expr → List Nat → Bool
  | _, [] => false
  | e, i :: path => (e.isLet && i == 1) || e.parts[i]?.any fun part => part.inLetBody path

@[simp] theorem Expr.at?_nil (e : Expr) : e.at? [] = some e := rfl

theorem Expr.at?_cons (e : Expr) (i : Nat) (path : List Nat) :
    e.at? (i :: path) = e.parts[i]?.bind fun part => part.at? path := rfl

theorem Expr.inLetBody_cons (e : Expr) (i : Nat) (path : List Nat) :
    e.inLetBody (i :: path) =
      ((e.isLet && i == 1) || e.parts[i]?.any fun part => part.inLetBody path) := rfl

/-- The parts of a plain expression are plain. -/
theorem Expr.Plain.parts {e part : Expr} (h : e.Plain) (hp : part ∈ e.parts) : part.Plain := by
  unfold Expr.Plain at h ⊢
  cases e with
  | lit v s => simp [Expr.parts] at hp
  | var x => simp [Expr.parts] at hp
  | unary op e s =>
    rw [Expr.all_unary] at h
    rw [Expr.parts, List.mem_singleton] at hp
    exact hp ▸ h.2
  | binary op l r s =>
    rw [Expr.all_binary] at h
    simp only [Expr.parts, List.mem_cons, List.not_mem_nil, or_false] at hp
    rcases hp with rfl | rfl
    · exact h.2.1
    · exact h.2.2
  | logical op l r s =>
    rw [Expr.all_logical] at h
    simp only [Expr.parts, List.mem_cons, List.not_mem_nil, or_false] at hp
    rcases hp with rfl | rfl
    · exact h.2.1
    · exact h.2.2
  | cond c t e s =>
    rw [Expr.all_cond] at h
    simp only [Expr.parts, List.mem_cons, List.not_mem_nil, or_false] at hp
    rcases hp with rfl | rfl | rfl
    · exact h.2.1
    · exact h.2.2.1
    · exact h.2.2.2
  | lambda ps b s =>
    rw [Expr.all_lambda] at h
    rw [Expr.parts, List.mem_singleton] at hp
    exact hp ▸ h.2
  | call f args s =>
    rw [Expr.all_call] at h
    rw [Expr.parts, List.mem_cons] at hp
    rcases hp with rfl | hp
    · exact h.2.1
    · exact h.2.2 part hp
  | letIn x v b s =>
    rw [Expr.all_letIn] at h
    simp only [Expr.parts, List.mem_cons, List.not_mem_nil, or_false] at hp
    rcases hp with rfl | rfl
    · exact h.2.1
    · exact h.2.2
  | seq es s =>
    rw [Expr.all_seq] at h
    exact h.2 part hp
  | monitored e c pos neg =>
    exact absurd (Expr.all_monitored.mp h).1 (by simp [Expr.isMonitored])

/-- What stands at a place of a plain expression is plain. -/
theorem Expr.Plain.at? {e n : Expr} {path : List Nat} (h : e.Plain) (hn : e.at? path = some n) :
    n.Plain := by
  induction path generalizing e with
  | nil =>
    rw [Expr.at?_nil, Option.some.injEq] at hn
    exact hn ▸ h
  | cons i path ih =>
    rw [Expr.at?_cons, Option.bind_eq_some_iff] at hn
    obtain ⟨part, hpart, hn⟩ := hn
    exact ih (h.parts (List.mem_of_getElem? hpart)) hn

/-! ### What the monitor does to an expression -/

theorem Expr.monitorAll_eq_map (scopes : ScopeStack) (es : List Expr) :
    Expr.monitorAll scopes es = es.map (Expr.monitor scopes) := by
  induction es with
  | nil => rfl
  | cons e es ih => rw [Expr.monitorAll, ih, List.map_cons]

/-- Without its annotations, what the monitor makes of a plain expression is that expression. -/
theorem Expr.erase_monitor (scopes : ScopeStack) {e : Expr} (h : e.Plain) :
    (e.monitor scopes).erase = e := by
  unfold Expr.Plain at h
  induction e with
  | lit v s => rfl
  | var x =>
    rw [Expr.monitor]
    split <;> rfl
  | unary op e s ih =>
    rw [Expr.all_unary] at h
    rw [Expr.monitor, Expr.erase, ih h.2]
  | binary op l r s ihl ihr =>
    rw [Expr.all_binary] at h
    rw [Expr.monitor, Expr.erase, ihl h.2.1, ihr h.2.2]
  | logical op l r s ihl ihr =>
    rw [Expr.all_logical] at h
    rw [Expr.monitor, Expr.erase, ihl h.2.1, ihr h.2.2]
  | cond c t e s ihc iht ihe =>
    rw [Expr.all_cond] at h
    rw [Expr.monitor, Expr.erase, ihc h.2.1, iht h.2.2.1, ihe h.2.2.2]
  | lambda ps b s ih =>
    rw [Expr.all_lambda] at h
    rw [Expr.monitor, Expr.erase, ih h.2]
  | call f args s ihf ihargs =>
    rw [Expr.all_call] at h
    have hargs : Expr.eraseAll (Expr.monitorAll scopes args) = args := by
      rw [Expr.monitorAll_eq_map, Expr.eraseAll_eq_map, List.map_map]
      exact (List.map_congr_left fun a ha => ihargs a ha (h.2.2 a ha)).trans (List.map_id' args)
    rw [Expr.monitor, Expr.erase, ihf h.2.1, hargs]
  | letIn x v b s ihv _ =>
    rw [Expr.all_letIn] at h
    -- The monitor does not go into the body, which is plain as it is.
    rw [Expr.monitor, Expr.erase, ihv h.2.1, Expr.Plain.erase_eq h.2.2]
  | seq es s ih =>
    rw [Expr.all_seq] at h
    have hes : Expr.eraseAll (Expr.monitorAll scopes es) = es := by
      rw [Expr.monitorAll_eq_map, Expr.eraseAll_eq_map, List.map_map]
      exact (List.map_congr_left fun e he => ih e he (h.2 e he)).trans (List.map_id' es)
    rw [Expr.monitor, Expr.erase, hes]
  | monitored e c pos neg _ _ =>
    exact absurd (Expr.all_monitored.mp h).1 (by simp [Expr.isMonitored])

/-- The monitor leaves every expression at its place. -/
theorem Expr.span_monitor (scopes : ScopeStack) (e : Expr) :
    (e.monitor scopes).span = e.span := by
  cases e with
  | var x =>
    rw [Expr.monitor]
    split <;> rfl
  | _ => rfl

/-- The monitor leaves no sequence empty that was not. -/
theorem Expr.isHollow_monitor (scopes : ScopeStack) (e : Expr) :
    (e.monitor scopes).isHollow = e.isHollow := by
  cases e with
  | var x =>
    rw [Expr.monitor]
    split <;> rfl
  | seq es s => cases es <;> rfl
  | _ => rfl

/-- What the monitor keeps at each node holds of all nodes of the tree that it makes, if it holds of
all nodes of the given tree and of the contracts. -/
theorem Expr.all_monitor {P : Expr → Prop} {scopes : ScopeStack}
    (hP : ∀ n, P n → P (n.monitor scopes))
    (hscopes : ∀ name k, scopes.lookup? name = some k → k.All P) {e : Expr} (he : e.All P) :
    (e.monitor scopes).All P := by
  induction e with
  | lit v s => exact he
  | var x =>
    -- A variable with a contract becomes a new node around it and around the contract.
    have hroot := hP _ he.self
    rw [Expr.monitor] at hroot ⊢
    split
    · rename_i k hk
      rw [hk] at hroot
      exact Expr.all_monitored.mpr ⟨hroot, he, hscopes x.text k hk⟩
    · exact he
  | unary op e s ih =>
    have hroot := hP _ he.self
    rw [Expr.all_unary] at he
    exact Expr.all_unary.mpr ⟨hroot, ih he.2⟩
  | binary op l r s ihl ihr =>
    have hroot := hP _ he.self
    rw [Expr.all_binary] at he
    exact Expr.all_binary.mpr ⟨hroot, ihl he.2.1, ihr he.2.2⟩
  | logical op l r s ihl ihr =>
    have hroot := hP _ he.self
    rw [Expr.all_logical] at he
    exact Expr.all_logical.mpr ⟨hroot, ihl he.2.1, ihr he.2.2⟩
  | cond c t e s ihc iht ihe =>
    have hroot := hP _ he.self
    rw [Expr.all_cond] at he
    exact Expr.all_cond.mpr ⟨hroot, ihc he.2.1, iht he.2.2.1, ihe he.2.2.2⟩
  | lambda ps b s ih =>
    have hroot := hP _ he.self
    rw [Expr.all_lambda] at he
    exact Expr.all_lambda.mpr ⟨hroot, ih he.2⟩
  | call f args s ihf ihargs =>
    have hroot := hP _ he.self
    rw [Expr.all_call] at he
    rw [Expr.monitor, Expr.monitorAll_eq_map] at hroot ⊢
    refine Expr.all_call.mpr ⟨hroot, ihf he.2.1, List.forall_mem_map.mpr ?_⟩
    exact fun a ha => ihargs a ha (he.2.2 a ha)
  | letIn x v b s ihv _ =>
    have hroot := hP _ he.self
    rw [Expr.all_letIn] at he
    -- Again the body is not visited.
    exact Expr.all_letIn.mpr ⟨hroot, ihv he.2.1, he.2.2⟩
  | seq es s ih =>
    have hroot := hP _ he.self
    rw [Expr.all_seq] at he
    rw [Expr.monitor, Expr.monitorAll_eq_map] at hroot ⊢
    refine Expr.all_seq.mpr ⟨hroot, List.forall_mem_map.mpr ?_⟩
    exact fun e hmem => ih e hmem (he.2 e hmem)
  | monitored e k pos neg _ _ => exact he

/-- The monitor goes into every part of an expression but the body of a local binding. -/
theorem Expr.getElem?_parts_monitor (scopes : ScopeStack) {e : Expr} (h : e.Plain) (i : Nat) :
    (e.monitor scopes).parts[i]? =
      e.parts[i]?.map fun part => if e.isLet && i == 1 then part else part.monitor scopes := by
  cases e with
  | lit v s => rfl
  | var x =>
    rw [Expr.monitor]
    split <;> rfl
  -- Which parts there are is seen from the constructor, case by case in their number.
  | unary op e s => match i with | 0 => rfl | _ + 1 => rfl
  | binary op l r s => match i with | 0 => rfl | 1 => rfl | _ + 2 => rfl
  | logical op l r s => match i with | 0 => rfl | 1 => rfl | _ + 2 => rfl
  | cond c t e s => match i with | 0 => rfl | 1 => rfl | 2 => rfl | _ + 3 => rfl
  | lambda ps b s => match i with | 0 => rfl | _ + 1 => rfl
  | call f args s =>
    simp only [Expr.monitor, Expr.parts, Expr.isLet, Expr.monitorAll_eq_map, Bool.false_and]
    rw [← List.map_cons, List.getElem?_map]
    rfl
  | letIn x v b s => match i with | 0 => rfl | 1 => rfl | _ + 2 => rfl
  | seq es s =>
    simp only [Expr.monitor, Expr.parts, Expr.isLet, Expr.monitorAll_eq_map, Bool.false_and]
    rw [List.getElem?_map]
    rfl
  | monitored e c pos neg =>
    exact absurd (Expr.all_monitored.mp h).1 (by simp [Expr.isMonitored])

/-! ### The due annotations -/

/-- The annotations that belong to a place of an expression, when `table` gives the contracts of
names and `user` uses the values: one around a variable that has a contract, unless the place lies
in the body of a local binding. -/
def Expr.due (table : String → Option ContractExpr) (user : Option String) (e : Expr)
    (path : List Nat) : List Annotation :=
  match e.at? path with
  | some (.var x) =>
    if e.inLetBody path then [] else ((table x.text).map fun c => ⟨c, x.text, user⟩).toList
  | _ => []

/-- The expression `m` is `e` with the due annotations at every place, and the annotations `own`
around all of it. It has the places of `e`, with the same spans and written forms. -/
structure Expr.Monitors (own : List Annotation) (table : String → Option ContractExpr)
    (user : Option String) (e m : Expr) : Prop where
  /-- Without its annotations it is the given expression. -/
  erase_eq : m.erase = e
  /-- At every place it has the due annotations, and no others. -/
  at?_some : ∀ path n, e.at? path = some n → ∃ k, m.at? path = some k ∧
    k.erase = n ∧ k.span = n.span ∧ k.render = n.render ∧
      k.wrappers = (if path = [] then own else []) ++ e.due table user path
  /-- It has no other places. -/
  at?_none : ∀ path, e.at? path = none → m.at? path = none

/-- A place in the body of a local binding is due nothing. -/
theorem Expr.due_of_inLetBody {table : String → Option ContractExpr} {user : Option String}
    {e : Expr} {path : List Nat} (h : e.inLetBody path = true) : e.due table user path = [] := by
  unfold Expr.due
  split
  · rw [h, if_pos rfl]
  · rfl

/-- Outside the body of a local binding, what is due to a place of a part is due to the place in
the whole. -/
theorem Expr.due_cons {table : String → Option ContractExpr} {user : Option String}
    {e part : Expr} {i : Nat} (hpart : e.parts[i]? = some part) (hlet : (e.isLet && i == 1) = false)
    (path : List Nat) : e.due table user (i :: path) = part.due table user path := by
  unfold Expr.due
  rw [Expr.at?_cons, Expr.inLetBody_cons, hpart, hlet]
  rfl

/-- The annotations that the monitor puts at the root of an expression are the due ones. -/
theorem Expr.wrappers_monitor (scopes : ScopeStack) {e : Expr} (h : e.Plain) :
    (e.monitor scopes).wrappers = e.due scopes.lookup? scopes.current? [] := by
  cases e with
  | var x =>
    simp only [Expr.monitor, Expr.due, Expr.at?_nil, Expr.inLetBody]
    cases scopes.lookup? x.text <;> rfl
  | monitored e c pos neg =>
    exact absurd (Expr.all_monitored.mp h).1 (by simp [Expr.isMonitored])
  | _ => rfl

/-- At every place of a plain expression the monitor puts the due annotations. -/
theorem Expr.at?_monitor (scopes : ScopeStack) {e n : Expr} (h : e.Plain) {path : List Nat}
    (hn : e.at? path = some n) :
    ∃ k, (e.monitor scopes).at? path = some k ∧ k.erase = n ∧
      k.wrappers = e.due scopes.lookup? scopes.current? path := by
  induction path generalizing e with
  | nil =>
    rw [Expr.at?_nil, Option.some.injEq] at hn
    subst hn
    -- At the root the annotations are those that the monitor puts there.
    exact ⟨_, rfl, Expr.erase_monitor scopes h, Expr.wrappers_monitor scopes h⟩
  | cons i path ih =>
    rw [Expr.at?_cons, Option.bind_eq_some_iff] at hn
    obtain ⟨part, hpart, hn⟩ := hn
    have hplain : part.Plain := h.parts (List.mem_of_getElem? hpart)
    rw [Expr.at?_cons, Expr.getElem?_parts_monitor scopes h, hpart, Option.map_some,
      Option.bind_some]
    cases hlet : (e.isLet && i == 1) with
    | true =>
      -- The body of a local binding is left as it is, so nothing in it has an annotation.
      have hnplain : n.Plain := hplain.at? hn
      have hbody : e.inLetBody (i :: path) = true := by rw [Expr.inLetBody_cons, hlet, Bool.true_or]
      exact ⟨n, hn, hnplain.erase_eq, by rw [hnplain.wrappers_eq, Expr.due_of_inLetBody hbody]⟩
    | false =>
      obtain ⟨k, hk, herase, hwrap⟩ := ih hplain hn
      exact ⟨k, hk, herase, by rw [hwrap, Expr.due_cons hpart hlet]⟩

/-- The monitor adds no places to a plain expression. -/
theorem Expr.at?_monitor_none (scopes : ScopeStack) {e : Expr} (h : e.Plain) {path : List Nat}
    (hn : e.at? path = none) : (e.monitor scopes).at? path = none := by
  induction path generalizing e with
  | nil => simp at hn
  | cons i path ih =>
    rw [Expr.at?_cons] at hn
    rw [Expr.at?_cons, Expr.getElem?_parts_monitor scopes h]
    cases hpart : e.parts[i]? with
    | none => rfl
    | some part =>
      rw [hpart, Option.bind_some] at hn
      rw [Option.map_some, Option.bind_some]
      cases hlet : (e.isLet && i == 1) with
      | true => exact hn
      | false => exact ih (h.parts (List.mem_of_getElem? hpart)) hn

/-- **The monitor puts the due annotations into an expression**, and no others. -/
theorem Expr.monitors_monitor (scopes : ScopeStack) {e : Expr} (h : e.Plain) :
    Expr.Monitors [] scopes.lookup? scopes.current? e (e.monitor scopes) where
  erase_eq := Expr.erase_monitor scopes h
  at?_some := by
    intro path n hn
    obtain ⟨k, hk, herase, hwrap⟩ := Expr.at?_monitor scopes h hn
    refine ⟨k, hk, herase, ?_, ?_, ?_⟩
    · rw [← herase, Expr.span_erase]
    · rw [← herase, Expr.render_erase]
    · rw [hwrap, ite_self, List.nil_append]
  at?_none := fun _ hn => Expr.at?_monitor_none scopes h hn

/-- Putting one more annotation around an expression leaves all its places inside alone. -/
theorem Expr.Monitors.wrap {table : String → Option ContractExpr} {user : Option String}
    {e m : Expr} (h : Expr.Monitors [] table user e m) (c : ContractExpr) (pos : String)
    (neg : Option String) :
    Expr.Monitors [⟨c, pos, neg⟩] table user e (.monitored m c pos neg) where
  erase_eq := h.erase_eq
  at?_some := by
    intro path n hn
    obtain ⟨k, hk, herase, hspan, hrender, hwrap⟩ := h.at?_some path n hn
    cases path with
    | nil =>
      rw [Expr.at?_nil, Option.some.injEq] at hk
      subst hk
      refine ⟨_, rfl, herase, hspan, hrender, ?_⟩
      rw [Expr.wrappers, hwrap]
      rfl
    | cons i path => exact ⟨k, hk, herase, hspan, hrender, hwrap⟩
  at?_none := by
    intro path hn
    cases path with
    | nil => simp at hn
    | cons i path => exact h.at?_none (i :: path) hn

/-! ### Statements and programs -/

/-- The contract that a statement declares for a name. -/
def Stmt.declared? (name : String) : Stmt → Option ContractExpr
  | .contract x c _ => if x.text = name then some c else none
  | _ => none

/-- The contract of the last declaration of a name among statements. -/
def Stmt.lastDeclared (stmts : List Stmt) (name : String) : Option ContractExpr :=
  stmts.reverse.findSome? (Stmt.declared? name)

theorem Stmt.lastDeclared_append_singleton (stmts : List Stmt) (stmt : Stmt) (name : String) :
    Stmt.lastDeclared (stmts ++ [stmt]) name =
      (stmt.declared? name).or (Stmt.lastDeclared stmts name) := by
  rw [Stmt.lastDeclared, List.reverse_append, List.reverse_singleton, List.singleton_append,
    List.findSome?_cons]
  cases stmt.declared? name <;> rfl

theorem Stmt.run_monitor_contract (x : Ident) (c : ContractExpr) (s : Span) (scopes : ScopeStack) :
    (Stmt.monitor (.contract x c s)).run scopes = (.contract x c s, scopes.declare x.text c) := rfl

theorem Stmt.run_monitor_expr (e : Expr) (s : Span) (scopes : ScopeStack) :
    (Stmt.monitor (.expr e s)).run scopes = (.expr (e.monitor scopes) s, scopes) := rfl

/-- The right-hand side of a global binding is visited in the scope of the bound name, which is
closed again, and gets the annotation of the name itself. -/
theorem Expr.run_monitorBinding (name : String) (e : Expr) (scopes : ScopeStack) :
    (e.monitorBinding name).run scopes =
      (match scopes.lookup? name with
        | some c => .monitored (e.monitor (scopes.push name)) c name scopes.current?
        | none => e.monitor (scopes.push name), scopes) := by
  change (match scopes.lookup? name with
    | some c => (pure (Expr.monitored _ c name scopes.current?) : StateM ScopeStack Expr)
    | none => pure _) (scopes.push name).pop = _
  rw [ScopeStack.pop_push]
  cases scopes.lookup? name <;> rfl

theorem Stmt.run_monitor_define (x : Ident) (e : Expr) (s : Span) (scopes : ScopeStack) :
    (Stmt.monitor (.define x e s)).run scopes =
      (.define x (match scopes.lookup? x.text with
        | some c => .monitored (e.monitor (scopes.push x.text)) c x.text scopes.current?
        | none => e.monitor (scopes.push x.text)) s, scopes) := by
  change (Stmt.define x ((e.monitorBinding x.text).run scopes).1 s,
    ((e.monitorBinding x.text).run scopes).2) = _
  rw [Expr.run_monitorBinding]

/-- The declarations of the scope stack when no scope is open are those of `stmts`. -/
structure ScopeStack.Holds (scopes : ScopeStack) (stmts : List Stmt) : Prop where
  /-- No scope is open. -/
  closed : scopes.scopes = []
  /-- Every name has the contract that was declared last. -/
  lookup?_eq : scopes.lookup? = Stmt.lastDeclared stmts

namespace ScopeStack.Holds

variable {scopes : ScopeStack} {stmts : List Stmt}

theorem empty : ScopeStack.Holds .empty [] := ⟨rfl, rfl⟩

theorem depth_eq (h : scopes.Holds stmts) : scopes.depth = 0 := by
  rw [ScopeStack.depth, h.closed, List.length_nil]

theorem current?_eq (h : scopes.Holds stmts) : scopes.current? = none := by
  rw [ScopeStack.current?, h.closed]
  rfl

/-- One statement: what it declares is added, and no scope stays open. -/
theorem monitor (h : scopes.Holds stmts) (stmt : Stmt) :
    (stmt.monitor.run scopes).2.Holds (stmts ++ [stmt]) := by
  cases stmt with
  | contract x c s =>
    rw [Stmt.run_monitor_contract]
    constructor
    · change (scopes.declare x.text c).scopes = []
      rw [ScopeStack.declare, h.closed]
    · funext name
      change (scopes.declare x.text c).lookup? name = _
      rw [ScopeStack.lookup?_declare, Stmt.lastDeclared_append_singleton, h.lookup?_eq,
        Stmt.declared?]
      split <;> rfl
  | expr e s =>
    refine ⟨h.closed, ?_⟩
    funext name
    rw [Stmt.lastDeclared_append_singleton, Stmt.run_monitor_expr, h.lookup?_eq]
    rfl
  | define x e s =>
    rw [Stmt.run_monitor_define]
    refine ⟨h.closed, ?_⟩
    funext name
    rw [Stmt.lastDeclared_append_singleton, h.lookup?_eq]
    rfl

end ScopeStack.Holds

theorem Stmt.run_monitorAll_cons (stmt : Stmt) (stmts : List Stmt) (scopes : ScopeStack) :
    (Stmt.monitorAll (stmt :: stmts)).run scopes =
      ((stmt.monitor.run scopes).1 ::
          ((Stmt.monitorAll stmts).run (stmt.monitor.run scopes).2).1,
        ((Stmt.monitorAll stmts).run (stmt.monitor.run scopes).2).2) := by
  rw [Stmt.monitorAll, List.mapM_cons]
  rfl

/-- After any statements the scope stack holds their declarations. -/
theorem Stmt.holds_monitorAll (stmts : List Stmt) :
    ((Stmt.monitorAll stmts).run .empty).2.Holds stmts := by
  -- The statements are monitored from the front, so those already done are generalised.
  have key : ∀ (stmts before : List Stmt) (scopes : ScopeStack), scopes.Holds before →
      ((Stmt.monitorAll stmts).run scopes).2.Holds (before ++ stmts) := by
    intro stmts
    induction stmts with
    | nil =>
      intro before scopes h
      rw [List.append_nil]
      exact h
    | cons stmt stmts ih =>
      intro before scopes h
      rw [Stmt.run_monitorAll_cons]
      have hrest := ih (before ++ [stmt]) _ (h.monitor stmt)
      rwa [List.append_assoc, List.singleton_append] at hrest
  exact key stmts [] .empty ScopeStack.Holds.empty

/-- Every statement is monitored with the scope stack that the statements before it leave. -/
theorem Stmt.getElem?_monitorAll (stmts : List Stmt) (scopes : ScopeStack) (i : Nat) :
    ((Stmt.monitorAll stmts).run scopes).1[i]? =
      stmts[i]?.map fun stmt =>
        (stmt.monitor.run ((Stmt.monitorAll (stmts.take i)).run scopes).2).1 := by
  induction stmts generalizing scopes i with
  | nil => rfl
  | cons stmt stmts ih =>
    rw [Stmt.run_monitorAll_cons]
    cases i with
    | zero => rfl
    | succ i =>
      rw [List.getElem?_cons_succ, List.getElem?_cons_succ, List.take_succ_cons,
        Stmt.run_monitorAll_cons]
      exact ih _ i

/-- Without annotations, what the monitor makes of a plain statement is that statement. -/
theorem Stmt.erase_monitor {stmt : Stmt} (h : stmt.Plain) (scopes : ScopeStack) :
    (stmt.monitor.run scopes).1.erase = stmt := by
  cases stmt with
  | contract x c s =>
    rw [Stmt.run_monitor_contract, Stmt.erase, ContractExpr.Plain.erase_eq h]
  | expr e s =>
    rw [Stmt.run_monitor_expr, Stmt.erase, Expr.erase_monitor scopes h]
  | define x e s =>
    rw [Stmt.run_monitor_define, Stmt.erase]
    cases scopes.lookup? x.text with
    | none => rw [Expr.erase_monitor _ h]
    | some c => rw [Expr.erase, Expr.erase_monitor _ h]

theorem Program.getElem?_monitor (p : Program) (i : Nat) :
    p.monitor.body[i]? =
      p.body[i]?.map fun stmt =>
        (stmt.monitor.run ((Stmt.monitorAll (p.body.take i)).run .empty).2).1 :=
  Stmt.getElem?_monitorAll p.body .empty i

/-- Without annotations, what the monitor makes of a plain program is that program. -/
theorem Program.erase_monitor {p : Program} (h : p.Plain) : p.monitor.erase = p := by
  have hbody : p.monitor.body.map Stmt.erase = p.body := by
    -- Each statement is compared at its position.
    refine List.ext_getElem? fun i => ?_
    rw [List.getElem?_map, Program.getElem?_monitor, Option.map_map]
    cases hstmt : p.body[i]? with
    | none => rfl
    | some stmt =>
      rw [Option.map_some, Function.comp_apply,
        Stmt.erase_monitor (h stmt (List.mem_of_getElem? hstmt))]
  rw [Program.erase, hbody]
  rfl

/-- The annotation of the right-hand side of a global binding as a whole: that of the bound name,
if it has a contract. -/
def Stmt.ownAnnotation (table : String → Option ContractExpr) (name : String) : List Annotation :=
  ((table name).map fun c => ⟨c, name, none⟩).toList

/-- **The monitor puts exactly the due annotations into a program.** Let the table of a statement
hold the last declarations before it. In an expression statement the variables are annotated for
the top level. In a global binding they are annotated for the bound name, and the whole right-hand
side has the annotation of that name. Contract declarations stay as they are, without annotations
the program is the given one, and no scope stays open after any number of statements. -/
theorem Program.monitor_places_annotations (p : Program) (hp : p.Plain) :
    p.monitor.body.length = p.body.length ∧ p.monitor.erase = p ∧
    (∀ (i : Nat) e s, p.body[i]? = some (.expr e s) →
      ∃ m, p.monitor.body[i]? = some (.expr m s) ∧
        Expr.Monitors [] (Stmt.lastDeclared (p.body.take i)) none e m) ∧
    (∀ (i : Nat) x e s, p.body[i]? = some (.define x e s) →
      ∃ m, p.monitor.body[i]? = some (.define x m s) ∧
        Expr.Monitors (Stmt.ownAnnotation (Stmt.lastDeclared (p.body.take i)) x.text)
          (Stmt.lastDeclared (p.body.take i)) (some x.text) e m) ∧
    (∀ (i : Nat) x c s, p.body[i]? = some (Stmt.contract x c s) →
      p.monitor.body[i]? = some (Stmt.contract x c s)) ∧
    ∀ i, ((Stmt.monitorAll (p.body.take i)).run .empty).2.depth = 0 := by
  have herase : p.monitor.erase = p := Program.erase_monitor hp
  refine ⟨?_, herase, ?_, ?_, ?_, fun i => (Stmt.holds_monitorAll _).depth_eq⟩
  · -- Erasing annotations does not change how many statements there are.
    have hlen := congrArg (fun q : Program => q.body.length) herase
    rwa [Program.erase, List.length_map] at hlen
  · intro i e s hi
    have hholds := Stmt.holds_monitorAll (p.body.take i)
    have hplain : e.Plain := hp _ (List.mem_of_getElem? hi)
    refine ⟨_, by rw [Program.getElem?_monitor, hi, Option.map_some, Stmt.run_monitor_expr], ?_⟩
    have hm := Expr.monitors_monitor ((Stmt.monitorAll (p.body.take i)).run .empty).2 hplain
    rwa [hholds.lookup?_eq, hholds.current?_eq] at hm
  · intro i x e s hi
    have hholds := Stmt.holds_monitorAll (p.body.take i)
    have hplain : e.Plain := hp _ (List.mem_of_getElem? hi)
    refine ⟨_, by rw [Program.getElem?_monitor, hi, Option.map_some, Stmt.run_monitor_define], ?_⟩
    have hm : Expr.Monitors [] (Stmt.lastDeclared (p.body.take i)) (some x.text) e
        (e.monitor (((Stmt.monitorAll (p.body.take i)).run .empty).2.push x.text)) := by
      have hpushed := Expr.monitors_monitor
        (((Stmt.monitorAll (p.body.take i)).run .empty).2.push x.text) hplain
      -- Opening the scope of the name changes who uses the values, and no declaration.
      rwa [ScopeStack.current?_push, show (ScopeStack.push _ x.text).lookup? = _ from
        funext (ScopeStack.lookup?_push _ x.text), hholds.lookup?_eq] at hpushed
    rw [hholds.lookup?_eq, hholds.current?_eq, Stmt.ownAnnotation]
    cases Stmt.lastDeclared (p.body.take i) x.text with
    | none => exact hm
    | some c => exact hm.wrap c x.text none
  · intro i x c s hi
    rw [Program.getElem?_monitor, hi, Option.map_some, Stmt.run_monitor_contract]

/-- The value of `g` uses `f` as a callee, in the value of a local binding and in its body. The
first two are annotated for `g`; the body of the local binding is left alone. -/
theorem Program.monitor_places_annotations_local_binding :
    let name (x : String) : Ident := ⟨x, .nowhere⟩
    let f : Expr := .var (name "f")
    let positive : ContractExpr := .flat (.var (name "positive"))
    let value : Expr := .call f [.letIn (name "a") f f .nowhere] .nowhere
    let p : Program :=
      ⟨[.contract (name "f") positive .nowhere, .define (name "g") value .nowhere], .nowhere⟩
    let due := value.due (Stmt.lastDeclared (p.body.take 1)) (some "g")
    p.Plain ∧ due [0] = [⟨positive, "f", some "g"⟩] ∧ due [1, 0] = [⟨positive, "f", some "g"⟩] ∧
      due [1, 1] = [] ∧ ∃ m, p.monitor.body[1]? = some (.define (name "g") m .nowhere) ∧
        Expr.Monitors [] (Stmt.lastDeclared (p.body.take 1)) (some "g") value m := by
  intro name f positive value p due
  have hplain : p.Plain := by
    intro stmt hstmt
    simp only [p, List.mem_cons, List.not_mem_nil, or_false] at hstmt
    rcases hstmt with rfl | rfl
    · exact ContractExpr.all_flat.mpr (Expr.all_var.mpr rfl)
    · simp [Stmt.Plain, Expr.Plain, value, f, Expr.isMonitored]
  obtain ⟨-, -, -, hdefine, -⟩ := Program.monitor_places_annotations p hplain
  exact ⟨hplain, rfl, rfl, rfl, hdefine 1 (name "g") value .nowhere rfl⟩

end ContractML
