import Mathlib.Logic.Function.Basic
import ContractML.Proofs.Operators
import ContractML.Proofs.Relocation

/-!
# Relabelled values

A value carries two kinds of labels that say nothing about what it computes: positions, in the
bodies of the functions inside it, and identities, which say which closures are one and the same.
Relabelling applies one function to all positions and another one to all identities, also in the
contracts of wrappers and in the environments that functions have captured. Positions may be
forgotten, but different identities stay different.

The frames that functions refer to can be replaced by environments as well, which hold what is bound
in the frames. What is said about stores here is about relabellings that leave frames alone.

What can be seen of a value is not changed by this: its type, how many arguments it takes and how
it is written. Operators and primitive functions commute with relabelling, also the two operators
that compare by identity.

## Main definitions

* `Relabelling` — what becomes of positions, of identities and of frames.
* `Value.relabel`, `Closure.relabel`, `Contract.relabel`, `Env.relabel` — relabelled values.
* `Fault.move`, `Relabelling.outcome` — a fault at another place, and relabelled outcomes.
* `Table.Maps`, `Store.Relabels` — the second table or store is the first one relabelled.

## Main results

* `Expr.render_move`, `ContractExpr.render_move` — written forms do not depend on positions.
* `Value.type_relabel`, `Value.render_relabel` — types and written forms do not depend on labels.
* `UnaryOp.eval_relabel`, `BinaryOp.eval_relabel`, `Primitive.run_relabel` — operators and
  primitive functions commute with relabelling.
* `Env.get?_relabel` — so does looking up a name.
-/

namespace ContractML

/-- What becomes of the labels of a value. -/
structure Relabelling where
  /-- What becomes of a position. -/
  place : Nat → Nat
  /-- What becomes of an identity. -/
  identity : Nat → Nat
  /-- Different closures stay different. -/
  injective : Function.Injective identity
  /-- What becomes of frames of the store. -/
  frames : Chain → Env

/-- The relabelling that changes nothing. -/
def Relabelling.none : Relabelling := ⟨id, id, Function.injective_id, .frames⟩

/-! ### Relabelling -/

mutual

/-- The value with its labels changed. -/
def Value.relabel (ρ : Relabelling) : Value → Value
  | .closure c => .closure (c.relabel ρ)
  | v => v

/-- The closure with its labels changed. -/
def Closure.relabel (ρ : Relabelling) : Closure → Closure
  | .native id name type body => .native (ρ.identity id) name type body
  | .user id params body env =>
    .user (ρ.identity id) params (body.move ρ.place) (env.relabel ρ)
  | .monitored id inner domain range pos neg =>
    .monitored (ρ.identity id) (inner.relabel ρ) (Contract.relabelAll ρ domain)
      (range.relabel ρ) pos neg

/-- The contract with the labels of its predicates changed. -/
def Contract.relabel (ρ : Relabelling) : Contract → Contract
  | .base predicate label => .base (predicate.relabel ρ) label
  | .function domain range label =>
    .function (Contract.relabelAll ρ domain) (range.relabel ρ) label

/-- The contracts with the labels of their predicates changed. -/
def Contract.relabelAll (ρ : Relabelling) : List Contract → List Contract
  | [] => []
  | c :: cs => c.relabel ρ :: Contract.relabelAll ρ cs

/-- The environment with its frames replaced, and the labels of the values bound in it changed. -/
def Env.relabel (ρ : Relabelling) : Env → Env
  | .frames chain => ρ.frames chain
  | .bind x v outer => .bind x (v.relabel ρ) (outer.relabel ρ)

end

variable {ρ : Relabelling}

theorem Contract.relabelAll_eq_map (ρ : Relabelling) (cs : List Contract) :
    Contract.relabelAll ρ cs = cs.map (Contract.relabel ρ) := by
  induction cs with
  | nil => rfl
  | cons c cs ih => rw [Contract.relabelAll, ih, List.map_cons]

theorem Value.relabel_closure (ρ : Relabelling) (c : Closure) :
    (Value.closure c).relabel ρ = .closure (c.relabel ρ) := by
  rw [Value.relabel]

/-- Primitive values have no labels. -/
theorem Value.relabel_of_isClosure (ρ : Relabelling) {v : Value} (h : v.isClosure = false) :
    v.relabel ρ = v := by
  cases v with
  | closure c => cases h
  | _ => rfl

@[simp] theorem Value.relabel_int (n : Int64) : (Value.int n).relabel ρ = .int n := rfl

theorem Literal.relabel_toValue (l : Literal) : l.toValue.relabel ρ = l.toValue :=
  Value.relabel_of_isClosure ρ l.isClosure_toValue

/-! ### Changing nothing -/

mutual

theorem Value.relabel_none : ∀ v : Value, v.relabel .none = v
  | .closure c => by rw [Value.relabel_closure, Closure.relabel_none c]
  | .int _ => rfl
  | .float _ => rfl
  | .bool _ => rfl
  | .char _ => rfl
  | .str _ => rfl
termination_by structural v => v

theorem Closure.relabel_none : ∀ c : Closure, c.relabel .none = c
  | .native _ _ _ _ => rfl
  | .user id params body env => by
    rw [Closure.relabel, Env.relabel_none env]
    exact congrArg (Closure.user id params · env) (Expr.move_id body)
  | .monitored id inner domain range pos neg => by
    rw [Closure.relabel, Closure.relabel_none inner, Contract.relabelAll_none domain,
      Contract.relabel_none range]
    rfl
termination_by structural c => c

theorem Contract.relabel_none : ∀ c : Contract, c.relabel .none = c
  | .base p label => by rw [Contract.relabel, Closure.relabel_none p]
  | .function domain range label => by
    rw [Contract.relabel, Contract.relabelAll_none domain, Contract.relabel_none range]
termination_by structural c => c

theorem Contract.relabelAll_none : ∀ cs : List Contract, Contract.relabelAll .none cs = cs
  | [] => rfl
  | c :: cs => by rw [Contract.relabelAll, Contract.relabel_none c, Contract.relabelAll_none cs]
termination_by structural cs => cs

theorem Env.relabel_none : ∀ env : Env, env.relabel .none = env
  | .frames _ => rfl
  | .bind x v outer => by rw [Env.relabel, Value.relabel_none v, Env.relabel_none outer]
termination_by structural env => env

end

theorem Value.relabel_none_eq_id : Value.relabel .none = id := funext Value.relabel_none

theorem Contract.relabel_none_eq_id : Contract.relabel .none = id := funext Contract.relabel_none

/-! ### What labels do not change -/

@[simp] theorem Closure.arity_relabel (ρ : Relabelling) (c : Closure) :
    (c.relabel ρ).arity = c.arity := by
  induction c using Closure.arity.induct with
  | case1 id name type body => rfl
  | case2 id params body env => rfl
  | case3 id inner domain range pos neg ih => exact ih

@[simp] theorem Closure.type_relabel (ρ : Relabelling) (c : Closure) :
    (c.relabel ρ).type = c.type := by
  induction c using Closure.type.induct with
  | case1 id name type body => rfl
  | case2 id params body env => rfl
  | case3 id inner domain range pos neg ih => exact ih

/-- The type of a value does not depend on labels. -/
@[simp] theorem Value.type_relabel (ρ : Relabelling) (v : Value) : (v.relabel ρ).type = v.type := by
  cases v with
  | closure c => exact c.type_relabel ρ
  | _ => rfl

/-- The written form of a value does not depend on labels. -/
@[simp] theorem Value.render_relabel (ρ : Relabelling) (v : Value) :
    (v.relabel ρ).render = v.render := by
  cases v <;> rfl

theorem Closure.same_relabel (ρ : Relabelling) (c d : Closure) :
    (c.relabel ρ).same (d.relabel ρ) = c.same d := by
  have heq : ∀ i j : Nat, (ρ.identity i == ρ.identity j) = (i == j) := by
    intro i j
    rw [Bool.eq_iff_iff, beq_iff_eq, beq_iff_eq]
    exact ρ.injective.eq_iff
  cases c <;> cases d <;> first | rfl | exact heq _ _

theorem Expr.renderArgs_move {f : Nat → Nat} {es : List Expr}
    (h : ∀ e ∈ es, (e.move f).render = e.render) :
    Expr.renderArgs (Expr.moveAll f es) = Expr.renderArgs es := by
  induction es with
  | nil => rfl
  | cons e es ih =>
    rw [List.forall_mem_cons] at h
    rw [Expr.moveAll, Expr.renderArgs, Expr.renderArgs, h.1, ih h.2]

theorem Expr.renderItems_move {f : Nat → Nat} {es : List Expr}
    (h : ∀ e ∈ es, (e.move f).render = e.render) :
    Expr.renderItems (Expr.moveAll f es) = Expr.renderItems es := by
  induction es with
  | nil => rfl
  | cons e es ih =>
    rw [List.forall_mem_cons] at h
    cases es with
    | nil => simp only [Expr.moveAll, Expr.renderItems, h.1]
    | cons e' es =>
      have htail := ih h.2
      simp only [Expr.moveAll, Expr.renderItems, h.1] at htail ⊢
      rw [htail]

/-- The written form of an expression does not depend on positions. -/
@[simp] theorem Expr.render_move (f : Nat → Nat) (e : Expr) : (e.move f).render = e.render := by
  induction e with
  | lit v s => rfl
  | var x => rfl
  | unary op e s ih => simp only [Expr.move, Expr.render, ih]
  | binary op l r s ihl ihr => simp only [Expr.move, Expr.render, ihl, ihr]
  | logical op l r s ihl ihr => simp only [Expr.move, Expr.render, ihl, ihr]
  | cond c t e s ihc iht ihe => simp only [Expr.move, Expr.render, ihc, iht, ihe]
  | lambda ps b s ih =>
    have hps : (ps.map (Ident.move f)).map (fun p => " " ++ p.text) =
        ps.map fun p => " " ++ p.text := by
      rw [List.map_map]
      rfl
    simp only [Expr.move, Expr.render, ih, hps]
  | call g args s ihg ihargs =>
    simp only [Expr.move, Expr.render, ihg, Expr.renderArgs_move ihargs]
  | letIn x v b s ihv ihb => simp only [Expr.move, Expr.render, ihv, ihb, Ident.text_move]
  | seq es s ih => simp only [Expr.move, Expr.render, Expr.renderItems_move ih]
  | monitored e c pos neg ih _ => rw [Expr.move, Expr.render, ih, Expr.render]

theorem ContractExpr.isArrow_move (f : Nat → Nat) (c : ContractExpr) :
    (c.move f).isArrow = c.isArrow := by
  cases c <;> rfl

/-- The written form of a contract does not depend on positions. -/
@[simp] theorem ContractExpr.render_move (f : Nat → Nat) (c : ContractExpr) :
    (c.move f).render = c.render := by
  induction c with
  | flat e => simp only [ContractExpr.move, ContractExpr.render, Expr.render_move]
  | arrow ds r s ihds ihr =>
    have hds : ContractExpr.renderDomain (ContractExpr.moveAll f ds) =
        ContractExpr.renderDomain ds := by
      clear ihr
      induction ds with
      | nil => rfl
      | cons d ds ih =>
        rw [List.forall_mem_cons] at ihds
        rw [ContractExpr.moveAll, ContractExpr.renderDomain, ContractExpr.renderDomain,
          ContractExpr.isArrow_move, ihds.1, ih ihds.2]
    rw [ContractExpr.move, ContractExpr.render, ContractExpr.render, hds, ihr]

/-! ### Outcomes -/

/-- The fault noticed at another place; what went wrong stays the same. -/
def Fault.move (f : Nat → Nat) (e : Fault) : Fault := ⟨e.cause, e.span?.map (Span.move f)⟩

@[simp] theorem Fault.move_id (e : Fault) : e.move id = e := by
  obtain ⟨cause, span?⟩ := e
  cases span? <;> rfl

@[simp] theorem Fault.move_mismatch (f : Nat → Nat) (expected found : Ty) (s : Span) :
    (Fault.mismatch expected found s).move f = .mismatch expected found (s.move f) := rfl

theorem Fault.move_locate (f : Nat → Nat) (s : Span) (e : Fault) :
    (e.locate s).move f = (e.move f).locate (s.move f) := by
  obtain ⟨cause, span?⟩ := e
  cases span? <;> rfl

theorem Contract.move_violation (ρ : Relabelling) (label party : String) (v : Value) (s : Span) :
    (Contract.violation label party v s).move ρ.place =
      Contract.violation label party (v.relabel ρ) (s.move ρ.place) := by
  rw [Contract.violation, Contract.violation, Value.render_relabel]
  rfl

/-- The outcome of what is done with relabelled values, if `g` says what becomes of its value. -/
def Relabelling.outcome {α β : Type} (ρ : Relabelling) (g : α → β) :
    Except Fault α → Except Fault β
  | .ok a => .ok (g a)
  | .error f => .error (f.move ρ.place)

section Operators

variable {α β : Type} {g : α → β}

@[simp] theorem Relabelling.outcome_ok (a : α) : ρ.outcome g (.ok a) = .ok (g a) := rfl

@[simp] theorem Relabelling.outcome_error (f : Fault) :
    ρ.outcome g (.error f) = .error (f.move ρ.place) := rfl

theorem UnaryOp.eval_relabel (ρ : Relabelling) (op : UnaryOp) (v : Value) (s : Span) :
    op.eval (v.relabel ρ) (s.move ρ.place) = ρ.outcome (Value.relabel ρ) (op.eval v s) := by
  cases v with
  | closure c => cases op <;> simp [UnaryOp.eval, Value.relabel_closure, Value.type]
  | _ => cases op <;> rfl

theorem Fault.operand_relabel (ρ : Relabelling) (expected : Ty) (l r : Value) (s : Span) :
    Fault.operand expected (l.relabel ρ) (r.relabel ρ) (s.move ρ.place) =
      (Fault.operand expected l r s).move ρ.place := by
  rw [Fault.operand, Fault.operand, Value.type_relabel, Value.type_relabel, Fault.move_mismatch]

theorem onInts_relabel {f f' : Int64 → Int64 → Except Fault Int64}
    (hf : ∀ a b, f' a b = ρ.outcome id (f a b)) (l r : Value) (s : Span) :
    onInts f' (l.relabel ρ) (r.relabel ρ) (s.move ρ.place) =
      ρ.outcome (Value.relabel ρ) (onInts f l r s) := by
  have hoperand := Fault.operand_relabel ρ .int l r s
  cases l with
  | int a =>
    cases r with
    | int b =>
      simp only [onInts, Value.relabel_int, hf]
      cases f a b <;> rfl
    | _ => exact congrArg Except.error hoperand
  | _ => exact congrArg Except.error hoperand

theorem onFloats_relabel (f : Float → Float → Float) (l r : Value) (s : Span) :
    onFloats f (l.relabel ρ) (r.relabel ρ) (s.move ρ.place) =
      ρ.outcome (Value.relabel ρ) (onFloats f l r s) := by
  have hoperand := Fault.operand_relabel ρ .float l r s
  cases l with
  | float a =>
    cases r with
    | float b => rfl
    | _ => exact congrArg Except.error hoperand
  | _ => exact congrArg Except.error hoperand

theorem onStrings_relabel (f : String → String → String) (l r : Value) (s : Span) :
    onStrings f (l.relabel ρ) (r.relabel ρ) (s.move ρ.place) =
      ρ.outcome (Value.relabel ρ) (onStrings f l r s) := by
  have hoperand := Fault.operand_relabel ρ .string l r s
  cases l with
  | str a =>
    cases r with
    | str b => rfl
    | _ => exact congrArg Except.error hoperand
  | _ => exact congrArg Except.error hoperand

theorem Value.compare_relabel (ρ : Relabelling) (l r : Value) (s : Span) :
    (l.relabel ρ).compare (r.relabel ρ) (s.move ρ.place) = ρ.outcome id (l.compare r s) := by
  have hmismatch : Fault.mismatch (l.relabel ρ).type (r.relabel ρ).type (s.move ρ.place) =
      (Fault.mismatch l.type r.type s).move ρ.place := by
    rw [Value.type_relabel, Value.type_relabel, Fault.move_mismatch]
  cases l <;> cases r <;> first | rfl | exact congrArg Except.error hmismatch

theorem Value.same_relabel (ρ : Relabelling) (l r : Value) (s : Span) :
    (l.relabel ρ).same (r.relabel ρ) (s.move ρ.place) = ρ.outcome id (l.same r s) := by
  have hmismatch : Fault.mismatch (l.relabel ρ).type (r.relabel ρ).type (s.move ρ.place) =
      (Fault.mismatch l.type r.type s).move ρ.place := by
    rw [Value.type_relabel, Value.type_relabel, Fault.move_mismatch]
  cases l with
  | closure c =>
    cases r with
    | closure d =>
      rw [Value.relabel_closure, Value.relabel_closure]
      exact congrArg Except.ok (Closure.same_relabel ρ c d)
    | _ => exact congrArg Except.error hmismatch
  | _ => cases r <;> first | rfl | exact congrArg Except.error hmismatch

/-- Operators commute with relabelling, since different identities stay different. -/
theorem BinaryOp.eval_relabel (ρ : Relabelling) (op : BinaryOp) (l r : Value) (s : Span) :
    op.eval (l.relabel ρ) (r.relabel ρ) (s.move ρ.place) =
      ρ.outcome (Value.relabel ρ) (op.eval l r s) := by
  have hok : ∀ (f : Int64 → Int64 → Int64) (a b : Int64),
      Except.ok (f a b) = ρ.outcome id (.ok (f a b)) := fun _ _ _ => rfl
  -- A division by zero is reported at the operator, so its fault moves along.
  have hdiv : ∀ (f : Int64 → Int64 → Int64) (a b : Int64),
      (if b = 0 then .error ⟨.divisionByZero, some (s.move ρ.place)⟩ else .ok (f a b)) =
        ρ.outcome id (if b = 0 then .error ⟨.divisionByZero, some s⟩ else .ok (f a b)) := by
    intro f a b
    split <;> rfl
  have horder : ∀ holds : Option Ordering → Bool,
      onOrder holds (l.relabel ρ) (r.relabel ρ) (s.move ρ.place) =
        ρ.outcome (Value.relabel ρ) (onOrder holds l r s) := by
    intro holds
    rw [onOrder, onOrder, Value.compare_relabel]
    cases l.compare r s <;> rfl
  have hsame : ∀ f : Bool → Bool,
      (((l.relabel ρ).same (r.relabel ρ) (s.move ρ.place)).map fun b => Value.bool (f b)) =
        ρ.outcome (Value.relabel ρ) ((l.same r s).map fun b => .bool (f b)) := by
    intro f
    rw [Value.same_relabel]
    cases l.same r s <;> rfl
  cases op with
  | add | sub | mul => exact onInts_relabel (hok _) l r s
  | div | mod => exact onInts_relabel (hdiv _) l r s
  | fadd | fsub | fmul | fdiv | pow => exact onFloats_relabel _ l r s
  | concat => exact onStrings_relabel _ l r s
  | lt | le | gt | ge | eq | ne => exact horder _
  | same => exact hsame id
  | differs => exact hsame not

end Operators

/-! ### Primitive functions and contracts -/

namespace Primitive

/-- The fault of a bad argument has no place, and does not depend on labels. -/
theorem mismatch_relabel (ρ : Relabelling) (expected : Ty) (found : Option Value) :
    mismatch expected (found.map (Value.relabel ρ)) =
      (mismatch expected found).move ρ.place := by
  cases found with
  | none => rfl
  | some v =>
    rw [Option.map_some, mismatch, Option.map_some, Value.type_relabel]
    rfl

theorem intArg_relabel (ρ : Relabelling) (args : List Value) (i : Nat) :
    intArg (args.map (Value.relabel ρ)) i = ρ.outcome id (intArg args i) := by
  rw [intArg, intArg, List.getElem?_map]
  rcases args[i]? with _ | v
  · rfl
  · cases v <;> first | rfl | exact congrArg Except.error (mismatch_relabel ρ .int (some _))

theorem floatArg_relabel (ρ : Relabelling) (args : List Value) (i : Nat) :
    floatArg (args.map (Value.relabel ρ)) i = ρ.outcome id (floatArg args i) := by
  rw [floatArg, floatArg, List.getElem?_map]
  rcases args[i]? with _ | v
  · rfl
  · cases v <;> first | rfl | exact congrArg Except.error (mismatch_relabel ρ .float (some _))

theorem strArg_relabel (ρ : Relabelling) (args : List Value) (i : Nat) :
    strArg (args.map (Value.relabel ρ)) i = ρ.outcome id (strArg args i) := by
  rw [strArg, strArg, List.getElem?_map]
  rcases args[i]? with _ | v
  · rfl
  · cases v <;> first | rfl | exact congrArg Except.error (mismatch_relabel ρ .string (some _))

/-- Primitive functions commute with relabelling, if those of the embedding program do. -/
theorem run_relabel_of_host [Host] {ρ : Relabelling}
    (hhost : ∀ code args, Host.run code (args.map (Value.relabel ρ)) =
      ρ.outcome (Value.relabel ρ) (Host.run code args)) (p : Primitive) (args : List Value) :
    p.run (args.map (Value.relabel ρ)) = ρ.outcome (Value.relabel ρ) (p.run args) := by
  -- What a function of one argument gives is a primitive value.
  have hbind : ∀ {α : Type} (x : Except Fault α) (k : α → Value),
      (∀ a, (k a).isClosure = false) →
        (ρ.outcome id x >>= fun a => pure (k a)) =
          ρ.outcome (Value.relabel ρ) (x >>= fun a => pure (k a)) := by
    intro α x k hk
    cases x with
    | error f => rfl
    | ok a => exact congrArg Except.ok (Value.relabel_of_isClosure ρ (hk a)).symm
  cases p with
  | any => rfl
  | positive | negative | zero | floatOfInt =>
    simp only [run, intArg_relabel]
    exact hbind _ _ fun _ => rfl
  | length =>
    simp only [run, strArg_relabel]
    exact hbind _ _ fun _ => rfl
  | toInt | round | sqrt | exp | cos | cosh =>
    simp only [run, floatArg_relabel]
    exact hbind _ _ fun _ => rfl
  | hypot =>
    simp only [run, floatArg_relabel]
    cases floatArg args 0 with
    | error f => rfl
    | ok x => exact hbind _ _ fun _ => rfl
  | host code => exact hhost code args

/-- Primitive functions commute with relabelling. -/
theorem run_relabel (ρ : Relabelling) (p : Primitive) (args : List Value) :
    p.run (args.map (Value.relabel ρ)) = ρ.outcome (Value.relabel ρ) (p.run args) :=
  run_relabel_of_host (fun _ _ => rfl) p args

end Primitive

theorem Contract.ofPredicate_relabel (ρ : Relabelling) (label : String) (v : Value) (s : Span) :
    Contract.ofPredicate label (v.relabel ρ) (s.move ρ.place) =
      ρ.outcome (Contract.relabel ρ) (Contract.ofPredicate label v s) := by
  cases v with
  | closure c =>
    simp only [Value.relabel_closure, Contract.ofPredicate, Closure.arity_relabel,
      Closure.type_relabel]
    split <;> rfl
  | _ => rfl

/-! ### Tables, stores and environments -/

/-- The second table binds the names of the first one, to what `g` makes of their values. -/
def Table.Maps {α β : Type} (g : α → β) (t : Table α) (u : Table β) : Prop :=
  ∀ name, u.get? name = (t.get? name).map g

theorem Table.Maps.insert {α β : Type} {g : α → β} {t : Table α} {u : Table β} (h : t.Maps g u)
    (name : String) (a : α) : (t.insert name a).Maps g (u.insert name (g a)) := by
  intro x
  rw [Table.get?_insert, Table.get?_insert, h x]
  split <;> rfl

/-- The frames of the second store bind relabelled values where those of the first one bind
values. -/
structure Store.Relabels (ρ : Relabelling) (σ τ : Store) : Prop where
  /-- Frames stay what they are. -/
  frames_eq : ρ.frames = .frames
  /-- There are as many frames. -/
  size_eq : τ.frames.size = σ.frames.size
  /-- Every frame binds the same names to relabelled values. -/
  frame : ∀ i, (σ.frame i).Maps (Value.relabel ρ) (τ.frame i)

namespace Store.Relabels

variable {σ τ : Store}

theorem none (σ : Store) : σ.Relabels .none σ where
  frames_eq := rfl
  size_eq := rfl
  frame i name := by rw [Value.relabel_none_eq_id, Option.map_id, id]

theorem getIn? (h : σ.Relabels ρ τ) (is : List Nat) (name : String) :
    τ.getIn? is name = (σ.getIn? is name).map (Value.relabel ρ) := by
  induction is with
  | nil => rfl
  | cons i is ih => rw [Store.getIn?, Store.getIn?, h.frame i name, ih, Option.map_or]

/-- Binding a name to relabelled values keeps stores related. -/
theorem define (h : σ.Relabels ρ τ) (c : Chain) (name : String) (v : Value) :
    (σ.define c name v).Relabels ρ (τ.define c name (v.relabel ρ)) where
  frames_eq := h.frames_eq
  size_eq := by
    rw [Store.define, Store.define, Array.size_modify, Array.size_modify, h.size_eq]
  frame i := by
    rw [Store.frame_define, Store.frame_define, h.size_eq]
    split
    · exact (h.frame i).insert name v
    · exact h.frame i

end Store.Relabels

/-- Looking up a name commutes with relabelling. -/
theorem Env.get?_relabel {σ τ : Store} (h : σ.Relabels ρ τ) (env : Env) (name : String) :
    (env.relabel ρ).get? τ name = (env.get? σ name).map (Value.relabel ρ) := by
  induction env using Env.root.induct with
  | case1 chain =>
    rw [Env.relabel, h.frames_eq]
    exact h.getIn? _ name
  | case2 x v outer ih =>
    rw [Env.relabel, Env.get?_bind, Env.get?_bind]
    split
    · rfl
    · exact ih

theorem Env.root_relabel (h : ρ.frames = .frames) (env : Env) :
    (env.relabel ρ).root = env.root.relabel ρ := by
  induction env using Env.root.induct with
  | case1 chain => simp only [Env.relabel, Env.root, h]
  | case2 x v outer ih => exact ih

theorem Env.bindAll_relabel (env : Env) (params : List String) (args : List Value) :
    (env.relabel ρ).bindAll params (args.map (Value.relabel ρ)) =
      (env.bindAll params args).relabel ρ := by
  induction params generalizing env args with
  | nil => rfl
  | cons x params ih =>
    cases args with
    | nil => rfl
    | cons a args => exact ih (.bind x a env) args

end ContractML
