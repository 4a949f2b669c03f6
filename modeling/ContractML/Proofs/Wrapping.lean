import Mathlib.Data.List.Forall2
import ContractML.Proofs.Operators
import ContractML.Proofs.Tree
import ContractML.Workspace

/-!
# Values with and without wrappers

Erasing takes the wrappers off the closures in a value and the annotations out of their bodies, also
in the environments that they have captured. Without its identities a closure is the same whenever
it is made.

`v.Wraps w` relates a value to one without wrappers. It holds of two values that are the same up to
wrappers, annotations and identities, whose functions of the language compare nothing by identity,
and whose wrappers have a contract for each argument. The last two are what a simulation needs.

## Main definitions

* `Value.erase`, `Closure.erase`, `Env.erase` — without wrappers and annotations.
* `Value.anonymous`, `Closure.anonymous`, `Env.anonymous` — without identities.
* `Value.Agrees` — two values that are the same up to wrappers, annotations and identities.
* `Value.Wraps`, `Closure.Wraps`, `Env.Wraps`, `Store.Wraps` — the relation of the simulation.

## Main results

* `Value.Wraps.agrees` — related values agree.
* `Env.Wraps.get?` — related environments bind the same names to related values.
-/

namespace ContractML

/-! ### Erasing wrappers -/

mutual

/-- The value without wrappers and annotations. -/
def Value.erase : Value → Value
  | .closure c => .closure c.erase
  | v => v

/-- The closure inside all wrappers, with the annotations taken out of its body. -/
def Closure.erase : Closure → Closure
  | .native id name type body => .native id name type body
  | .user id params body env => .user id params body.erase env.erase
  | .monitored _ inner _ _ _ _ => inner.erase

/-- The environment with the wrappers and annotations taken out of the values bound in it. -/
def Env.erase : Env → Env
  | .frames chain => .frames chain
  | .bind x v outer => .bind x v.erase outer.erase

end

mutual

/-- The value with all identities alike. -/
def Value.anonymous : Value → Value
  | .closure c => .closure c.anonymous
  | v => v

/-- The closure with all identities alike. -/
def Closure.anonymous : Closure → Closure
  | .native _ name type body => .native 0 name type body
  | .user _ params body env => .user 0 params body env.anonymous
  | .monitored _ inner domain range pos neg =>
    .monitored 0 inner.anonymous (Contract.anonymousAll domain) range.anonymous pos neg

/-- The contract with all identities alike. -/
def Contract.anonymous : Contract → Contract
  | .base predicate label => .base predicate.anonymous label
  | .function domain range label =>
    .function (Contract.anonymousAll domain) range.anonymous label

/-- The contracts with all identities alike. -/
def Contract.anonymousAll : List Contract → List Contract
  | [] => []
  | c :: cs => c.anonymous :: Contract.anonymousAll cs

/-- The environment with all identities alike. -/
def Env.anonymous : Env → Env
  | .frames chain => .frames chain
  | .bind x v outer => .bind x v.anonymous outer.anonymous

end

/-- The first value is the second one up to wrappers, annotations and identities. It has the same
type and the same written form. -/
structure Value.Agrees (v w : Value) : Prop where
  /-- Without wrappers and annotations they differ in identities alone. -/
  erase_eq : v.erase.anonymous = w.anonymous
  /-- They have the same type. -/
  type_eq : v.type = w.type
  /-- They are written in the same way. -/
  render_eq : v.render = w.render

/-! ### The relation -/

mutual

/-- The first value is the second one with wrappers around its closures. -/
inductive Value.Wraps : Value → Value → Prop
  /-- A primitive value. -/
  | primitive {v : Value} : v.isClosure = false → Value.Wraps v v
  /-- A closure. -/
  | closure {c d : Closure} : c.Wraps d → Value.Wraps (.closure c) (.closure d)

/-- The first closure is the second one with wrappers around it. -/
inductive Closure.Wraps : Closure → Closure → Prop
  /-- A primitive function. -/
  | native {id : Nat} {name : String} {type : Ty} {body : Primitive} :
      Closure.Wraps (.native id name type body) (.native id name type body)
  /-- A function of the language, with annotations in its body. -/
  | user {id id' : Nat} {params : List String} {body : Expr} {env env' : Env} :
      body.erase.IdentityFree → env.Wraps env' →
        Closure.Wraps (.user id params body env) (.user id' params body.erase env')
  /-- A wrapper, with a contract for each argument. -/
  | monitored {id : Nat} {inner d : Closure} {domain : List Contract} {range : Contract}
      {pos neg : String} : inner.arity = domain.length → inner.Wraps d →
        Closure.Wraps (.monitored id inner domain range pos neg) d

/-- The first environment binds wrapped values where the second one binds values. -/
inductive Env.Wraps : Env → Env → Prop
  /-- Frames of the store. -/
  | frames {chain : Chain} : Env.Wraps (.frames chain) (.frames chain)
  /-- A variable bound over an environment. -/
  | bind {x : String} {v w : Value} {env env' : Env} : v.Wraps w → env.Wraps env' →
      Env.Wraps (.bind x v env) (.bind x w env')

end

/-- The frames of the first store bind wrapped values where those of the second one bind values. -/
structure Store.Wraps (σ τ : Store) : Prop where
  /-- There are as many frames. -/
  size_eq : σ.frames.size = τ.frames.size
  /-- Every frame binds the same names to related values. -/
  frame : ∀ i name, Option.Rel Value.Wraps ((σ.frame i).get? name) ((τ.frame i).get? name)

theorem Closure.Wraps.type_eq {c d : Closure} (h : c.Wraps d) : c.type = d.type := by
  induction c using Closure.arity.induct with
  | case1 id name type body => cases h; rfl
  | case2 id params body env => cases h; rfl
  | case3 id inner domain range pos neg ih =>
    cases h with
    | monitored _ hinner => exact ih hinner

namespace Value.Wraps

variable {v w : Value}

theorem type_eq (h : v.Wraps w) : v.type = w.type := by
  cases h with
  | primitive _ => rfl
  | closure hc => exact hc.type_eq

theorem render_eq (h : v.Wraps w) : v.render = w.render := by
  cases h with
  | primitive _ => rfl
  | closure _ => rfl

/-- A primitive value is related to itself alone. -/
theorem eq_of_isClosure (h : v.Wraps w) (hv : v.isClosure = false) : w = v := by
  cases h with
  | primitive _ => rfl
  | closure _ => cases hv

end Value.Wraps

mutual

theorem Value.erase_of_wraps : ∀ (v : Value) {w : Value}, v.Wraps w →
    v.erase.anonymous = w.anonymous
  | .closure c, _, .closure hc => by
    rw [Value.erase, Value.anonymous, Value.anonymous, Closure.erase_of_wraps c hc]
  | .int _, _, .primitive _ => rfl
  | .float _, _, .primitive _ => rfl
  | .bool _, _, .primitive _ => rfl
  | .char _, _, .primitive _ => rfl
  | .str _, _, .primitive _ => rfl
termination_by structural v => v

theorem Closure.erase_of_wraps : ∀ (c : Closure) {d : Closure}, c.Wraps d →
    c.erase.anonymous = d.anonymous
  | .native _ _ _ _, _, .native => rfl
  | .user _ _ _ env, _, .user _ henv => by
    rw [Closure.erase, Closure.anonymous, Closure.anonymous, Env.erase_of_wraps env henv]
  | .monitored _ inner _ _ _ _, _, .monitored _ hinner => by
    rw [Closure.erase, Closure.erase_of_wraps inner hinner]
termination_by structural c => c

theorem Env.erase_of_wraps : ∀ (env : Env) {env' : Env}, env.Wraps env' →
    env.erase.anonymous = env'.anonymous
  | .frames _, _, .frames => rfl
  | .bind x v env, _, .bind hv henv => by
    rw [Env.erase, Env.anonymous, Env.anonymous, Value.erase_of_wraps v hv,
      Env.erase_of_wraps env henv]
termination_by structural env => env

end

/-- **Related values agree.** -/
theorem Value.Wraps.agrees {v w : Value} (h : v.Wraps w) : v.Agrees w :=
  ⟨Value.erase_of_wraps v h, h.type_eq, h.render_eq⟩

/-! ### Environments and stores -/

theorem rel_or {α β : Type} {R : α → β → Prop} {a c : Option α} {b d : Option β}
    (h : Option.Rel R a b) (h' : Option.Rel R c d) : Option.Rel R (a.or c) (b.or d) := by
  cases h with
  | none => exact h'
  | some hab => exact .some hab

theorem rel_imp {α β : Type} {R S : α → β → Prop} {a : Option α} {b : Option β}
    (h : Option.Rel R a b) (hRS : ∀ x y, R x y → S x y) : Option.Rel S a b := by
  cases h with
  | none => exact .none
  | some hab => exact .some (hRS _ _ hab)

theorem Store.Wraps.getIn? {σ τ : Store} (h : σ.Wraps τ) (is : List Nat) (name : String) :
    Option.Rel Value.Wraps (σ.getIn? is name) (τ.getIn? is name) := by
  induction is with
  | nil => exact .none
  | cons i is ih => exact rel_or (h.frame i name) ih

/-- Related environments bind the same names to related values. -/
theorem Env.Wraps.get? {σ τ : Store} (hστ : σ.Wraps τ) {env env' : Env} (h : env.Wraps env')
    (name : String) : Option.Rel Value.Wraps (env.get? σ name) (env'.get? τ name) := by
  induction env using Env.root.induct generalizing env' with
  | case1 chain =>
    cases h
    exact hστ.getIn? _ name
  | case2 x v outer ih =>
    cases h with
    | bind hv houter =>
      rw [Env.get?_bind, Env.get?_bind]
      split
      · exact .some hv
      · exact ih houter

/-- Parameters are bound to related arguments. -/
theorem Env.Wraps.bindAll {env env' : Env} (h : env.Wraps env') (params : List String)
    {args args' : List Value} (hargs : List.Forall₂ Value.Wraps args args') :
    (env.bindAll params args).Wraps (env'.bindAll params args') := by
  -- Both lists are walked together; the shorter one ends the binding on both sides.
  induction params generalizing env env' args args' with
  | nil => exact h
  | cons x params ih =>
    cases hargs with
    | nil => exact h
    | cons ha hargs => exact ih (Env.Wraps.bind ha h) hargs

/-- Binding a name to related values keeps stores related. -/
theorem Store.Wraps.define {σ τ : Store} (h : σ.Wraps τ) (c : Chain) (name : String) {v w : Value}
    (hv : v.Wraps w) : (σ.define c name v).Wraps (τ.define c name w) where
  size_eq := by
    rw [Store.define, Store.define, Array.size_modify, Array.size_modify, h.size_eq]
  frame i x := by
    -- Whether the frame exists is decided by the number of frames, which is the same.
    rw [Store.frame_define, Store.frame_define, h.size_eq]
    split
    · rw [Table.get?_insert, Table.get?_insert]
      split
      · exact .some hv
      · exact h.frame i x
    · exact h.frame i x

/-- Sessions begin with related stores. -/
theorem Workspace.wraps_install :
    (Workspace.init.install Store.global).store.Wraps
      (Workspace.init.install Store.global).store := by
  refine Workspace.install_of_register (P := fun w => w.store.Wraps w.store) ?_ ?_
  · refine ⟨rfl, fun i name => ?_⟩
    rw [show Workspace.init.store.frame i = .empty from Store.frame_init i]
    exact .none
  · intro w b h _
    exact h.define Store.global b.name (.closure .native)

end ContractML
