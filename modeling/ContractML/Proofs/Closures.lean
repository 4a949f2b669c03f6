import ContractML.Proofs.Discipline
import ContractML.Session.Basic

/-!
# Closures inside values

A closure keeps others alive: a function of the language those in the environment it captured, and a
wrapper what it wraps and the predicates of its contracts. The list of closures inside a value takes
in all of them, to any depth, so that a statement about every closure that a value leads to is a
statement about the members of a list.

What a session holds are the values bound in its frames and the values among its results.

## Main definitions

* `Value.closures`, `Closure.closures`, `Contract.closures`, `Env.closures` — closures inside.
* `Value.All`, `Closure.All`, `Contract.All`, `Env.All` — a property of all of them.
* `Contract.predicates` — the predicates that a contract is made of.
* `Store.Each`, `Session.Each` — a property of every value that is held.
* `Session.Holds` — the closures that a session leads to.

## Main results

* `Contract.all_of_denotes`, `Contract.arity_of_denotes` — contracts that have been evaluated.
* `Store.Each.define`, `Env.All.get?` — binding a name, and looking it up.
-/

namespace ContractML

/-! ### Closures inside -/

mutual

/-- The closures inside a value. -/
def Value.closures : Value → List Closure
  | .closure c => c.closures
  | _ => []

/-- A closure and all closures inside it. -/
def Closure.closures : Closure → List Closure
  | .native id name type body => [.native id name type body]
  | .user id params body env => .user id params body env :: env.closures
  | .monitored id inner domain range pos neg =>
    .monitored id inner domain range pos neg ::
      (inner.closures ++ (Contract.closuresAll domain ++ range.closures))

/-- The predicates of a contract and all closures inside them. -/
def Contract.closures : Contract → List Closure
  | .base p _ => p.closures
  | .function domain range _ => Contract.closuresAll domain ++ range.closures

/-- The closures inside several contracts. -/
def Contract.closuresAll : List Contract → List Closure
  | [] => []
  | k :: ks => k.closures ++ Contract.closuresAll ks

/-- The closures inside the values that an environment binds outside the frames of the store. -/
def Env.closures : Env → List Closure
  | .frames _ => []
  | .bind _ v outer => v.closures ++ outer.closures

end

mutual

/-- The predicates that a contract is made of. -/
def Contract.predicates : Contract → List Closure
  | .base p _ => [p]
  | .function domain range _ => Contract.predicatesAll domain ++ range.predicates

/-- The predicates of several contracts. -/
def Contract.predicatesAll : List Contract → List Closure
  | [] => []
  | k :: ks => k.predicates ++ Contract.predicatesAll ks

end

/-- Every closure inside a value has a property. -/
def Value.All (P : Closure → Prop) (v : Value) : Prop := ∀ c ∈ v.closures, P c

/-- A closure and every closure inside it have a property. -/
def Closure.All (P : Closure → Prop) (c : Closure) : Prop := ∀ d ∈ c.closures, P d

/-- Every closure inside a contract has a property. -/
def Contract.All (P : Closure → Prop) (k : Contract) : Prop := ∀ c ∈ k.closures, P c

/-- Every closure that an environment binds outside the frames of the store has a property. -/
def Env.All (P : Closure → Prop) (env : Env) : Prop := ∀ c ∈ env.closures, P c

section All

variable {P Q : Closure → Prop}

theorem Value.all_closure {c : Closure} : (Value.closure c).All P ↔ c.All P := by
  rw [Value.All, Value.closures, Closure.All]

theorem Value.all_of_isClosure {v : Value} (h : v.isClosure = false) : v.All P := by
  intro c hc
  cases v with
  | closure c' => cases h
  | _ => cases hc

theorem Value.All.mono {v : Value} (h : v.All P) (hPQ : ∀ c, P c → Q c) : v.All Q :=
  fun c hc => hPQ c (h c hc)

theorem Contract.forall_mem_closuresAll {ks : List Contract} :
    (∀ c ∈ Contract.closuresAll ks, P c) ↔ ∀ k ∈ ks, k.All P := by
  induction ks with
  | nil => simp [Contract.closuresAll]
  | cons k ks ih =>
    rw [Contract.closuresAll, List.forall_mem_append, ih, List.forall_mem_cons, Contract.All]

theorem Contract.mem_predicatesAll {ks : List Contract} {p : Closure} :
    p ∈ Contract.predicatesAll ks ↔ ∃ k ∈ ks, p ∈ k.predicates := by
  induction ks with
  | nil => simp [Contract.predicatesAll]
  | cons k ks ih => simp [Contract.predicatesAll, ih]

theorem Closure.all_native {id : Nat} {name : String} {type : Ty} {body : Primitive} :
    (Closure.native id name type body).All P ↔ P (.native id name type body) := by
  simp [Closure.All, Closure.closures]

theorem Closure.all_user {id : Nat} {params : List String} {body : Expr} {env : Env} :
    (Closure.user id params body env).All P ↔ P (.user id params body env) ∧ env.All P := by
  rw [Closure.All, Closure.closures, List.forall_mem_cons, Env.All]

theorem Closure.all_monitored {id : Nat} {inner : Closure} {domain : List Contract}
    {range : Contract} {pos neg : String} :
    (Closure.monitored id inner domain range pos neg).All P ↔
      P (.monitored id inner domain range pos neg) ∧ inner.All P ∧ (∀ k ∈ domain, k.All P) ∧
        range.All P := by
  rw [Closure.All, Closure.closures, List.forall_mem_cons, List.forall_mem_append,
    List.forall_mem_append, Contract.forall_mem_closuresAll, Closure.All, Contract.All]

theorem Contract.all_base {p : Closure} {label : String} :
    (Contract.base p label).All P ↔ p.All P := by
  rw [Contract.All, Contract.closures, Closure.All]

theorem Contract.all_function {domain : List Contract} {range : Contract} {label : String} :
    (Contract.function domain range label).All P ↔ (∀ k ∈ domain, k.All P) ∧ range.All P := by
  rw [Contract.All, Contract.closures, List.forall_mem_append, Contract.forall_mem_closuresAll,
    Contract.All]

theorem Env.all_frames {chain : Chain} : (Env.frames chain).All P := by
  intro c hc
  cases hc

theorem Env.all_bind {name : String} {v : Value} {outer : Env} :
    (Env.bind name v outer).All P ↔ v.All P ∧ outer.All P := by
  rw [Env.All, Env.closures, List.forall_mem_append, Value.All, Env.All]

/-- Nothing is bound over the outermost frame of an environment. -/
theorem Env.all_root {env : Env} : env.root.All P := by
  induction env using Env.root.induct with
  | case1 chain => exact Env.all_frames
  | case2 x v outer ih => exact ih

theorem Closure.mem_closures_self (c : Closure) : c ∈ c.closures := by
  cases c <;> simp [Closure.closures]

mutual

/-- What is inside a closure inside a value is inside the value. -/
theorem Value.All.closure : ∀ {v : Value}, v.All P → ∀ {c : Closure}, c ∈ v.closures → c.All P
  | .closure _, h, _, hc => Closure.All.closure (Value.all_closure.mp h) hc
  | .int _, _, _, hc | .float _, _, _, hc | .bool _, _, _, hc | .char _, _, _, hc
  | .str _, _, _, hc => by cases hc

theorem Closure.All.closure : ∀ {c : Closure}, c.All P → ∀ {d : Closure}, d ∈ c.closures → d.All P
  | .native _ _ _ _, h, d, hd => by
    rw [Closure.closures, List.mem_singleton] at hd
    exact hd ▸ h
  | .user _ _ _ env, h, d, hd => by
    rcases List.mem_cons.mp hd with rfl | hd
    · exact h
    · exact Env.All.closure (Closure.all_user.mp h).2 hd
  | .monitored _ inner domain range _ _, h, d, hd => by
    rcases List.mem_cons.mp hd with rfl | hd
    · exact h
    · obtain ⟨-, hinner, hdomain, hrange⟩ := Closure.all_monitored.mp h
      rcases List.mem_append.mp hd with hd | hd
      · exact Closure.All.closure hinner hd
      · rcases List.mem_append.mp hd with hd | hd
        · exact Contract.All.closureAll hdomain hd
        · exact Contract.All.closure hrange hd

theorem Contract.All.closure : ∀ {k : Contract}, k.All P → ∀ {c : Closure}, c ∈ k.closures →
    c.All P
  | .base _ _, h, _, hc => Closure.All.closure (Contract.all_base.mp h) hc
  | .function _ _ _, h, _, hc => by
    obtain ⟨hdomain, hrange⟩ := Contract.all_function.mp h
    rcases List.mem_append.mp hc with hc | hc
    · exact Contract.All.closureAll hdomain hc
    · exact Contract.All.closure hrange hc

theorem Contract.All.closureAll : ∀ {ks : List Contract}, (∀ k ∈ ks, k.All P) → ∀ {c : Closure},
    c ∈ Contract.closuresAll ks → c.All P
  | [], _, _, hc => by cases hc
  | _ :: _, h, _, hc => by
    rw [List.forall_mem_cons] at h
    rcases List.mem_append.mp hc with hc | hc
    · exact Contract.All.closure h.1 hc
    · exact Contract.All.closureAll h.2 hc

theorem Env.All.closure : ∀ {env : Env}, env.All P → ∀ {c : Closure}, c ∈ env.closures → c.All P
  | .frames _, _, _, hc => by cases hc
  | .bind _ _ _, h, _, hc => by
    obtain ⟨hv, houter⟩ := Env.all_bind.mp h
    rcases List.mem_append.mp hc with hc | hc
    · exact Value.All.closure hv hc
    · exact Env.All.closure houter hc

end

/-- What the predicates of a written contract lead to, the contract that it denotes leads to. -/
theorem Contract.all_of_denotes {k : ContractExpr} {c : Contract}
    (h : k.Denotes (Value.All P) c) : c.All P := by
  induction k generalizing c with
  | flat e =>
    cases c with
    | base p label => exact Contract.all_base.mpr (Value.all_closure.mp h.1)
    | function domain range label => exact h.elim
  | arrow ds r s ihds ihr =>
    cases c with
    | base p label => exact h.elim
    | function domain range label =>
      obtain ⟨hdomain, hrange, -⟩ := h
      refine Contract.all_function.mpr ⟨fun d hd => ?_, ihr hrange⟩
      -- Every contract of the domain is denoted by one of those that were written.
      obtain ⟨k, hk, hden⟩ := hdomain.exists_denotes hd
      exact ihds k hk hden

/-- The predicates of a contract that has been evaluated take one argument. -/
theorem Contract.arity_of_denotes {V : Value → Prop} {k : ContractExpr} {c : Contract}
    (h : k.Denotes V c) : ∀ p ∈ c.predicates, p.arity = 1 := by
  induction k generalizing c with
  | flat e =>
    cases c with
    | base p label =>
      intro q hq
      rw [Contract.predicates, List.mem_singleton] at hq
      rw [hq]
      exact h.2.1
    | function domain range label => exact h.elim
  | arrow ds r s ihds ihr =>
    cases c with
    | base p label => exact h.elim
    | function domain range label =>
      obtain ⟨hdomain, hrange, -⟩ := h
      intro p hp
      rw [Contract.predicates, List.mem_append] at hp
      rcases hp with hp | hp
      · obtain ⟨d, hd, hpd⟩ := Contract.mem_predicatesAll.mp hp
        obtain ⟨k, hk, hden⟩ := hdomain.exists_denotes hd
        exact ihds k hk hden p hpd
      · exact ihr hrange p hp

end All

/-! ### Values that are held -/

/-- Every value bound in a frame has a property. -/
def Store.Each (V : Value → Prop) (store : Store) : Prop :=
  ∀ i name v, (store.frame i).get? name = some v → V v

/-- The value of a statement that has one has a property. -/
def StatementResult.Each (V : Value → Prop) (r : StatementResult) : Prop :=
  ∀ p ∈ r.value?, V p.1

/-- Every value bound in a frame or among the results has a property. -/
structure Session.Each (V : Value → Prop) (s : Session) : Prop where
  store : s.workspace.store.Each V
  results : ∀ r ∈ s.results, r.Each V

/-- A session leads to a closure that is inside a value bound in a frame or among the results. -/
def Session.Holds (s : Session) (c : Closure) : Prop :=
  (∃ i name v, (s.workspace.store.frame i).get? name = some v ∧ c ∈ v.closures) ∨
    ∃ r ∈ s.results, ∃ p ∈ r.value?, c ∈ p.1.closures

section Each

variable {V W : Value → Prop}

theorem Store.each_init : Store.init.Each V := by
  intro i name v hv
  rw [Store.frame_init, Table.get?_empty] at hv
  cases hv

/-- After a name is bound, every value that is held was held before or is the new one. -/
theorem Store.Each.define {store : Store} (h : store.Each V) (c : Chain) (name : String) {v : Value}
    (hv : V v) : (store.define c name v).Each V := by
  intro i x w hw
  rw [Store.frame_define] at hw
  split at hw
  · rw [Table.get?_insert] at hw
    split at hw
    · cases hw
      exact hv
    · exact h i x w hw
  · exact h i x w hw

theorem Store.Each.getIn? {store : Store} (h : store.Each V) {is : List Nat} {name : String}
    {v : Value} (hv : store.getIn? is name = some v) : V v := by
  induction is with
  | nil => cases hv
  | cons i is ih =>
    rw [Store.getIn?, Option.or_eq_some_iff] at hv
    rcases hv with hv | ⟨-, hv⟩
    · exact h i name v hv
    · exact ih hv

theorem Store.Each.mono {store : Store} (h : store.Each V) (hVW : ∀ v, V v → W v) :
    store.Each W :=
  fun i name v hv => hVW v (h i name v hv)

theorem StatementResult.Each.mono {r : StatementResult} (h : r.Each V) (hVW : ∀ v, V v → W v) :
    r.Each W :=
  fun p hp => hVW p.1 (h p hp)

/-- What is looked up in an environment is a value of the environment or of the store. -/
theorem Env.All.get? {P : Closure → Prop} {store : Store} (hstore : store.Each (Value.All P))
    {env : Env} (henv : env.All P) {name : String} {v : Value}
    (hv : env.get? store name = some v) : v.All P := by
  induction env using Env.root.induct with
  | case1 chain => exact hstore.getIn? hv
  | case2 x w outer ih =>
    rw [Env.all_bind] at henv
    rw [Env.get?_bind] at hv
    split at hv
    · cases hv
      exact henv.1
    · exact ih henv.2 hv

/-- A session leads to the closures inside its global bindings. -/
theorem Session.holds_of_get? {s : Session} {name : String} {v : Value} (hv : s.get? name = some v)
    {c : Closure} (hc : c ∈ v.closures) : s.Holds c := by
  rw [Session.get?, Store.get?, Store.getIn?, Store.global, Store.getIn?, Option.or_none] at hv
  exact .inl ⟨0, name, v, hv, hc⟩

/-- If every value of a session has a property throughout, so has every closure that it leads to. -/
theorem Session.Each.closure {P : Closure → Prop} {s : Session} (h : s.Each (Value.All P))
    {c : Closure} (hc : s.Holds c) : c.All P := by
  rcases hc with ⟨i, name, v, hv, hc⟩ | ⟨r, hr, p, hp, hc⟩
  · exact (h.store i name v hv).closure hc
  · exact (h.results r hr p hp).closure hc

/-- The closures that a session leads to have a property exactly if all its values have it. -/
theorem Session.each_all_iff {P : Closure → Prop} {s : Session} :
    s.Each (Value.All P) ↔ ∀ c, s.Holds c → P c := by
  constructor
  · rintro ⟨hstore, hresults⟩ c (⟨i, name, v, hv, hc⟩ | ⟨r, hr, p, hp, hc⟩)
    · exact hstore i name v hv c hc
    · exact hresults r hr p hp c hc
  · intro h
    refine ⟨fun i name v hv c hc => ?_, fun r hr p hp c hc => ?_⟩
    · exact h c (.inl ⟨i, name, v, hv, hc⟩)
    · exact h c (.inr ⟨r, hr, p, hp, hc⟩)

end Each

end ContractML
