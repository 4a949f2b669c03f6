import ContractML.Proofs.Arguments
import ContractML.Proofs.Blame

/-!
# Scope safety

A variable is looked up when it is reached, in the environment of the function it stands in, and the
predicates of a contract are evaluated in the global frame whatever is bound around the annotation.
So whether a name is found depends on every closure that the session leads to, and on every contract
that has been declared.

A session is closed if all their names are bound where they will be looked up. A statement whose
free names are bound globally finds every name in a closed session, and leaves it closed. A function
may name itself: its body is not evaluated before it is bound. That is why its own contract has to
be an arrow, which wraps the function; a predicate would call it at once.

## Main definitions

* `Expr.free`, `ContractExpr.free` — free names.
* `Closure.Closed`, `ContractExpr.Closed`, `Session.Closed` — names that are bound where they are
  looked up.
* `Session.Admits`, `Session.AdmitsAll` — statements that name only what is bound.
* `Session.Admitted` — the sessions that are reached by running such statements.

## Main results

* `Discipline.closed` — evaluations over a closed store find every name.
* `Session.Closed.execute`, `Session.Closed.executeAll` — one statement, and a run.
* `Session.scope_safety` — **statements that name only what is bound find every name**.
-/

namespace ContractML

open Eval (Spec)
open Session (globalEnv)

/-! ### Free names -/

mutual

/-- The names that an expression takes from its environment. The contracts of monitored expressions
are not among them: they are evaluated in the global frame. -/
def Expr.free : Expr → List String
  | .lit _ _ => []
  | .var x => [x.text]
  | .unary _ e _ => e.free
  | .binary _ l r _ => l.free ++ r.free
  | .logical _ l r _ => l.free ++ r.free
  | .cond c t e _ => c.free ++ (t.free ++ e.free)
  | .lambda ps b _ => b.free.filter fun x => x ∉ ps.map Ident.text
  | .call f args _ => f.free ++ Expr.freeAll args
  | .letIn x v b _ => v.free ++ b.free.filter fun y => y ≠ x.text
  | .seq es _ => Expr.freeAll es
  | .monitored e _ _ _ => e.free

/-- The names that several expressions take from their environment. -/
def Expr.freeAll : List Expr → List String
  | [] => []
  | e :: es => e.free ++ Expr.freeAll es

end

/-- The names that the predicates of a contract take from their environment. -/
def ContractExpr.free (k : ContractExpr) : List String := k.predicates.flatMap Expr.free

/-- Whether an expression is a function. -/
def Expr.isLambda : Expr → Bool
  | .lambda _ _ _ => true
  | _ => false

theorem Expr.mem_freeAll {es : List Expr} {x : String} :
    x ∈ Expr.freeAll es ↔ ∃ e ∈ es, x ∈ e.free := by
  induction es with
  | nil => simp [Expr.freeAll]
  | cons e es ih => simp [Expr.freeAll, ih]

theorem Expr.freeAll_congr {es : List Expr} (h : ∀ e ∈ es, e.erase.free = e.free) :
    Expr.freeAll (Expr.eraseAll es) = Expr.freeAll es := by
  induction es with
  | nil => rfl
  | cons e es ih =>
    rw [List.forall_mem_cons] at h
    rw [Expr.eraseAll, Expr.freeAll, Expr.freeAll, h.1, ih h.2]

/-- Annotations have no part in the free names of an expression. -/
theorem Expr.free_erase (e : Expr) : e.erase.free = e.free := by
  induction e with
  | lit v s => rfl
  | var x => rfl
  | unary op e s ih => simp only [Expr.erase, Expr.free, ih]
  | binary op l r s ihl ihr => simp only [Expr.erase, Expr.free, ihl, ihr]
  | logical op l r s ihl ihr => simp only [Expr.erase, Expr.free, ihl, ihr]
  | cond c t e s ihc iht ihe => simp only [Expr.erase, Expr.free, ihc, iht, ihe]
  | lambda ps b s ih => simp only [Expr.erase, Expr.free, ih]
  | call f args s ihf ihargs =>
    simp only [Expr.erase, Expr.free, ihf, Expr.freeAll_congr ihargs]
  | letIn x v b s ihv ihb => simp only [Expr.erase, Expr.free, ihv, ihb]
  | seq es s ih => simp only [Expr.erase, Expr.free, Expr.freeAll_congr ih]
  | monitored e c pos neg ih _ => rw [Expr.erase, ih, Expr.free]

/-- The free names of an operand are free in the expression. -/
theorem Expr.free_of_mem_operands {e p : Expr} (hp : p ∈ e.operands) {x : String}
    (hx : x ∈ p.free) : x ∈ e.free := by
  cases e with
  | lit | var | lambda => cases hp
  | unary | binary | logical | cond | letIn | monitored =>
    simp only [Expr.operands, List.mem_cons, List.not_mem_nil, or_false] at hp
    simp only [Expr.free, List.mem_append]
    grind
  | call f args s =>
    rw [Expr.free, List.mem_append, Expr.mem_freeAll]
    rcases List.mem_cons.mp hp with rfl | hp
    · exact .inl hx
    · exact .inr ⟨p, hp, hx⟩
  | seq es s =>
    rw [Expr.free, Expr.mem_freeAll]
    exact ⟨p, hp, hx⟩

/-! ### Closed stores -/

/-- A name is bound in an environment. -/
def Env.Binds (store : Store) (env : Env) (x : String) : Prop := (env.get? store x).isSome

/-- A contract whose free names are bound in the global frame. -/
def ContractExpr.Closed (store : Store) (k : ContractExpr) : Prop :=
  ∀ x ∈ k.free, globalEnv.Binds store x

/-- An annotation whose contract is closed. -/
def ContractClosed (store : Store) (a : Annotation) : Prop := a.contract.Closed store

/-- A closure whose names are bound where they are looked up: a function of the language has an
environment that ends in the global frame, every free name of its body is a parameter or bound in
the environment, and every free name of a contract in its body is bound in the global frame. -/
def Closure.Closed (store : Store) : Closure → Prop
  | .user _ params body env => env.root = globalEnv ∧
      (∀ x ∈ body.free, x ∈ params ∨ env.Binds store x) ∧
        ∀ a ∈ body.annotations, ContractClosed store a
  | _ => True

variable {store : Store}

theorem Env.binds_bind {name : String} {v : Value} {env : Env} {x : String} :
    (Env.bind name v env).Binds store x ↔ name = x ∨ env.Binds store x := by
  by_cases h : name = x <;> simp [Env.Binds, h]

/-- With an argument for each parameter, the parameters are bound, and so is what was bound. -/
theorem Env.binds_bindAll {env : Env} {params : List String} {args : List Value}
    (hlength : args.length = params.length) {x : String}
    (h : x ∈ params ∨ env.Binds store x) : (env.bindAll params args).Binds store x := by
  induction params generalizing env args with
  | nil => exact h.resolve_left List.not_mem_nil
  | cons y params ih =>
    cases args with
    | nil => cases hlength
    | cons a args =>
      refine ih (Nat.succ.inj hlength) ?_
      rw [List.mem_cons] at h
      rw [Env.binds_bind]
      rcases h with (rfl | h) | h
      · exact .inr (.inl rfl)
      · exact .inl h
      · exact .inr (.inr h)

theorem Fault.ne_unboundName_of_isRoutine {f : Fault} (h : f.isRoutine = true) (name : String) :
    f.cause ≠ .unboundName name := by
  intro hcause
  rw [Fault.isRoutine, hcause] at h
  cases h

/-- **Evaluations over a closed store find every name**, if the free names of the expression are
bound in the environment and those of its contracts in the global frame. -/
def Discipline.closed (hstore : store.Each (Value.All (Closure.Closed store))) :
    Discipline store where
  fit e env := (∀ x ∈ e.free, env.Binds store x) ∧ e.All (Expr.Attached (ContractClosed store)) ∧
    env.root = globalEnv ∧ env.All (Closure.Closed store)
  value := Value.All (Closure.Closed store)
  contract k _ _ := k.All (Closure.Closed store)
  fault f := ∀ name, f.cause ≠ .unboundName name
  operands e env he p hp :=
    ⟨fun x hx => he.1 x (Expr.free_of_mem_operands hp hx), he.2.1.operands p hp, he.2.2⟩
  found x env v he hv := he.2.2.2.get? hstore hv
  unbound x env he hnone := by
    have hbinds := he.1 x.text (by simp [Expr.free])
    rw [Env.Binds, hnone] at hbinds
    cases hbinds
  lambda id ps b s env he := by
    obtain ⟨hfree, hall, hroot, henv⟩ := he
    rw [Value.all_closure, Closure.all_user]
    refine ⟨⟨hroot, fun x hx => ?_, Expr.all_attached.mp (Expr.all_lambda.mp hall).2⟩, henv⟩
    by_cases hparam : x ∈ ps.map Ident.text
    · exact .inl hparam
    · exact .inr (hfree x (List.mem_filter.mpr ⟨hx, decide_eq_true hparam⟩))
  bind x v b s env w he hw := by
    obtain ⟨hfree, hall, hroot, henv⟩ := he
    refine ⟨fun y hy => ?_, (Expr.all_letIn.mp hall).2.2, hroot, Env.all_bind.mpr ⟨hw, henv⟩⟩
    rw [Env.binds_bind]
    by_cases hxy : x.text = y
    · exact .inl hxy
    · have hmem : y ∈ b.free.filter fun z => z ≠ x.text :=
        List.mem_filter.mpr ⟨hy, decide_eq_true (Ne.symm hxy)⟩
      exact .inr (hfree y (List.mem_append_right _ hmem))
  predicates e k pos neg env he p hp := by
    obtain ⟨-, hall, hroot, -⟩ := he
    obtain ⟨hk, -, hinside⟩ := Expr.all_monitored.mp hall
    -- Only the global frame is around a predicate, and there the names of the contract are bound.
    rw [hroot]
    refine ⟨fun x hx => ?_, hinside.predicates hp, rfl, Env.all_frames⟩
    exact hk ⟨k, pos, neg⟩ rfl x (List.mem_flatMap.mpr ⟨p, hp, hx⟩)
  resolved e k pos neg env c _ hc := Contract.all_of_denotes hc
  body id params b env args hc hargs hlength := by
    obtain ⟨⟨hroot, hfree, hattached⟩, henv⟩ := Closure.all_user.mp (Value.all_closure.mp hc)
    refine ⟨fun x hx => Env.binds_bindAll hlength (hfree x hx), Expr.all_attached.mpr hattached, ?_⟩
    exact Env.bindAll_of_bind (P := fun e => e.root = globalEnv ∧ e.All (Closure.Closed store))
      (fun x a e ha he => ⟨he.1, Env.all_bind.mpr ⟨ha, he.2⟩⟩) ⟨hroot, henv⟩ params hargs
  primitive v hv := Value.all_of_isClosure hv
  wrap id c domain range label pos neg hk hc _ := by
    rw [Value.all_closure] at hc ⊢
    exact Closure.all_monitored.mpr ⟨trivial, hc, Contract.all_function.mp hk⟩
  unwrap id c domain range pos neg hc := by
    obtain ⟨-, hinner, hdomain, hrange⟩ := Closure.all_monitored.mp (Value.all_closure.mp hc)
    exact ⟨Value.all_closure.mpr hinner, hdomain, hrange⟩
  predicate p label pos neg hk := Value.all_closure.mpr (Contract.all_base.mp hk)
  rejected k pos neg v span _ _ name hcause := by cases hcause
  routine f hf := Fault.ne_unboundName_of_isRoutine hf
  host _ _ _ := Value.all_of_isClosure rfl
  locate span f hf := hf

/-! ### Bindings stay -/

/-- A global binding unbinds no name. -/
theorem Env.Binds.define {env : Env} {x : String} (h : env.Binds store x) (c : Chain)
    (name : String) (v : Value) : env.Binds (store.define c name v) x := by
  unfold Env.Binds at h ⊢
  induction env using Env.root.induct with
  | case1 chain =>
    rw [Env.get?_frames, Store.get?] at h ⊢
    generalize chain.frame :: chain.outer = is at h ⊢
    induction is with
    | nil => cases h
    | cons i is ih =>
      rw [Store.getIn?, Option.isSome_or, Bool.or_eq_true] at h ⊢
      refine h.imp (fun h => ?_) ih
      rw [Store.frame_define]
      split
      · rw [Table.get?_insert]
        split
        · rfl
        · exact h
      · exact h
  | case2 y w outer ih =>
    rw [Env.get?_bind] at h ⊢
    split
    · rfl
    · rename_i hy
      rw [if_neg hy] at h
      exact ih h

theorem ContractExpr.Closed.define {k : ContractExpr} (h : k.Closed store) (c : Chain)
    (name : String) (v : Value) : k.Closed (store.define c name v) :=
  fun x hx => (h x hx).define c name v

theorem Closure.Closed.define {d : Closure} (h : d.Closed store) (c : Chain) (name : String)
    (v : Value) : d.Closed (store.define c name v) := by
  cases d with
  | user id params body env =>
    obtain ⟨hroot, hfree, hattached⟩ := h
    refine ⟨hroot, fun x hx => ?_, fun a ha => ContractExpr.Closed.define (hattached a ha) c name v⟩
    exact (hfree x hx).imp_right fun hbinds => hbinds.define c name v
  | _ => trivial

/-- After a global binding the name is bound. -/
theorem Store.binds_define (hsize : 0 < store.frames.size) (name : String) (v : Value) :
    globalEnv.Binds (store.define Store.global name v) name := by
  simp [Env.Binds, globalEnv, Store.get?, Store.getIn?, Store.global, Store.frame_define, hsize]

/-! ### Annotated trees -/

/-- The monitor attaches contracts that are declared, and no others. -/
theorem Expr.attached_monitor {A : Annotation → Prop} {scopes : ScopeStack}
    (h : ∀ name k, scopes.lookup? name = some k →
      (∀ pos neg, A ⟨k, pos, neg⟩) ∧ k.All (Expr.Attached A)) {e : Expr}
    (he : e.All (Expr.Attached A)) : (e.monitor scopes).All (Expr.Attached A) := by
  refine Expr.all_monitor (fun n hn => ?_) (fun name k hk => (h name k hk).2) he
  cases n with
  | var x =>
    rw [Expr.monitor]
    split
    · rename_i k hk
      rintro a ⟨⟩
      exact (h x.text k hk).1 _ _
    · exact hn
  | monitored e k pos neg => exact hn
  | _ => exact Expr.attached_of_isMonitored rfl

/-! ### Sessions -/

namespace Session

/-- Every name of every closure that a session leads to, and of every contract that is declared in
it, is bound where it is looked up. -/
structure Closed (s : Session) : Prop where
  /-- There is a global frame. -/
  frames : 0 < s.workspace.store.frames.size
  /-- The closures that the session leads to are closed. -/
  closures : ∀ c, s.Holds c → c.Closed s.workspace.store
  /-- The contracts are closed, and so are those inside them. -/
  contracts : ∀ name k, s.scopes.lookup? name = some k → k.Closed s.workspace.store ∧
    k.All (Expr.Attached (ContractClosed s.workspace.store))

/-- A name is bound globally. -/
def Defines (s : Session) (x : String) : Prop := globalEnv.Binds s.workspace.store x

/-- A statement whose free names are bound globally. A function that is bound to a name may have
that name free, unless it is to be checked against a contract that is a predicate. -/
def Admits (s : Session) : Stmt → Prop
  | .expr e _ => ∀ x ∈ e.free, s.Defines x
  | .contract _ k _ => ∀ x ∈ k.free, s.Defines x
  | .define f e _ => (∀ x ∈ e.free, s.Defines x) ∨
      e.isLambda = true ∧ (∀ x ∈ e.free, x = f.text ∨ s.Defines x) ∧
        ∀ k ∈ s.scopes.lookup? f.text, k.isArrow = true

/-- Statements of which each is admitted when it is run. -/
def AdmitsAll : Session → List Stmt → Prop
  | _, [] => True
  | s, stmt :: stmts => s.Admits stmt ∧ (s.execute stmt).2.AdmitsAll stmts

instance (s : Session) : DecidablePred s.Defines := fun x =>
  inferInstanceAs (Decidable ((globalEnv.get? s.workspace.store x).isSome = true))

instance (s : Session) : DecidablePred s.Admits
  | .expr e _ => inferInstanceAs (Decidable (∀ x ∈ e.free, s.Defines x))
  | .contract _ k _ => inferInstanceAs (Decidable (∀ x ∈ k.free, s.Defines x))
  | .define f e _ => inferInstanceAs (Decidable ((∀ x ∈ e.free, s.Defines x) ∨
      e.isLambda = true ∧ (∀ x ∈ e.free, x = f.text ∨ s.Defines x) ∧
        ∀ k ∈ s.scopes.lookup? f.text, k.isArrow = true))

instance decidableAdmitsAll : ∀ (s : Session) (stmts : List Stmt), Decidable (s.AdmitsAll stmts)
  | _, [] => inferInstanceAs (Decidable True)
  | s, stmt :: stmts =>
    have := decidableAdmitsAll (s.execute stmt).2 stmts
    inferInstanceAs (Decidable (s.Admits stmt ∧ (s.execute stmt).2.AdmitsAll stmts))

variable {s s' : Session}

theorem Closed.each (h : s.Closed) : s.Each (Value.All (Closure.Closed s.workspace.store)) :=
  each_all_iff.mpr h.closures

/-- A plain expression is annotated with closed contracts only. -/
theorem Closed.attached_monitor (h : s.Closed) {scopes : ScopeStack}
    (hscopes : ∀ name, scopes.lookup? name = s.scopes.lookup? name) {e : Expr} (he : e.Plain) :
    (e.monitor scopes).All (Expr.Attached (ContractClosed s.workspace.store)) := by
  refine Expr.attached_monitor (fun name k hk => ?_) fun n hn =>
    Expr.attached_of_isMonitored (he n hn)
  rw [hscopes] at hk
  exact ⟨fun _ _ => (h.contracts name k hk).1, (h.contracts name k hk).2⟩

theorem Closed.attached_annotate (h : s.Closed) {e : Expr} (he : e.Plain) :
    (s.annotate e).All (Expr.Attached (ContractClosed s.workspace.store)) := by
  unfold annotate
  split
  · exact h.attached_monitor (fun _ => rfl) he
  · exact fun n hn => Expr.attached_of_isMonitored (he n hn)

theorem Closed.attached_annotateBinding (h : s.Closed) (name : String) {e : Expr} (he : e.Plain) :
    (s.annotateBinding name e).All (Expr.Attached (ContractClosed s.workspace.store)) := by
  have hvalue := h.attached_monitor (s.scopes.lookup?_push name) he
  rw [annotateBinding_eq]
  split
  · split
    · rename_i k hk
      obtain ⟨hclosed, hinside⟩ := h.contracts name k hk
      refine Expr.all_monitored.mpr ⟨?_, hvalue, hinside⟩
      rintro a ⟨⟩
      exact hclosed
    · exact hvalue
  · exact fun n hn => Expr.attached_of_isMonitored (he n hn)

/-- The tree that is evaluated for a function is a function, which the contract of the name may be
wrapped around. -/
theorem annotateBinding_lambda (s : Session) (name : String) (ps : List Ident) (b : Expr)
    (span : Span) : ∃ b', s.annotateBinding name (.lambda ps b span) = .lambda ps b' span ∨
      ∃ k, s.scopes.lookup? name = some k ∧ s.annotateBinding name (.lambda ps b span) =
        .monitored (.lambda ps b' span) k name s.scopes.current? := by
  rw [annotateBinding_eq]
  split
  · refine ⟨b.monitor (s.scopes.push name), ?_⟩
    split
    · rename_i k hk
      exact .inr ⟨k, hk, rfl⟩
    · exact .inl rfl
  · exact ⟨b, .inl rfl⟩

/-- An expression with its names bound is evaluated to a closed value, and no name is missing. -/
theorem Closed.spec_eval (h : s.Closed) {e : Expr} (hfree : ∀ x ∈ e.free, s.Defines x)
    (hattached : e.All (Expr.Attached (ContractClosed s.workspace.store))) :
    Spec (e.eval s.workspace.store globalEnv) (Value.All (Closure.Closed s.workspace.store))
      fun f => ∀ name, f.cause ≠ .unboundName name :=
  (Discipline.closed h.each.store).spec_eval ⟨hfree, hattached, rfl, Env.all_frames⟩

theorem Closed.spec_resolve (h : s.Closed) {k : ContractExpr} (hk : k.Closed s.workspace.store)
    (hattached : k.All (Expr.Attached (ContractClosed s.workspace.store))) :
    Spec (k.resolve s.workspace.store globalEnv)
      (fun c => k.Denotes (Value.All (Closure.Closed s.workspace.store)) c)
      fun f => ∀ name, f.cause ≠ .unboundName name := by
  refine (Discipline.closed h.each.store).spec_resolve fun p hp => ?_
  refine ⟨fun x hx => ?_, hattached.predicates hp, rfl, Env.all_frames⟩
  exact hk x (List.mem_flatMap.mpr ⟨p, hp, hx⟩)

/-- The value of a global binding is closed once it is bound, also if it names itself. -/
theorem Closed.spec_binding (h : s.Closed) {f : Ident} {e : Expr} {span : Span} (he : e.Plain)
    (hadmits : s.Admits (.define f e span)) :
    Spec ((s.annotateBinding f.text e).eval s.workspace.store globalEnv)
      (fun v => ∀ w, v.All (Closure.Closed (s.workspace.store.define Store.global f.text w)))
      fun f => ∀ name, f.cause ≠ .unboundName name := by
  have hfree : (s.annotateBinding f.text e).free = e.free := by
    rw [← Expr.free_erase, s.erase_annotateBinding f.text he]
  have hattached := h.attached_annotateBinding f.text he
  rcases hadmits with hbound | ⟨hfunction, hself, harrow⟩
  · refine (h.spec_eval (hfree ▸ hbound) hattached).mono (fun v hv w => ?_) fun _ hf => hf
    exact hv.mono fun c hc => hc.define Store.global f.text w
  · obtain ⟨ps, b, span, rfl⟩ : ∃ ps b span, e = .lambda ps b span := by
      cases e with
      | lambda ps b span => exact ⟨ps, b, span, rfl⟩
      | _ => cases hfunction
    -- The function is made without a look at its body, where its own name is not bound yet.
    have hlambda : ∀ b', (Expr.lambda ps b' span).free = (Expr.lambda ps b span).free →
        b'.All (Expr.Attached (ContractClosed s.workspace.store)) →
        Spec ((Expr.lambda ps b' span).eval s.workspace.store globalEnv)
          (fun v => ∃ c, v = .closure c ∧
            ∀ w, c.All (Closure.Closed (s.workspace.store.define Store.global f.text w)))
          fun f => ∀ name, f.cause ≠ .unboundName name := by
      intro b' hfree' hb'
      rw [Expr.eval, Expr.evalWith]
      refine Spec.bind Spec.fresh fun id _ => Spec.pure ⟨_, rfl, fun w => ?_⟩
      refine Closure.all_user.mpr ⟨⟨rfl, fun x hx => ?_, fun a ha => ?_⟩, Env.all_frames⟩
      · by_cases hparam : x ∈ ps.map Ident.text
        · exact .inl hparam
        · have hx' : x ∈ (Expr.lambda ps b' span).free :=
            List.mem_filter.mpr ⟨hx, decide_eq_true hparam⟩
          rw [hfree'] at hx'
          rcases hself x hx' with rfl | hdefines
          · exact .inr (Store.binds_define h.frames f.text w)
          · exact .inr (Env.Binds.define hdefines Store.global f.text w)
      · exact ContractExpr.Closed.define (Expr.all_attached.mp hb' a ha) Store.global f.text w
    obtain ⟨b', hlam | ⟨k, hk, hmon⟩⟩ := s.annotateBinding_lambda f.text ps b span
    · rw [hlam] at hfree hattached ⊢
      refine (hlambda b' hfree (Expr.all_lambda.mp hattached).2).mono ?_ fun _ hf => hf
      rintro v ⟨c, rfl, hc⟩ w
      exact Value.all_closure.mpr (hc w)
    · rw [hmon] at hfree hattached ⊢
      obtain ⟨-, hfunction, hinside⟩ := Expr.all_monitored.mp hattached
      rw [Expr.eval, Expr.evalWith]
      refine Spec.bind (hlambda b' hfree (Expr.all_lambda.mp hfunction).2) ?_
      rintro v ⟨c, rfl, hc⟩
      refine Spec.bind (h.spec_resolve (h.contracts f.text k hk).1 hinside) fun contract hden => ?_
      -- A contract that is an arrow wraps the function and does not call it.
      cases k with
      | flat p => cases harrow _ hk
      | arrow ds r sp =>
        cases contract with
        | base p label => exact hden.elim
        | function domain range label =>
          have hcontract := Contract.all_function.mp (Contract.all_of_denotes hden)
          refine Contract.spec_wrap (fun id _ w => ?_) fun name hcause => by cases hcause
          refine Value.all_closure.mpr (Closure.all_monitored.mpr ⟨trivial, hc w, ?_, ?_⟩)
          · intro d hd e he
            exact (hcontract.1 d hd e he).define Store.global f.text w
          · intro e he
            exact (hcontract.2 e he).define Store.global f.text w

/-! ### Statements -/

/-- What is closed in one session is closed in another. -/
def Keeps (s s' : Session) : Prop :=
  ∀ c : Closure, c.Closed s.workspace.store → c.Closed s'.workspace.store

/-- The session is closed with other counters. -/
theorem Closed.counting (h : s.Closed) (d : Counters) : (s.counting d).Closed :=
  ⟨h.frames, h.closures, h.contracts⟩

theorem Closed.binding (h : s.Closed) (x : String) {v : Value}
    (hv : v.All (Closure.Closed (s.workspace.store.define Store.global x v))) :
    (s.binding x v).Closed := by
  have hmono : ∀ u : Value, u.All (Closure.Closed s.workspace.store) →
      u.All (Closure.Closed (s.workspace.store.define Store.global x v)) :=
    fun u hu => hu.mono fun c hc => hc.define Store.global x v
  refine ⟨?_, each_all_iff.mp ⟨?_, ?_⟩, ?_⟩
  · simpa [Session.binding, Workspace.define, Store.define] using h.frames
  · exact (h.each.store.mono hmono).define Store.global x hv
  · exact fun r hr => (h.each.results r hr).mono hmono
  · intro name k hk
    obtain ⟨hclosed, hinside⟩ := h.contracts name k hk
    refine ⟨hclosed.define Store.global x v, fun n hn a ha => ?_⟩
    exact ContractExpr.Closed.define (hinside n hn a ha) Store.global x v

theorem Closed.declaring (h : s.Closed) (x : String) {k : ContractExpr}
    (hk : k.Closed s.workspace.store)
    (hinside : k.All (Expr.Attached (ContractClosed s.workspace.store))) :
    (s.declaring x k).Closed := by
  refine ⟨h.frames, h.closures, fun name k' hk' => ?_⟩
  rw [Session.declaring, ScopeStack.lookup?_declare] at hk'
  split at hk'
  · cases hk'
    exact ⟨hk, hinside⟩
  · exact h.contracts name k' hk'

/-- **One statement** that names only what is bound finds every name, and keeps a session closed. -/
theorem Closed.execute (h : s.Closed) {stmt : Stmt} (hplain : stmt.Plain)
    (hadmits : s.Admits stmt) :
    (∀ f name, .ofExcept (s.execute stmt).1 = StatementResult.failed (.fault f) →
        f.cause ≠ .unboundName name) ∧
      (s.execute stmt).2.Closed ∧ s.Keeps (s.execute stmt).2 ∧
        (StatementResult.ofExcept (s.execute stmt).1).Each
          (Value.All (Closure.Closed (s.execute stmt).2.workspace.store)) := by
  have hfailed : ∀ f : Fault, (StatementResult.ofExcept (.error f)).Each
      (Value.All (Closure.Closed s.workspace.store)) := by
    intro f p hp
    cases hp
  cases stmt with
  | expr e span =>
    have hspec := h.spec_eval (e := s.annotate e)
      (by rw [← Expr.free_erase, s.erase_annotate hplain]; exact hadmits)
      (h.attached_annotate hplain)
    rw [execute_expr]
    cases hv : (s.annotate e).eval s.workspace.store globalEnv s.workspace.counters with
    | ok v c =>
      refine ⟨fun f name hf => (by cases hf), h.counting c, fun _ hc => hc, ?_⟩
      rintro p ⟨⟩
      exact (hspec.of_ok hv).1
    | error f c =>
      refine ⟨?_, h.counting c, fun _ hc => hc, hfailed f⟩
      rintro g name ⟨⟩
      exact (hspec.of_error hv).1 name
  | define x e span =>
    have hspec := h.spec_binding hplain hadmits
    rw [execute_define]
    cases hv : (s.annotateBinding x.text e).eval s.workspace.store globalEnv
        s.workspace.counters with
    | ok v c =>
      have hclosed := (hspec.of_ok hv).1 v
      refine ⟨fun f name hf => (by cases hf), (h.counting c).binding x.text hclosed,
        fun d hd => hd.define Store.global x.text v, ?_⟩
      rintro p ⟨⟩
      exact hclosed
    | error f c =>
      refine ⟨?_, h.counting c, fun _ hc => hc, hfailed f⟩
      rintro g name ⟨⟩
      exact (hspec.of_error hv).1 name
  | contract x k span =>
    have hdeclared : (StatementResult.ofExcept (.ok (.contract x.text k.render))).Each
        (Value.All (Closure.Closed s.workspace.store)) := by
      intro p hp
      cases hp
    have hinside : k.All (Expr.Attached (ContractClosed s.workspace.store)) :=
      fun n hn => Expr.attached_of_isMonitored (hplain n hn)
    cases hon : s.contracts with
    | false =>
      rw [execute_contract_off hon]
      exact ⟨fun f name hf => (by cases hf), h, fun _ hc => hc, hdeclared⟩
    | true =>
      have hspec := h.spec_resolve hadmits hinside
      rw [execute_contract hon]
      cases hv : k.resolve s.workspace.store globalEnv s.workspace.counters with
      | ok c d =>
        exact ⟨fun f name hf => (by cases hf), (h.counting d).declaring x.text hadmits hinside,
          fun _ hc => hc, hdeclared⟩
      | error f d =>
        refine ⟨?_, h.counting d, fun _ hc => hc, hfailed f⟩
        rintro g name ⟨⟩
        exact (hspec.of_error hv).1 name

/-- Any number of statements that name only what is bound find every name, and keep a session
closed. -/
theorem Closed.executeAll (h : s.Closed) {stmts : List Stmt} (hplain : ∀ stmt ∈ stmts, stmt.Plain)
    (hadmits : s.AdmitsAll stmts) :
    (∀ f name, .failed (.fault f) ∈ (s.executeAll stmts).1 → f.cause ≠ .unboundName name) ∧
      (s.executeAll stmts).2.Closed ∧ s.Keeps (s.executeAll stmts).2 ∧
        ∀ r ∈ (s.executeAll stmts).1,
          r.Each (Value.All (Closure.Closed (s.executeAll stmts).2.workspace.store)) := by
  induction stmts generalizing s with
  | nil => exact ⟨by simp [Session.executeAll], h, fun _ hc => hc, by simp [Session.executeAll]⟩
  | cons stmt stmts ih =>
    rw [List.forall_mem_cons] at hplain
    obtain ⟨hfound, hnext, hkeeps, hresult⟩ := h.execute hplain.1 hadmits.1
    obtain ⟨hfounds, hlast, hkeepsAll, hresults⟩ := ih hnext hplain.2 hadmits.2
    refine ⟨?_, hlast, fun c hc => hkeepsAll c (hkeeps c hc), ?_⟩
    · intro f name hf
      rcases List.mem_cons.mp hf with hf | hf
      · exact hfound f name hf.symm
      · exact hfounds f name hf
    · rintro r hr
      rcases List.mem_cons.mp hr with rfl | hr
      · exact hresult.mono fun v hv => hv.mono hkeepsAll
      · exact hresults r hr

/-- A run of statements that name only what is bound. -/
theorem Closed.runReading (h : s.Closed) {r : Reading} (hplain : r.program.Plain)
    (hadmits : s.AdmitsAll r.program.body) :
    (s.runReading r).Closed ∧
      ∀ f name, .fault f ∈ (s.runReading r).failures → f.cause ≠ .unboundName name := by
  obtain ⟨hfound, hlast, -, hresults⟩ := h.executeAll hplain hadmits
  have heach : (s.runReading r).Each
      (Value.All (Closure.Closed (s.executeAll r.program.body).2.workspace.store)) := by
    rw [runReading_eq]
    refine ⟨hlast.each.store, fun result hmem => ?_⟩
    rcases mem_interleave hmem with hmem | ⟨e, rfl⟩
    · exact hresults result hmem
    · intro p hp
      cases hp
  refine ⟨?_, fun f name hf => hfound f name (mem_executeAll_of_fault hf)⟩
  rw [runReading_eq] at heach ⊢
  exact ⟨hlast.frames, each_all_iff.mp heach, hlast.contracts⟩

theorem Closed.registerNative (h : s.Closed) (b : Builtin) : (s.registerNative b).2.Closed := by
  refine registerNative_of_registered h fun _ => ?_
  let native : Closure := .native s.workspace.counters.identity b.name b.type b.body
  have hnative : ∀ σ, (Value.closure native).All (Closure.Closed σ) := fun σ =>
    Value.all_closure.mpr (Closure.all_native.mpr trivial)
  exact (h.counting { s.workspace.counters with
    identity := s.workspace.counters.identity + 1 }).binding b.name (hnative _)

theorem closed_start (contracts : Bool) : (Session.start contracts).Closed := by
  -- The closures of a new session are primitive functions, which are closed over every store.
  have hstore : (Session.start contracts).workspace.store.Each
      (Value.All fun c => ∀ σ, c.Closed σ) := by
    refine Workspace.install_of_register
      (P := fun w => w.store.Each (Value.All fun c => ∀ σ, c.Closed σ)) Store.each_init ?_
    intro w b h _
    refine h.define Store.global b.name (Value.all_closure.mpr (Closure.all_native.mpr ?_))
    exact fun _ => trivial
  refine ⟨(ready_start contracts).frames, each_all_iff.mp ⟨?_, fun r hr => by cases hr⟩,
    fun name k hk => by cases hk⟩
  exact hstore.mono fun v hv => hv.mono fun c hc => hc _

/-- A session, with or without contracts, after any number of runs of statements that are parsed and
admitted, and of registrations of primitive functions that are accepted or rejected. -/
inductive Admitted : Session → Prop
  /-- A new session. -/
  | start (contracts : Bool) : Admitted (.start contracts)
  /-- A source text is run. -/
  | run {s : Session} {source : String} : Admitted s →
      s.AdmitsAll (Program.recover source).program.body → Admitted (s.run source)
  /-- A parsed program is run. -/
  | runProgram {s : Session} {p : Program} : Admitted s → p.Parsed → s.AdmitsAll p.body →
      Admitted (s.runProgram p)
  /-- A primitive function is accepted or rejected. -/
  | registerNative {s : Session} (b : Builtin) : Admitted s → Admitted (s.registerNative b).2

theorem Admitted.closed (h : s.Admitted) :
    s.Closed ∧ ∀ f name, .fault f ∈ s.failures → f.cause ≠ .unboundName name := by
  induction h with
  | start contracts =>
    refine ⟨closed_start contracts, fun f name hf => ?_⟩
    cases hf
  | run _ hadmits ih => exact ih.1.runReading (Program.parsed_recover _).plain hadmits
  | runProgram _ hp hadmits ih => exact ih.1.runReading hp.plain hadmits
  | @registerNative s b _ ih =>
    refine ⟨ih.1.registerNative b, ?_⟩
    exact registerNative_of_registered (P := fun s => ∀ f name, .fault f ∈ s.failures →
      f.cause ≠ .unboundName name) ih.2 fun _ => ih.2

/-- **Scope safety.** In a closed session, a parsed statement whose free names are bound globally,
or are the name that it binds to a function, finds every name that it looks up, and leaves the
session closed. So no session that is reached by running such statements has recorded an unbound
name. -/
theorem scope_safety :
    (∀ (s : Session) (stmt : Stmt), s.Closed → stmt.Plain → s.Admits stmt →
      (∀ f name, (s.execute stmt).1 = .error f → f.cause ≠ .unboundName name) ∧
        (s.execute stmt).2.Closed) ∧
      ∀ s : Session, s.Admitted → s.Closed ∧
        ∀ f name, .fault f ∈ s.failures → f.cause ≠ .unboundName name := by
  refine ⟨fun s stmt hs hplain hadmits => ?_, fun s hs => hs.closed⟩
  obtain ⟨hfound, hclosed, -, -⟩ := hs.execute hplain hadmits
  refine ⟨fun f name hf => hfound f name ?_, hclosed⟩
  rw [hf]
  rfl

/-- A function that calls itself, under a contract that is an arrow. -/
theorem scope_safety_recursive_function :
    let s := (Session.start true).run
      "contract fact = positive -> positive;;
       let fact n = if n = 1 then 1 else n * fact (n - 1);;"
    let call : Stmt := .expr (.call (.var ⟨"fact", ⟨0, 4⟩⟩) [.lit (.int 5) ⟨5, 6⟩] ⟨0, 6⟩) ⟨0, 6⟩
    s.Admitted ∧ s.Closed ∧ s.Admits call ∧
      (match (s.execute call).1 with
        | .ok (.evaluated v) => v.render
        | _ => "") = "120" ∧
      (∀ f name, (s.execute call).1 = .error f → f.cause ≠ .unboundName name) ∧
        (s.execute call).2.Closed := by
  intro s call
  have hadmitted : s.Admitted := .run (.start true) (by decide +kernel)
  have hclosed : s.Closed := (scope_safety.2 s hadmitted).1
  have hadmits : s.Admits call := by decide +kernel
  have hplain : call.Plain := by
    show ∀ n ∈ _, _
    decide
  exact ⟨hadmitted, hclosed, hadmits, by decide +kernel,
    scope_safety.1 s call hclosed hplain hadmits⟩

end Session

end ContractML
