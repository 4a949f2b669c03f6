import ContractML.Proofs.Coupling
import ContractML.Proofs.Places

/-!
# The number of open calls

Every call of a function of the language is counted while it is open, and no more calls may be open
than `maxCallDepth`. The count is exact: it goes up when the body of a function is entered and comes
down again when the body is left, with a value or with a fault of any kind, so that no statement
finds an open call that is not its own.

That the count is right at all times is said by an evaluator with watches. A watch looks at the
counters and may fail; it is told how many calls have been opened since the evaluation began and are
not finished. The evaluator runs it at the start and at the end of every body, and before and after
everything in a body that could open a call. A watch that fails only on a wrong count never fails,
so evaluating with watches and without is the same.

A call that finds the limit reached fails with a fault that has no place yet. A fault that comes out
of a body has one, so the two can be told apart.

The limit turns answers into faults, and does nothing else: from fewer open calls, or under a higher
limit, every answer is the same that was not the fault of the limit.

## Main definitions

* `Eval.watched`, `callWatched`, `Machine.watching` — the evaluator with watches.
* `Eval.Persists` — an answer that stays the same from fewer open calls.

## Main results

* `Coupling.runs_watching` — watches that see the right count change nothing.
* `callDepth_exact` — **the count of open calls is exact and does not leak**.
* `answers_persist` — **the limit only turns answers into faults of the limit**.
-/

namespace ContractML

open Eval (Spec Closes)

/-! ### Watches -/

/-- Looks at the counters before and after an evaluation, also after a fault. -/
def Eval.watched {α : Type} (watch : Eval Unit) (x : Eval α) : Eval α := do
  watch
  try x finally watch

/-- The machine with a look at the counters before and after everything that could open a call. -/
def Machine.watchedBy (watch : Eval Unit) (m : Machine) : Machine where
  store := m.store
  apply c args span := Eval.watched watch (m.apply c args span)
  enforce k v pos neg span := Eval.watched watch (m.enforce k v pos neg span)

/-- Calls a function of the language when `opened` calls have been opened and are not finished. The
watch is told how many there are outside and inside the body. -/
def callWatched (store : Store) (watch : Nat → Eval Unit) : (level opened : Nat) → CallUser
  | 0, opened => fun _ _ _ _ => Eval.watched (watch opened) (throw ⟨.callDepthExceeded, none⟩)
  | level + 1, opened => fun params body env args =>
    Eval.watched (watch opened) <| Eval.deeper <| Eval.watched (watch (opened + 1)) <|
      body.evalWith ((Machine.ofCall store (callWatched store watch level (opened + 1))).watchedBy
        (watch (opened + 1))) (env.bindAll params args)

/-- The machine over a store with watches. -/
def Machine.watching (store : Store) (watch : Nat → Eval Unit) : Machine :=
  (Machine.ofCall store (callWatched store watch maxCallDepth 0)).watchedBy (watch 0)

/-- Fails unless the given number of calls are open, and no more than the limit allows. -/
def Eval.expectDepth (n : Nat) : Eval Unit := fun c =>
  if c.depth = n ∧ c.depth ≤ maxCallDepth then .ok () c else .error ⟨.callDepthExceeded, none⟩ c

-- A watch that is told of an open call does run inside the body of a function.
example : (Expr.call (.lambda [⟨"x", ⟨4, 5⟩⟩] (.var ⟨"x", ⟨9, 10⟩⟩) ⟨0, 10⟩)
      [.lit (.int 1) ⟨11, 12⟩] ⟨0, 12⟩).evalWith (.watching .init fun opened =>
        if opened = 1 then throw ⟨.divisionByZero, none⟩ else pure ()) Session.globalEnv ⟨0, 0⟩ =
    .error ⟨.divisionByZero, some ⟨0, 12⟩⟩ ⟨1, 0⟩ := rfl

theorem Eval.tryFinally_apply {α : Type} (x : Eval α) (last : Eval Unit) (c : Counters) :
    (tryFinally x last : Eval α) c = match x c with
      | .ok a d => (last >>= fun _ => pure a) d
      | .error f d => (last >>= fun _ => throw f) d := by
  simp only [tryFinally, tryFinally', Functor.map, EStateM.map]
  cases hx : x c with
  | ok a d =>
    simp only [Eval.bind_apply]
    cases hlast : last d <;> rfl
  | error f d =>
    simp only [Eval.bind_apply]
    cases hlast : last d <;> rfl

namespace Coupling

variable {κ : Coupling} {α β : Type}

/-- A watch that sees nothing wrong changes nothing. -/
theorem Matches.watched {g : α → β} {x : Eval α} {y : Eval β} {watch : Eval Unit}
    (hwatch : ∀ c, c.depth = κ.depth' → watch c = .ok () c) (h : κ.Matches g x y) :
    κ.Matches g x (Eval.watched watch y) := by
  intro c c' hc
  have hxc := h c c' hc
  rw [Eval.watched, Eval.bind_of_ok (hwatch c' hc.depth'), Eval.tryFinally_apply]
  generalize x c = r at hxc ⊢
  generalize y c' = r' at hxc ⊢
  -- The second look finds as many open calls as the first one, since the runs are aligned again.
  cases hxc with
  | ok hd =>
    rename_i a d d'
    change κ.Answers g (.ok a d) ((watch >>= fun _ => pure (g a)) d')
    rw [Eval.bind_of_ok (hwatch d' hd.depth')]
    exact .ok hd
  | error hd =>
    rename_i f d d'
    change κ.Answers g (.error f d) ((watch >>= fun _ => throw (f.move κ.labels.place)) d')
    rw [Eval.bind_of_ok (hwatch d' hd.depth')]
    exact .error hd
  | excused hf => exact .excused hf

theorem Runs.watchedBy {m m' : Machine} {watch : Eval Unit}
    (hwatch : ∀ c, c.depth = κ.depth' → watch c = .ok () c) (hm : κ.Runs m m') :
    κ.Runs m (m'.watchedBy watch) where
  store := hm.store
  apply c args span := (hm.apply c args span).watched hwatch
  enforce k v pos neg span := (hm.enforce k v pos neg span).watched hwatch

/-- Two runs of the same, with as many open calls and nothing excused. -/
def same (d : Nat) : Coupling where
  labels := .none
  depth := d
  depth' := d
  excused _ := False

theorem aligned_same {d : Nat} {c : Counters} (hc : c.depth = d) : (same d).Aligned c c :=
  ⟨hc, hc, fun _ => rfl⟩

/-- What matches in two runs of the same is equal. -/
theorem eq_of_matches_same {d : Nat} {x y : Eval α} (h : (same d).Matches id x y) {c : Counters}
    (hc : c.depth = d) : y c = x c := by
  have hxc := h c c (aligned_same hc)
  have heq : ∀ {e e' : Counters}, (same d).Aligned e e' → e' = e := by
    intro e e' he
    have hidentity : e.identity = e'.identity := he.identity 0
    have hdepth : e.depth = e'.depth := he.depth.trans he.depth'.symm
    cases e
    cases e'
    cases hidentity
    cases hdepth
    rfl
  generalize x c = r at hxc ⊢
  generalize y c = r' at hxc ⊢
  cases hxc with
  | ok he => rw [heq he, id]
  | error he =>
    rename_i f e e'
    have hmove : f.move (same d).labels.place = f := f.move_id
    rw [heq he, hmove]
  | excused hf => exact hf.elim

section Watching

variable {store : Store} {watch : Nat → Eval Unit} {d : Nat}
  (hwatch : ∀ k c, c.depth = d + k → c.depth ≤ maxCallDepth → watch k c = .ok () c)

include hwatch

/-- Calling with watches that see the right count is calling. -/
theorem calls_callWatched (level opened : Nat) (hopened : d + opened ≤ maxCallDepth) :
    (same (d + opened)).Calls (callUser store level) (callWatched store watch level opened) := by
  induction level generalizing opened with
  | zero =>
    refine Calls.of_eq rfl fun params body env args => ?_
    refine Matches.watched (fun c hc => hwatch opened c hc (hc.trans_le hopened)) ?_
    exact Matches.throw rfl
  | succ level ih =>
    refine Calls.of_eq rfl fun params body env args => ?_
    refine Matches.watched (fun c hc => hwatch opened c hc (hc.trans_le hopened)) ?_
    -- Both runs enter the body, or neither does; inside it one more call is open.
    refine Matches.deeperWithin (fun hgo => ⟨hgo, ?_⟩) fun hstop => .inr hstop
    have hinside : d + (opened + 1) ≤ maxCallDepth := hgo
    have hsilent : ∀ c : Counters, c.depth = d + (opened + 1) → watch (opened + 1) c = .ok () c :=
      fun c hc => hwatch (opened + 1) c hc (hc.trans_le hinside)
    have hruns : (same (d + (opened + 1))).Runs (.ofCall store (callUser store level))
        ((Machine.ofCall store (callWatched store watch level (opened + 1))).watchedBy
          (watch (opened + 1))) :=
      (runs_ofCall (.none store) (ih (opened + 1) hinside)).watchedBy hsilent
    exact (hruns.eval_eq rfl body _).watched hsilent

/-- The machine with watches that see the right count matches the machine without watches. -/
theorem runs_watching (hd : d ≤ maxCallDepth) :
    (same d).Runs (.over store) (.watching store watch) :=
  (runs_ofCall (.none store) (calls_callWatched hwatch maxCallDepth 0 hd)).watchedBy
    fun c hc => hwatch 0 c hc (hc.trans_le hd)

end Watching

end Coupling

/-! ### One call -/

/-- Calling closes the calls that it opens, at every level. -/
theorem closes_callUser (store : Store) (level : Nat) : CallUser.Closes (callUser store level) :=
  fun params body env args => (Invariant.trivial store).calls_callUser level params body env args
    (fun _ _ => trivial) trivial fun _ _ => trivial

/-- A call fails with a fault of its own exactly if it finds the limit reached. There are always
enough levels left for the calls that may still be opened. -/
theorem callUser_exceeds_iff (store : Store) {level : Nat} (params : List String) (body : Expr)
    (env : Env) (args : List Value) {c : Counters} (hc : c.depth ≤ maxCallDepth)
    (hlevel : maxCallDepth ≤ level + c.depth) :
    (∃ d, callUser store level params body env args c = .error ⟨.callDepthExceeded, none⟩ d) ↔
      c.depth = maxCallDepth := by
  cases level with
  | zero =>
    have hdepth : c.depth = maxCallDepth := by omega
    exact ⟨fun _ => hdepth, fun _ => ⟨c, rfl⟩⟩
  | succ level =>
    constructor
    · rintro ⟨d, hd⟩
      by_contra hne
      have hlimit : ¬maxCallDepth ≤ c.depth := by omega
      -- The body is entered, and a fault that comes out of it has a place.
      have hbody := placed_evalWith (closes_callUser store level) store body
        (env.bindAll params args)
      simp only [callUser, Eval.deeper, if_neg hlimit] at hd
      split at hd
      · cases hd
      · rename_i f e hf
        cases hd
        exact absurd (hbody.of_error hf).1 Bool.false_ne_true
    · intro hdepth
      exact ⟨c, Eval.deeper_of_le _ hdepth.ge⟩

/-- **The count of open calls is exact and does not leak.** Over every store, an evaluation ends
with as many open calls as it began with, whether it gives a value or fails: of an expression, of a
closure applied to arguments, of a contract, and of a check. While it goes on, the count is the one
that it began with and one more for each call that has been opened since and is not finished, and at
most the limit: no watch that fails only otherwise can tell evaluating with watches from evaluating
without. A call fails with a fault of its own exactly if it finds the limit reached. So no call is
open before a statement of a session, whatever has failed before it. -/
theorem callDepth_exact (store : Store) :
    ((∀ e env, Closes (Expr.eval store e env)) ∧
      (∀ f args span, Closes (Closure.apply store f args span)) ∧
      (∀ k env, Closes (ContractExpr.resolve store k env)) ∧
      ∀ k v pos neg span, Closes (Contract.enforce store k v pos neg span)) ∧
    (∀ (watch : Nat → Eval Unit) (c : Counters), c.depth ≤ maxCallDepth →
      (∀ opened c', c'.depth = c.depth + opened → c'.depth ≤ maxCallDepth →
        watch opened c' = .ok () c') →
      (∀ (e : Expr) env, e.evalWith (.watching store watch) env c = e.eval store env c) ∧
      ∀ f args span, (Machine.watching store watch).apply f args span c =
        Closure.apply store f args span c) ∧
    (∀ level params body env args (c : Counters), c.depth ≤ maxCallDepth →
      maxCallDepth ≤ level + c.depth →
      ((∃ d, callUser store level params body env args c = .error ⟨.callDepthExceeded, none⟩ d) ↔
        c.depth = maxCallDepth)) ∧
    ∀ s : Session, s.Reachable → ∀ stmts,
      (s.executeAll stmts).2.workspace.counters.depth = 0 := by
  have hcloses := closes_callUser store maxCallDepth
  refine ⟨⟨Eval.closes_eval store, ?_, Eval.closes_resolve store, ?_⟩, ?_, ?_, ?_⟩
  · intro f args span
    exact (placed_applyWith hcloses f args span).mono (fun _ h => h) fun _ _ => trivial
  · intro k v pos neg span
    exact (placed_enforceWith hcloses k v pos neg span).mono (fun _ h => h) fun _ _ => trivial
  · intro watch c hc hwatch
    have hruns : (Coupling.same c.depth).Runs (.over store) (.watching store watch) :=
      Coupling.runs_watching hwatch hc
    exact ⟨fun e env => Coupling.eq_of_matches_same (hruns.eval_eq rfl e env) rfl,
      fun f args span => Coupling.eq_of_matches_same (hruns.apply_eq rfl f args span) rfl⟩
  · intro level params body env args c hc hlevel
    exact callUser_exceeds_iff store params body env args hc hlevel
  · intro s hs stmts
    exact (s.depth_executeAll stmts).trans hs.depth_eq_zero

/-- A function that calls itself without end, begun with two calls left: the evaluation fails with
as many open calls as it began with, a strict watch notices nothing, and a statement that follows it
finds no open call. -/
theorem callDepth_exact_runaway :
    let s := (Session.start true).run "let f n = f n;;"
    let call : Expr := .call (.var ⟨"f", ⟨0, 1⟩⟩) [.lit (.int 3) ⟨2, 3⟩] ⟨0, 3⟩
    let watch : Nat → Eval Unit := fun opened => Eval.expectDepth (998 + opened)
    let c : Counters := ⟨s.workspace.counters.identity, 998⟩
    s.Reachable ∧ c.depth ≤ maxCallDepth ∧
      (∃ f d, call.eval s.workspace.store Session.globalEnv c = .error f d ∧
        f.cause.kind = "call_depth_exceeded" ∧ d.depth = c.depth) ∧
      call.evalWith (.watching s.workspace.store watch) Session.globalEnv c =
        call.eval s.workspace.store Session.globalEnv c ∧
      (∃ d, callUser s.workspace.store 0 ["n"] call Session.globalEnv [.int 3] ⟨0, maxCallDepth⟩ =
        .error ⟨.callDepthExceeded, none⟩ d) ∧
      (s.executeAll [.expr call ⟨0, 3⟩]).2.workspace.counters.depth = 0 := by
  intro s call watch c
  have hreached : s.Reachable := .run _ (.start true)
  have hdepth : c.depth ≤ maxCallDepth := by decide
  obtain ⟨⟨hcloses, -⟩, hwatch, hcall, hstatements⟩ := callDepth_exact s.workspace.store
  have hfails : (match call.eval s.workspace.store Session.globalEnv c with
      | .error f _ => f.cause.kind == "call_depth_exceeded"
      | .ok _ _ => false) = true := by
    decide +kernel
  have hsilent : ∀ opened c', c'.depth = c.depth + opened → c'.depth ≤ maxCallDepth →
      watch opened c' = .ok () c' := fun opened c' h h' => if_pos ⟨h, h'⟩
  have hsame := (hwatch watch c hdepth hsilent).1 call Session.globalEnv
  have hown := (hcall 0 ["n"] call Session.globalEnv [.int 3] ⟨0, maxCallDepth⟩ (Nat.le_refl _)
      (Nat.le_add_left _ _)).mpr rfl
  refine ⟨hreached, hdepth, ?_, hsame, hown, hstatements s hreached _⟩
  clear_value s call c
  have hbalanced := hcloses call Session.globalEnv c
  generalize call.eval s.workspace.store Session.globalEnv c = r at hfails hbalanced ⊢
  cases r with
  | ok v d => cases hfails
  | error f d => exact ⟨f, d, rfl, beq_iff_eq.mp hfails, hbalanced.2⟩

/-! ### Fewer open calls and higher limits -/

/-- Begun with no more open calls, `y` answers what `x` answers, unless that is the fault of the
limit. -/
def Eval.Persists {α : Type} (x y : Eval α) : Prop :=
  ∀ c c' : Counters, c'.identity = c.identity → c'.depth ≤ c.depth →
    match x c with
    | .ok a d => ∃ d', y c' = .ok a d' ∧ d'.identity = d.identity
    | .error f d => f.cause = .callDepthExceeded ∨
        ∃ d', y c' = .error f d' ∧ d'.identity = d.identity

theorem Eval.Persists.of_ok {α : Type} {x y : Eval α} (h : Persists x y) {c c' d : Counters} {a : α}
    (hx : x c = .ok a d) (hdepth : c'.depth ≤ c.depth) (hidentity : c'.identity = c.identity) :
    ∃ d', y c' = .ok a d' ∧ d'.identity = d.identity := by
  have hxc := h c c' hidentity hdepth
  rwa [hx] at hxc

/-- Whatever the first machine answers persists on the second one. -/
structure Machine.Persists (m m' : Machine) : Prop where
  eval : ∀ (e : Expr) env, Eval.Persists (e.evalWith m env) (e.evalWith m' env)
  apply : ∀ c args span, Eval.Persists (m.apply c args span) (m'.apply c args span)
  resolve : ∀ (k : ContractExpr) env, Eval.Persists (k.resolveWith m env) (k.resolveWith m' env)
  enforce : ∀ k v pos neg span,
    Eval.Persists (m.enforce k v pos neg span) (m'.enforce k v pos neg span)

/-- Two runs of the same from different numbers of open calls. The fault of the limit is excused. -/
def Coupling.lowered (depth depth' : Nat) : Coupling where
  labels := .none
  depth := depth
  depth' := depth'
  excused cause := cause = .callDepthExceeded

theorem Eval.Persists.of_matches {α : Type} {x y : Eval α}
    (h : ∀ d d', d' ≤ d → (Coupling.lowered d d').Matches id x y) : Persists x y := by
  intro c c' hidentity hdepth
  have haligned : (Coupling.lowered c.depth c'.depth).Aligned c c' := by
    refine ⟨rfl, rfl, fun k => ?_⟩
    rw [hidentity]
    rfl
  have hxc := h c.depth c'.depth hdepth c c' haligned
  generalize x c = r at hxc ⊢
  generalize y c' = r' at hxc ⊢
  cases hxc with
  | ok hd => exact ⟨_, rfl, (hd.identity 0).symm⟩
  | @error f d d' hd =>
    have hmove : f.move (Coupling.lowered c.depth c'.depth).labels.place = f := f.move_id
    exact .inr ⟨d', by rw [hmove], (hd.identity 0).symm⟩
  | excused hf => exact .inl hf

/-- A higher limit leaves room for the calls of a run that has no fewer open calls. -/
theorem Coupling.room_lowered {depth depth' limit limit' : Nat} (hdepth : depth' ≤ depth)
    (hlimit : limit ≤ limit') : (lowered depth depth').Room limit limit' limit limit' where
  levels := hlimit
  calls := Nat.add_le_add hdepth hlimit
  exact := .inl rfl

/-- Answers persist under a limit that is no lower. -/
theorem Machine.persists_within (store : Store) {limit limit' : Nat} (hlimit : limit ≤ limit') :
    (within store limit).Persists (within store limit') := by
  have hruns : ∀ d d', d' ≤ d →
      (Coupling.lowered d d').Runs (within store limit) (within store limit') := fun d d' hd =>
    Coupling.runs_within (.none store) (Coupling.room_lowered hd hlimit)
  constructor
  · intro e env
    exact Eval.Persists.of_matches fun d d' hd => (hruns d d' hd).eval_eq rfl e env
  · intro c args span
    exact Eval.Persists.of_matches fun d d' hd => (hruns d d' hd).apply_eq rfl c args span
  · intro k env
    exact Eval.Persists.of_matches fun d d' hd => (hruns d d' hd).resolve_eq rfl k env
  · intro k v pos neg span
    exact Eval.Persists.of_matches fun d d' hd => (hruns d d' hd).enforce_eq rfl k v pos neg span

/-- **The limit only turns answers into faults of the limit.** An evaluation that is begun with
fewer open calls, from the same store, answers what it answered, value or fault, if that was not the
fault of the limit: for expressions, closures applied to arguments, contracts and checks. The same
holds under a higher limit. -/
theorem answers_persist (store : Store) :
    (∀ e env, Eval.Persists (Expr.eval store e env) (Expr.eval store e env)) ∧
    (∀ c args span,
      Eval.Persists (Closure.apply store c args span) (Closure.apply store c args span)) ∧
    (∀ k env,
      Eval.Persists (ContractExpr.resolve store k env) (ContractExpr.resolve store k env)) ∧
    (∀ k v pos neg span, Eval.Persists (Contract.enforce store k v pos neg span)
      (Contract.enforce store k v pos neg span)) ∧
    ∀ limit, maxCallDepth ≤ limit → (Machine.over store).Persists (.within store limit) := by
  have hraise : ∀ limit, maxCallDepth ≤ limit →
      (Machine.over store).Persists (.within store limit) := by
    intro limit hlimit
    rw [← Machine.within_maxCallDepth]
    exact Machine.persists_within store hlimit
  have hsame : (Machine.over store).Persists (.over store) := by
    have hlimit := hraise maxCallDepth (Nat.le_refl maxCallDepth)
    rwa [Machine.within_maxCallDepth] at hlimit
  exact ⟨hsame.eval, hsame.apply, hsame.resolve, hsame.enforce, hraise⟩

/-- The integer that an evaluation gave, if it gave one. -/
def Eval.int? : EStateM.Result Fault Counters Value → Option Int64
  | .ok (.int n) _ => some n
  | _ => none

theorem Eval.eq_ok_of_int? {r : EStateM.Result Fault Counters Value} {n : Int64}
    (h : Eval.int? r = some n) : ∃ d, r = .ok (.int n) d := by
  unfold Eval.int? at h
  split at h
  · cases h
    exact ⟨_, rfl⟩
  · cases h

/-- A recursion that ends just before the limit answers the same with more room: under twice the
limit, and with almost no call open. -/
theorem answers_persist_countdown :
    let s := (Session.start true).run "let f n = if n < 1 then 0 else f (n - 1);;"
    let call : Expr := .call (.var ⟨"f", ⟨0, 1⟩⟩) [.lit (.int 2) ⟨2, 3⟩] ⟨0, 3⟩
    maxCallDepth ≤ 2000 ∧
      (∃ d, call.eval s.workspace.store Session.globalEnv ⟨20, 997⟩ = .ok (.int 0) d) ∧
      ∃ d, call.evalWith (.within s.workspace.store 2000) Session.globalEnv ⟨20, 1⟩ =
        .ok (.int 0) d := by
  intro s call
  have hlimit : maxCallDepth ≤ 2000 := by decide
  obtain ⟨d, hd⟩ : ∃ d, call.eval s.workspace.store Session.globalEnv ⟨20, 997⟩ = .ok (.int 0) d :=
    Eval.eq_ok_of_int? (by decide +kernel)
  clear_value s call
  have hpersists := (answers_persist s.workspace.store).2.2.2.2 2000 hlimit
  have hdepth : (⟨20, 1⟩ : Counters).depth ≤ (⟨20, 997⟩ : Counters).depth := by decide
  obtain ⟨d', hd', -⟩ := (hpersists.eval call Session.globalEnv).of_ok hd hdepth rfl
  exact ⟨hlimit, ⟨d, hd⟩, d', hd'⟩

end ContractML
